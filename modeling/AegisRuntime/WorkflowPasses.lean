import AegisRuntime.WorkflowHistory

/-!
# The ledger functions of the coordinator as runs of moves

Settling, `cancel_open` and `propagate` are runs of enabled moves, so the
lifecycle machine explains every ledger the coordinator writes. After
`cancel_open` no task is open except a running one. `propagate` stops at a
ledger in which no pending task is blocked for good or ready to be unblocked.
-/

namespace AegisRuntime.WorkflowPasses

open LabelledRuns FailureRecords WorkflowGraph WorkflowLedger
open WorkflowCoordinator WorkflowMoves WorkflowHistory

variable {spec : WorkflowSpec} {host : Host} {ex : WorkflowExecutor}

/-- A single move is a run. -/
theorem runs_single {rec rec' : Recorder spec} {m : Move spec}
    (h : moveStep host ex rec m=some rec') : runs (moveStep host ex) rec [m]=some rec' :=
  runs_cons_iff.mpr ⟨rec',h,rfl⟩

/-- Settling enters what the settle move enters. -/
theorem settleJoined_eq_enter (rec : Recorder spec) (t : spec.Task) (e : BodyEnd) :
    settleJoined host ex rec t e=enter host rec t (settleEntry host ex rec t e) := by
  rcases e with ((_|_|_|_)|_|_)|_ <;> rfl

/-- Settling a running task is its settle move. -/
theorem settleJoined_move {rec : Recorder spec} {t : spec.Task} (h : rec.stateOf t=.running)
    (e : BodyEnd) : moveStep host ex rec (.settle t e)=some (settleJoined host ex rec t e) := by
  rw [settleJoined_eq_enter]
  simp only [moveStep,entryOf,h,if_true,Option.map_some,Move.task]

/-- A settled task is no longer running; all others keep their states. -/
theorem settleJoined_running_iff (rec : Recorder spec) (t u : spec.Task) (e : BodyEnd) :
    (settleJoined host ex rec t e).stateOf u=.running ↔ u≠t ∧ rec.stateOf u=.running := by
  rw [settleJoined_eq_enter,enter_stateOf]
  by_cases hu : u=t
  · subst hu
    simp only [if_true,ne_eq,not_true_eq_false,false_and,iff_false]
    intro hs
    have hk := settleEntry_kind host ex rec u e
    have hle := three_le_rank_endKind e
    rw [←hk,hs] at hle
    exact absurd hle (by decide)
  · simp [hu]

/-- Starting a ready task is its start move. -/
theorem transition_running_move (host : Host) (ex : WorkflowExecutor) {rec : Recorder spec}
    {t : spec.Task} (h : rec.stateOf t=.ready) :
    moveStep host ex rec (.start t)=some (rec.transition host t .running none) := by
  simp only [moveStep,entryOf,h,if_true,Option.map_some,Move.task]
  rfl

/-- One visit of `cancel_open` is at most one cancel move. -/
theorem cancelVisit_moves (host : Host) (ex : WorkflowExecutor) (rec : Recorder spec) (t : spec.Task) :
    ∃ moves, runs (moveStep host ex) rec moves=some (cancelVisit host ex rec t) ∧
      ∀ m∈moves, m.cancels=true := by
  cases h : cancelReason t (rec.stateOf t) with
  | none =>
    refine ⟨[],?_,by simp⟩
    rw [runs_nil,cancelVisit,h]
  | some reason =>
    refine ⟨[.cancel t],runs_single ?_,by simp [Move.cancels]⟩
    simp only [moveStep,entryOf,h,Option.map_some,cancelVisit,Move.task]
    rfl

theorem cancelOpen_moves (host : Host) (ex : WorkflowExecutor) (rec : Recorder spec) :
    ∃ moves, runs (moveStep host ex) rec moves=some (cancelOpen host ex rec) ∧
      ∀ m∈moves, m.cancels=true :=
  runs_foldl id (cancelVisit_moves host ex) spec.ids rec

/-- The states that stay as they are when a task is cancelled from outside. -/
def settledOrRunning (s : TaskState) : Bool := s.isTerminal || decide (s=.running)

theorem cancelReason_eq_none_iff {t : spec.Task} {s : TaskState} :
    cancelReason t s=none ↔ settledOrRunning s=true := by
  cases s <;> simp [cancelReason,settledOrRunning,TaskState.isTerminal]

theorem recordEnd_stateOf (rec : Recorder spec) (t u : spec.Task) (f : FailureRecord)
    (s : TaskState) : (recordEnd host rec t f s).stateOf u=if u=t then s else rec.stateOf u := by
  simp [recordEnd,Recorder.stateOf,Function.update_apply]

/-- A visit cancels exactly the visited task, and only when it is open. -/
theorem cancelVisit_stateOf (rec : Recorder spec) (t u : spec.Task) :
    (cancelVisit host ex rec t).stateOf u=
      if u=t ∧ settledOrRunning (rec.stateOf u)=false then .cancelled else rec.stateOf u := by
  unfold cancelVisit
  by_cases hu : u=t
  · subst hu
    cases h : cancelReason u (rec.stateOf u) with
    | none => simp [cancelReason_eq_none_iff.mp h]
    | some reason =>
      have hopen : settledOrRunning (rec.stateOf u)=false := by
        rw [←Bool.not_eq_true,←cancelReason_eq_none_iff (t:=u),h]
        simp
      simp [hopen,recordEnd_stateOf]
  · cases cancelReason t (rec.stateOf t) <;> simp [hu,recordEnd_stateOf]

theorem cancelVisits_stateOf (ts : List spec.Task) (rec : Recorder spec) (u : spec.Task) :
    (ts.foldl (cancelVisit host ex) rec).stateOf u=
      if u∈ts ∧ settledOrRunning (rec.stateOf u)=false then .cancelled else rec.stateOf u := by
  induction ts generalizing rec with
  | nil => simp
  | cons t ts ih =>
    rw [List.foldl_cons,ih,cancelVisit_stateOf]
    have hdone : settledOrRunning TaskState.cancelled=true := rfl
    by_cases hs : settledOrRunning (rec.stateOf u)=false
    · by_cases ht : u=t
      · simp [ht,ht ▸ hs,hdone]
      · simp [ht]
    · simp [hs]

/-- `cancel_open` cancels every task that is open and not running. -/
theorem cancelOpen_stateOf (rec : Recorder spec) (u : spec.Task) :
    (cancelOpen host ex rec).stateOf u=
      if settledOrRunning (rec.stateOf u)=true then rec.stateOf u else .cancelled := by
  rw [cancelOpen,cancelVisits_stateOf]
  cases settledOrRunning (rec.stateOf u) <;> simp

/-- No propagation rule applies to the task. -/
def Stuck (rec : Recorder spec) (t : spec.Task) : Prop :=
  rec.stateOf t=.pending → (∀ d∈spec.deps t, endedBadly (rec.stateOf d)=false) ∧
    ¬∀ d∈spec.deps t, rec.stateOf d=.completed

/-- One visit of `propagate` leaves a stuck task alone or makes one move and
raises the flag. -/
theorem propagateVisit_cases (host : Host) (ex : WorkflowExecutor) (pass : Recorder spec×Bool)
    (t : spec.Task) :
    Stuck pass.1 t ∧ propagateVisit host ex pass t=pass ∨
      ∃ m, m.propagates=true ∧ pass.1.stateOf m.task=.pending ∧
        moveStep host ex pass.1 m=some (propagateVisit host ex pass t).1 ∧
        (propagateVisit host ex pass t).2=true := by
  unfold propagateVisit
  by_cases hp : pass.1.stateOf t=.pending
  · rw [if_neg (not_not.mpr hp)]
    cases hbad : (spec.deps t).find? fun d => endedBadly (pass.1.stateOf d) with
    | some bad =>
      have hmem := List.mem_of_find?_eq_some hbad
      have hended := List.find?_some hbad
      refine Or.inr ⟨.skip t bad,rfl,hp,?_,rfl⟩
      simp only [moveStep,entryOf,Move.task]
      rw [if_pos ⟨hp,hmem,hended⟩]
      rfl
    | none =>
      have hgood : ∀ d∈spec.deps t, endedBadly (pass.1.stateOf d)=false := by
        intro d hd
        simpa using List.find?_eq_none.mp hbad d hd
      by_cases hall : (spec.deps t).all fun d => decide (pass.1.stateOf d=.completed)
      · refine Or.inr ⟨.ready t,rfl,hp,?_,by rw [if_pos hall]⟩
        simp only [moveStep,entryOf,Move.task]
        rw [if_pos ⟨hp,hall⟩,if_pos hall]
        rfl
      · refine Or.inl ⟨fun _ => ⟨hgood,fun hdeps => hall ?_⟩,by rw [if_neg hall]⟩
        simpa using hdeps
  · exact Or.inl ⟨fun h => absurd h hp,by rw [if_pos hp]⟩

/-- Visits of `propagate` are propagation moves; the flag says whether there was
one, and without one every visited task is stuck. -/
theorem propagateVisits_spec (host : Host) (ex : WorkflowExecutor) (ts : List spec.Task)
    (pass : Recorder spec×Bool) :
    ∃ moves, runs (moveStep host ex) pass.1 moves=some (ts.foldl (propagateVisit host ex) pass).1 ∧
      (∀ m∈moves, m.propagates=true) ∧
      (ts.foldl (propagateVisit host ex) pass).2=(pass.2 || !moves.isEmpty) ∧
      (moves=[] → ∀ t∈ts, Stuck pass.1 t) := by
  induction ts generalizing pass with
  | nil => exact ⟨[],rfl,by simp,by simp,by simp⟩
  | cons t ts ih =>
    obtain ⟨moves,hruns,hall,hflag,hstuck⟩ := ih (propagateVisit host ex pass t)
    rw [List.foldl_cons]
    rcases propagateVisit_cases host ex pass t with ⟨ht,hsame⟩|⟨m,hm,-,hstep,htrue⟩
    · rw [hsame] at hruns hflag hstuck ⊢
      refine ⟨moves,hruns,hall,hflag,fun hnil u hu => ?_⟩
      rcases List.mem_cons.mp hu with rfl|hu
      · exact ht
      · exact hstuck hnil u hu
    · refine ⟨m::moves,runs_cons_iff.mpr ⟨_,hstep,hruns⟩,?_,?_,by simp⟩
      · intro m' hm'
        rcases List.mem_cons.mp hm' with rfl|hm'
        · exact hm
        · exact hall m' hm'
      · rw [hflag,htrue]
        simp

/-- Tasks not yet looked at. -/
def pendingTasks (rec : Recorder spec) : List spec.Task :=
  spec.ids.filter fun t => decide (rec.stateOf t=.pending)

/-- A propagation move uses up a pending task. -/
theorem pendingTasks_lt {rec rec' : Recorder spec} {m : Move spec} (hm : m.propagates=true)
    (h : moveStep host ex rec m=some rec') : (pendingTasks rec').length < (pendingTasks rec).length := by
  obtain ⟨entry,hcase,rfl⟩ := moveStep_cases h
  have hedge := hcase.admissible.edge
  have hpending : rec.stateOf m.task=.pending := by
    cases hcase <;> first | assumption | cases hm
  have hleft : entry.state≠.pending := by
    intro hp
    rw [hpending,hp] at hedge
    cases hedge
  have hsub : (pendingTasks (enter host rec m.task entry)).Sublist (pendingTasks rec) := by
    have hfilter : pendingTasks (enter host rec m.task entry)=
        (pendingTasks rec).filter fun t => decide ((enter host rec m.task entry).stateOf t=.pending) := by
      rw [pendingTasks,pendingTasks,List.filter_filter]
      refine List.filter_congr fun t _ => ?_
      by_cases ht : t=m.task
      · simp [ht,hleft]
      · simp [ht]
    rw [hfilter]
    exact List.filter_sublist
  refine Nat.lt_of_le_of_ne hsub.length_le fun heq => ?_
  have hmem : m.task∈pendingTasks rec := by simp [pendingTasks,hpending]
  rw [←hsub.eq_of_length heq] at hmem
  simp [pendingTasks,hleft] at hmem

theorem pendingTasks_of_moves {rec rec' : Recorder spec} {moves : List (Move spec)}
    (h : runs (moveStep host ex) rec moves=some rec') (hm : ∀ m∈moves, m.propagates=true) :
    (pendingTasks rec').length+moves.length ≤ (pendingTasks rec).length := by
  induction moves generalizing rec with
  | nil =>
    cases h
    simp
  | cons m moves ih =>
    obtain ⟨mid,hstep,hrest⟩ := runs_cons_iff.mp h
    have hlt := pendingTasks_lt (hm m List.mem_cons_self) hstep
    have hle := ih hrest fun m' hm' => hm m' (List.mem_cons_of_mem m hm')
    rw [List.length_cons]
    omega

/-- With fuel for every pending task the passes end in a fixpoint. -/
theorem propagateLoop_spec (fuel : ℕ) (rec : Recorder spec)
    (hfuel : (pendingTasks rec).length < fuel) :
    ∃ moves, runs (moveStep host ex) rec moves=some (propagateLoop host ex fuel rec) ∧
      (∀ m∈moves, m.propagates=true) ∧ ∀ t, Stuck (propagateLoop host ex fuel rec) t := by
  induction fuel generalizing rec with
  | zero => omega
  | succ fuel ih =>
    obtain ⟨moves,hruns,hall,hflag,hstuck⟩ :=
      propagateVisits_spec host ex spec.ids (rec,false)
    rw [propagateLoop]
    cases moves with
    | nil =>
      have hsame : (propagatePass host ex rec).1=rec := (Option.some.inj hruns).symm
      rw [if_neg (by simp [propagatePass,hflag]),hsame]
      exact ⟨[],rfl,by simp,fun t => hstuck rfl t (spec.mem_ids t)⟩
    | cons m moves =>
      rw [if_pos (by simp [propagatePass,hflag])]
      have hle := pendingTasks_of_moves hruns hall
      simp only [List.length_cons] at hle
      obtain ⟨more,hmore,hallm,hfix⟩ := ih (propagatePass host ex rec).1 (by
        simp only [propagatePass]
        omega)
      refine ⟨m::moves++more,runs_append_iff.mpr ⟨_,hruns,hmore⟩,fun m' hm' => ?_,hfix⟩
      exact (List.mem_append.mp hm').elim (hall m') (hallm m')

/-- `propagate` is a run of propagation moves that ends in a fixpoint. -/
theorem propagate_spec (host : Host) (ex : WorkflowExecutor) (rec : Recorder spec) :
    ∃ moves, runs (moveStep host ex) rec moves=some (propagate host ex rec) ∧
      (∀ m∈moves, m.propagates=true) ∧ ∀ t, Stuck (propagate host ex rec) t := by
  refine propagateLoop_spec (spec.len+1) rec ?_
  have hle := List.length_filter_le (fun t => decide (rec.stateOf t=.pending)) spec.ids
  rw [spec.length_ids] at hle
  exact Nat.lt_succ_of_le hle

/-- Moves that neither start nor settle a body keep the running tasks. -/
theorem running_of_moves {rec rec' : Recorder spec} {moves : List (Move spec)}
    (h : runs (moveStep host ex) rec moves=some rec')
    (hm : ∀ m∈moves, m.propagates=true ∨ m.cancels=true) (t : spec.Task) :
    rec'.stateOf t=.running ↔ rec.stateOf t=.running := by
  induction moves generalizing rec with
  | nil =>
    cases h
    rfl
  | cons m moves ih =>
    obtain ⟨mid,hstep,hrest⟩ := runs_cons_iff.mp h
    rw [ih hrest fun m' hm' => hm m' (List.mem_cons_of_mem m hm')]
    obtain ⟨entry,hcase,rfl⟩ := moveStep_cases hstep
    rw [enter_stateOf]
    split
    · rename_i ht
      subst ht
      have hkind := hm m List.mem_cons_self
      cases hcase with
      | ready t pending => simp [Move.task,pending]
      | skip t bad pending => simp [Move.task,pending]
      | start t | settle t => simp [Move.propagates,Move.cancels] at hkind
      | cancel t message certainty reason =>
        rcases cancelReason_cases reason with ⟨hs|hs,-⟩|⟨hs,-⟩ <;> simp [Move.task,hs]
    · rfl

end AegisRuntime.WorkflowPasses
