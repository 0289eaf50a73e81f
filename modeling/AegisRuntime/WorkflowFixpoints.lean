import AegisRuntime.WorkflowPasses
import Mathlib.Logic.Relation

/-!
# What `propagate` computes

The loop of `propagate` ends by itself: every changed pass uses up a pending
task, and the last pass changes nothing. From any states of the tasks it skips
exactly the pending tasks that a chain of pending predecessors connects to a task
that ended without success, unblocks exactly those whose predecessors have all
completed, and leaves every other task alone. The states it ends with are a
fixpoint.
-/

namespace AegisRuntime.WorkflowFixpoints

open LabelledRuns FailureRecords WorkflowGraph WorkflowLedger
open WorkflowCoordinator WorkflowMoves WorkflowPasses

variable {spec : WorkflowSpec} {host : Host} {ex : WorkflowExecutor}

/-- The loop of `propagate` as it is written, without fuel: some passes that
change something, then one that does not. -/
inductive PassesEnd (host : Host) (ex : WorkflowExecutor) :
    ℕ → Recorder spec → Recorder spec → Prop where
  /-- Nothing changed, so the loop is left. -/
  | quiet {rec : Recorder spec} (flag : (propagatePass host ex rec).2=false) :
    PassesEnd host ex 0 rec (propagatePass host ex rec).1
  /-- Something changed, so there is another pass. -/
  | changed {n : ℕ} {rec out : Recorder spec} (flag : (propagatePass host ex rec).2=true)
    (rest : PassesEnd host ex n (propagatePass host ex rec).1 out) : PassesEnd host ex (n+1) rec out

/-- A pass that changed something has used up a pending task. -/
theorem pendingTasks_pass_lt {rec : Recorder spec} (h : (propagatePass host ex rec).2=true) :
    (pendingTasks (propagatePass host ex rec).1).length < (pendingTasks rec).length := by
  obtain ⟨moves,hruns,hall,hflag,-⟩ := propagateVisits_spec host ex spec.ids (rec,false)
  rw [←propagatePass] at hruns hflag
  rw [h] at hflag
  have hle := pendingTasks_of_moves hruns hall
  have hpos : 0 < moves.length := by
    rw [List.length_pos_iff]
    rintro rfl
    simp at hflag
  dsimp only at hle
  omega

/-- With fuel for every pending task the bounded loop is the unbounded one. -/
theorem propagateLoop_ends (fuel : ℕ) (rec : Recorder spec)
    (hfuel : (pendingTasks rec).length < fuel) :
    ∃ n≤(pendingTasks rec).length, PassesEnd host ex n rec (propagateLoop host ex fuel rec) := by
  induction fuel generalizing rec with
  | zero => omega
  | succ fuel ih =>
    rw [propagateLoop]
    cases h : (propagatePass host ex rec).2 with
    | false => exact ⟨0,Nat.zero_le _,PassesEnd.quiet h⟩
    | true =>
      have hlt := pendingTasks_pass_lt h
      obtain ⟨n,hn,hends⟩ := ih (propagatePass host ex rec).1 (by omega)
      exact ⟨n+1,by omega,PassesEnd.changed h hends⟩

theorem propagate_ends (host : Host) (ex : WorkflowExecutor) (rec : Recorder spec) :
    ∃ n≤(pendingTasks rec).length, PassesEnd host ex n rec (propagate host ex rec) := by
  refine propagateLoop_ends (spec.len+1) rec ?_
  have hle := List.length_filter_le (fun t => decide (rec.stateOf t=.pending)) spec.ids
  rw [spec.length_ids] at hle
  exact Nat.lt_succ_of_le hle

/-- Where every task is stuck no propagation move is enabled. -/
theorem stuck_no_move {rec rec' : Recorder spec} (hstuck : ∀ t, Stuck rec t) {m : Move spec}
    (hm : m.propagates=true) (h : moveStep host ex rec m=some rec') : False := by
  obtain ⟨entry,hcase,-⟩ := moveStep_cases h
  cases hcase with
  | ready t pending deps => exact (hstuck t pending).2 deps
  | skip t bad pending mem ended =>
    have hgood := (hstuck t pending).1 bad mem
    rw [ended] at hgood
    cases hgood
  | start | settle | cancel => cases hm

/-- Visits change nothing where every task is stuck. -/
theorem propagateVisits_stuck {rec : Recorder spec} (hstuck : ∀ t, Stuck rec t) (flag : Bool)
    (ts : List spec.Task) : ts.foldl (propagateVisit host ex) (rec,flag)=(rec,flag) := by
  induction ts with
  | nil => rfl
  | cons t ts ih =>
    rw [List.foldl_cons]
    rcases propagateVisit_cases host ex (rec,flag) t with ⟨-,hsame⟩|⟨m,hm,-,hstep,-⟩
    · rw [hsame]
      exact ih
    · exact absurd hstep fun h => stuck_no_move hstuck hm h

/-- Neither does the whole loop. -/
theorem propagate_stuck {rec : Recorder spec} (hstuck : ∀ t, Stuck rec t) :
    propagate host ex rec=rec := by
  have hpass : propagatePass host ex rec=(rec,false) := propagateVisits_stuck hstuck false spec.ids
  rw [propagate,propagateLoop,hpass]
  rfl

/-- One declared predecessor, pending on entry, further back. -/
def PendingPredecessor (rec : Recorder spec) (t d : spec.Task) : Prop :=
  d∈spec.deps t ∧ rec.stateOf d=.pending

/-- A chain of predecessors, pending on entry, leads from the task to one that has
ended without success. -/
def BlockedForGood (rec : Recorder spec) (t : spec.Task) : Prop :=
  ∃ u, Relation.ReflTransGen (PendingPredecessor rec) t u ∧
    ∃ d∈spec.deps u, endedBadly (rec.stateOf d)=true

/-- A blocked pending predecessor blocks the task. -/
theorem BlockedForGood.cons {rec : Recorder spec} {t d : spec.Task} (h : BlockedForGood rec d)
    (hd : d∈spec.deps t) (hpending : rec.stateOf d=.pending) : BlockedForGood rec t := by
  obtain ⟨u,hchain,hend⟩ := h
  exact ⟨u,Relation.ReflTransGen.head ⟨hd,hpending⟩ hchain,hend⟩

/-- What propagation moves have done to a task so far. -/
inductive Fate (before now : Recorder spec) (t : spec.Task) : Prop where
  /-- Nothing, in its state, its result and its failure record. -/
  | kept (state : now.stateOf t=before.stateOf t) (result : now.ledger.results t=before.ledger.results t)
    (failure : now.ledger.failures t=before.ledger.failures t)
  /-- It was pending with every predecessor completed, and became ready. -/
  | readied (pending : before.stateOf t=.pending) (deps : ∀ d∈spec.deps t, before.stateOf d=.completed)
    (state : now.stateOf t=.ready)
  /-- It was pending behind a task that ended without success, and was skipped. -/
  | skipped (pending : before.stateOf t=.pending) (blocked : BlockedForGood before t)
    (prerequisite : TaskId) (state : now.stateOf t=.skipped prerequisite)

/-- A task that is pending now was not touched. -/
theorem Fate.pending_before {before now : Recorder spec} {t : spec.Task} (h : Fate before now t)
    (ht : now.stateOf t=.pending) : before.stateOf t=.pending := by
  cases h with
  | kept state => rw [←state,ht]
  | readied pending => exact pending
  | skipped pending => exact pending

/-- A task that is completed now was completed on entry. -/
theorem Fate.completed_before {before now : Recorder spec} {t : spec.Task} (h : Fate before now t)
    (ht : now.stateOf t=.completed) : before.stateOf t=.completed := by
  cases h with
  | kept state => rw [←state,ht]
  | readied _ _ state => rw [ht] at state; cases state
  | skipped _ _ _ state => rw [ht] at state; cases state

/-- A task that has ended without success blocks its dependents for good. -/
theorem Fate.blocks {before now : Recorder spec} {t bad : spec.Task} (h : Fate before now bad)
    (hdep : bad∈spec.deps t) (hbad : endedBadly (now.stateOf bad)=true) : BlockedForGood before t := by
  cases h with
  | kept state =>
    rw [state] at hbad
    exact ⟨t,Relation.ReflTransGen.refl,bad,hdep,hbad⟩
  | readied _ _ state => rw [state] at hbad; cases hbad
  | skipped pending blocked => exact blocked.cons hdep pending

/-- One propagation move keeps the fates. -/
theorem fates_move {before now rec' : Recorder spec} (h : ∀ t, Fate before now t) {m : Move spec}
    (hm : m.propagates=true) (hstep : moveStep host ex now m=some rec') (u : spec.Task) :
    Fate before rec' u := by
  obtain ⟨entry,hcase,rfl⟩ := moveStep_cases hstep
  by_cases hu : u=m.task
  · subst hu
    cases hcase with
    | ready t pending deps =>
      refine Fate.readied ((h t).pending_before pending) (fun d hd => ?_) (by simp [Move.task])
      exact (h d).completed_before (deps d hd)
    | skip t bad pending mem ended =>
      exact Fate.skipped ((h t).pending_before pending) ((h bad).blocks mem ended) bad.1
        (by simp [Move.task])
    | start | settle | cancel => cases hm
  · -- the moved task is another one
    have hstate : (enter host now m.task entry).stateOf u=now.stateOf u := by simp [hu]
    cases h u with
    | kept state result failure =>
      exact Fate.kept (hstate.trans state) (by simpa [hu] using result) (by simpa [hu] using failure)
    | readied pending deps state => exact Fate.readied pending deps (hstate.trans state)
    | skipped pending blocked p state => exact Fate.skipped pending blocked p (hstate.trans state)

theorem fates_of_moves {before now : Recorder spec} {moves : List (Move spec)}
    (h : runs (moveStep host ex) before moves=some now) (hm : ∀ m∈moves, m.propagates=true)
    (t : spec.Task) : Fate before now t := by
  refine guarded_invariant (I:=fun now => ∀ t, Fate before now t)
    (G:=fun _ m => m.propagates=true) (fun _ => Fate.kept rfl rfl rfl)
    (fun _ _ _ hfates hm hstep => fates_move hfates hm hstep) ?_ h t
  rintro earlier m later _ rfl -
  exact hm m (List.mem_append_right _ List.mem_cons_self)

/-- What the whole of `propagate` does to a task. -/
theorem propagate_fate (host : Host) (ex : WorkflowExecutor) (rec : Recorder spec) (t : spec.Task) :
    Fate rec (propagate host ex rec) t := by
  obtain ⟨moves,hruns,hall,-⟩ := propagate_spec host ex rec
  exact fates_of_moves hruns hall t

theorem propagate_all_stuck (host : Host) (ex : WorkflowExecutor) (rec : Recorder spec)
    (t : spec.Task) : Stuck (propagate host ex rec) t :=
  (propagate_spec host ex rec).choose_spec.2.2 t

/-- A pending task with a predecessor that has ended without success is skipped. -/
theorem skipped_of_ended_dep {rec : Recorder spec} {t d : spec.Task} (ht : rec.stateOf t=.pending)
    (hd : d∈spec.deps t) (hbad : endedBadly ((propagate host ex rec).stateOf d)=true) :
    ∃ p, (propagate host ex rec).stateOf t=.skipped p := by
  cases propagate_fate host ex rec t with
  | kept state =>
    have hgood := (propagate_all_stuck host ex rec t (state.trans ht)).1 d hd
    rw [hbad] at hgood
    cases hgood
  | readied pending deps =>
    -- the predecessor was completed on entry, so it cannot have ended badly since
    have hdone := deps d hd
    cases propagate_fate host ex rec d with
    | kept state =>
      rw [state,hdone] at hbad
      cases hbad
    | readied pending => rw [hdone] at pending; cases pending
    | skipped pending => rw [hdone] at pending; cases pending
  | skipped _ _ p state => exact ⟨p,state⟩

/-- Induction along the chain, from the task that has ended to the one it blocks. -/
theorem skipped_of_blocked {rec : Recorder spec} {t : spec.Task} (ht : rec.stateOf t=.pending)
    (h : BlockedForGood rec t) : ∃ p, (propagate host ex rec).stateOf t=.skipped p := by
  obtain ⟨u,hchain,d,hd,hbad⟩ := h
  induction hchain using Relation.ReflTransGen.head_induction_on with
  | refl =>
    refine skipped_of_ended_dep ht hd ?_
    cases propagate_fate host ex rec d with
    | kept state => rwa [state]
    | readied pending => rw [pending] at hbad; cases hbad
    | skipped pending => rw [pending] at hbad; cases hbad
  | head hstep _ ih =>
    obtain ⟨p,hp⟩ := ih hstep.2
    exact skipped_of_ended_dep ht hstep.1 (by rw [hp]; rfl)

/-- `propagate` ends by itself, in a fixpoint, after skipping exactly the pending
tasks that are blocked for good and touching pending tasks only. -/
theorem propagate_fixpoint (host : Host) (ex : WorkflowExecutor) (rec : Recorder spec) :
    (∃ n≤(pendingTasks rec).length, PassesEnd host ex n rec (propagate host ex rec)) ∧
    (∀ t, rec.stateOf t≠.pending → (propagate host ex rec).stateOf t=rec.stateOf t ∧
      (propagate host ex rec).ledger.results t=rec.ledger.results t ∧
      (propagate host ex rec).ledger.failures t=rec.ledger.failures t) ∧
    (∀ t, (propagate host ex rec).stateOf t=.pending →
      (∀ d∈spec.deps t, endedBadly ((propagate host ex rec).stateOf d)=false) ∧
      ¬∀ d∈spec.deps t, (propagate host ex rec).stateOf d=.completed) ∧
    (∀ t, rec.stateOf t=.pending →
      ((∃ p, (propagate host ex rec).stateOf t=.skipped p) ↔ BlockedForGood rec t)) ∧
    propagate host ex (propagate host ex rec)=propagate host ex rec := by
  refine ⟨propagate_ends host ex rec,fun t ht => ?_,propagate_all_stuck host ex rec,fun t ht => ⟨?_,
    skipped_of_blocked ht⟩,propagate_stuck (propagate_all_stuck host ex rec)⟩
  · cases propagate_fate host ex rec t with
    | kept state result failure => exact ⟨state,result,failure⟩
    | readied pending => exact absurd pending ht
    | skipped pending => exact absurd pending ht
  · rintro ⟨p,hp⟩
    cases propagate_fate host ex rec t with
    | kept state => rw [state,ht] at hp; cases hp
    | readied _ _ state => rw [state] at hp; cases hp
    | skipped _ blocked => exact blocked

end AegisRuntime.WorkflowFixpoints
