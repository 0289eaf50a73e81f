import AegisRuntime.WorkflowMoves

/-!
# What the moves of a run say about its ledger

Along every run of the lifecycle machine the ledger stays in agreement, every
task that ended or waits can be traced to the move that made it so, and a
settled body leaves its mark for good. Tasks that ended keep their state and
record, and only a start logs a running event.
-/

namespace AegisRuntime.WorkflowHistory

open LabelledRuns PrecedenceGraphs KeyedLogs FailureRecords WorkflowGraph WorkflowLedger
open WorkflowCoordinator WorkflowMoves

variable {spec : WorkflowSpec} {host : Host} {ex : WorkflowExecutor}

/-- The failure record of a task carries the given certainty. -/
def RecordedAs (rec : Recorder spec) (t : spec.Task) (c : EffectCertainty) : Prop :=
  ∃ f, rec.ledger.failures t=some f ∧ f.effectCertainty=c

/-- How a task that ended or waits came to its state. -/
inductive Origin (moves : List (Move spec)) (rec : Recorder spec) (t : spec.Task) : Prop where
  /-- Its body ended and was settled. -/
  | settled (e : BodyEnd) (mem : Move.settle t e∈moves) (kind : (rec.stateOf t).kind=endKind e)
    (certainty : ∀ f, rec.ledger.failures t=some f → endCertainty t e=some f.effectCertainty)
  /-- A predecessor ended without success before the task could start. -/
  | skipped (bad : spec.Task) (mem : bad∈spec.deps t) (ended : endedBadly (rec.stateOf bad)=true)
    (state : rec.stateOf t=.skipped bad.1) (idle : "running"∉trailOf t rec.ledger.events)
    (record : ∃ f, rec.ledger.failures t=some f ∧ f.cls=.rejected ∧ f.effectCertainty=.noEffect)
  /-- It was cancelled before it could start. -/
  | unstarted (mem : Move.cancel t∈moves) (state : rec.stateOf t=.cancelled)
    (idle : "running"∉trailOf t rec.ledger.events) (record : RecordedAs rec t .noEffect)
  /-- It was cancelled while it waited for a human. -/
  | waiting (mem : Move.cancel t∈moves) (reported : Move.settle t approvalPending∈moves)
    (state : rec.stateOf t=.cancelled) (record : RecordedAs rec t (interruptOf t))

/-- What the moves of a run say about its ledger. -/
structure MoveHistory (moves : List (Move spec)) (rec : Recorder spec) : Prop where
  /-- A settled body leaves its mark: only a wait for approval can still end. -/
  settled : ∀ t e, Move.settle t e∈moves → (rec.stateOf t).kind=endKind e ∨
    e=approvalPending ∧ rec.stateOf t=.cancelled
  /-- A settled failure stays recorded with its certainty. -/
  recorded : ∀ t e c, Move.settle t e∈moves → endCertainty t e=some c → RecordedAs rec t c
  /-- A settled body had started. -/
  started : ∀ t e, Move.settle t e∈moves → "running"∈trailOf t rec.ledger.events
  /-- A settled body had only completed predecessors. -/
  deps : ∀ t e, Move.settle t e∈moves → ∀ d∈spec.deps t, rec.stateOf d=.completed
  /-- Every task that ended or waits has an origin. -/
  origin : ∀ t, 3 ≤ rank (rec.stateOf t).kind → Origin moves rec t

/-- A task that has not started has no running event. -/
theorem idle_of_rank {rec : Recorder spec} (h : LedgerInv rec) {t : spec.Task}
    (ht : rank (rec.stateOf t).kind<2) : "running"∉trailOf t rec.ledger.events := by
  obtain ⟨kinds,htrail,walk⟩ := h.walks t
  rw [htrail,List.mem_map]
  rintro ⟨k,hk,hname⟩
  rw [StateKind.name_injective (hname.trans (show "running"=StateKind.name .running from rfl))] at hk
  have hle := ((walk.rank_bounds rank Lifecycle.rank_lt).2 _ hk).2
  exact absurd (hle.trans_lt ht) (by decide)

/-- A running task has a running event. -/
theorem running_mem_trail {rec : Recorder spec} (h : LedgerInv rec) {t : spec.Task}
    (ht : rec.stateOf t=.running) : "running"∈trailOf t rec.ledger.events := by
  obtain ⟨kinds,htrail,walk⟩ := h.walks t
  rw [ht] at walk
  rw [htrail]
  exact List.mem_map_of_mem (f:=StateKind.name) (walk.mem_of_ne_start (by decide))

/-- A move of one task leaves the origin of another alone. -/
theorem Origin.frame {moves : List (Move spec)} {rec : Recorder spec} {u : spec.Task}
    (h : Origin moves rec u) (m : Move spec) {entry : Entry} (ha : Admissible rec m.task entry)
    (hu : u≠m.task) : Origin (moves++[m]) (enter host rec m.task entry) u := by
  have hstate : (enter host rec m.task entry).stateOf u=rec.stateOf u := by
    rw [enter_stateOf,if_neg hu]
  have hfail : (enter host rec m.task entry).ledger.failures u=rec.ledger.failures u := by
    rw [enter_failures,if_neg fun hc => hu hc.1]
  have htrail : trailOf u (enter host rec m.task entry).ledger.events=trailOf u rec.ledger.events := by
    rw [enter_events,trailOf_concat_other hu]
  cases h with
  | settled e mem kind certainty =>
    refine Origin.settled e (List.mem_append_left _ mem) (by rw [hstate,kind]) ?_
    rw [hfail]
    exact certainty
  | skipped bad mem ended state idle record =>
    have hbad : bad≠m.task := by
      rintro rfl
      rw [ha.edge.leaves.1] at ended
      cases ended
    refine Origin.skipped bad mem ?_ (by rw [hstate,state]) (by rwa [htrail]) (by rwa [hfail])
    rw [enter_stateOf,if_neg hbad]
    exact ended
  | unstarted mem state idle record =>
    refine Origin.unstarted (List.mem_append_left _ mem) (by rw [hstate,state]) (by rwa [htrail]) ?_
    rwa [RecordedAs,hfail]
  | waiting mem reported state record =>
    refine Origin.waiting (List.mem_append_left _ mem) (List.mem_append_left _ reported)
      (by rw [hstate,state]) ?_
    rwa [RecordedAs,hfail]

/-- A task that has not ended and does not wait was never settled. -/
theorem MoveHistory.unsettled {moves : List (Move spec)} {rec : Recorder spec}
    (h : MoveHistory moves rec) {t : spec.Task} (ht : rank (rec.stateOf t).kind<3) (e : BodyEnd) :
    Move.settle t e∉moves := by
  intro hmem
  rcases h.settled t e hmem with hk|⟨-,hs⟩
  · rw [hk] at ht
    exact absurd (three_le_rank_endKind e) (by omega)
  · rw [hs] at ht
    exact absurd ht (by decide)

/-- The origin of the task an enabled move is about, after that move. -/
theorem origin_of_move {moves : List (Move spec)} {rec : Recorder spec} (hl : LedgerInv rec)
    (h : MoveHistory moves rec) {m : Move spec} {entry : Entry} (hcase : MoveCase host ex rec m entry)
    (hrank : 3 ≤ rank ((enter host rec m.task entry).stateOf m.task).kind) :
    Origin (moves++[m]) (enter host rec m.task entry) m.task := by
  have hlast : m∈moves++[m] := List.mem_append_right _ List.mem_cons_self
  cases hcase with
  | ready t pending deps => simp [Move.task,TaskState.kind,rank] at hrank
  | start t ready => simp [Move.task,TaskState.kind,rank] at hrank
  | skip t bad pending mem ended =>
    have hidle := idle_of_rank hl (t:=t) (by rw [pending]; decide)
    refine Origin.skipped bad mem ?_ (by simp [Move.task]) ?_ ?_
    · rw [enter_stateOf]
      split
      · rfl
      · exact ended
    · rw [enter_events]
      simp only [Move.task]
      rw [trailOf_concat_self,List.mem_append]
      simpa [TaskState.name] using hidle
    · exact ⟨failure host ex rec t .rejected .noEffect ("prerequisite failed: "++bad.1.asStr),
        by simp [Move.task],(failure_fields ..).2.2.1,(failure_fields ..).2.2.2⟩
  | settle t e running =>
    have hnone : rec.ledger.failures t=none := by
      cases hf : rec.ledger.failures t with
      | none => rfl
      | some f =>
        have hbad := (hl.failures t).mp (by rw [hf]; rfl)
        rw [running] at hbad
        cases hbad
    refine Origin.settled e hlast ?_ ?_
    · simp only [Move.task,enter_stateOf,if_pos]
      exact settleEntry_kind host ex rec t e
    · intro f hf
      refine (settleEntry_certainty host ex rec t e).symm.trans ?_
      simp only [Move.task,enter_failures,true_and,hnone] at hf
      split at hf
      · rw [hf]
        rfl
      · cases hf
  | cancel t message certainty reason =>
    have hrec : RecordedAs (enter host rec (Move.cancel t).task ⟨.cancelled,some (failure host ex rec t
        .cancelled certainty message),none⟩) t certainty :=
      ⟨failure host ex rec t .cancelled certainty message,by simp [Move.task],
        (failure_fields ..).2.2.2⟩
    rcases cancelReason_cases reason with ⟨hs,rfl⟩|⟨hs,rfl⟩
    · have hidle := idle_of_rank hl (t:=t) (by rcases hs with hs|hs <;> rw [hs] <;> decide)
      refine Origin.unstarted hlast (by simp [Move.task]) ?_ hrec
      rw [enter_events]
      simp only [Move.task]
      rw [trailOf_concat_self,List.mem_append]
      simpa [TaskState.name] using hidle
    · have hw : Move.settle t approvalPending∈moves := by
        cases h.origin t (by rw [hs]; decide) with
        | settled e mem kind certainty =>
          rw [hs] at kind
          rwa [endKind_eq_waiting_iff.mp kind.symm] at mem
        | skipped bad mem ended state => rw [hs] at state; cases state
        | unstarted mem state => rw [hs] at state; cases state
        | waiting mem reported state => rw [hs] at state; cases state
      exact Origin.waiting hlast (List.mem_append_left _ hw) (by simp [Move.task]) hrec

/-- One move keeps the history. -/
theorem MoveHistory.move {moves : List (Move spec)} {rec rec' : Recorder spec} (hl : LedgerInv rec)
    (h : MoveHistory moves rec) {m : Move spec} (hstep : moveStep host ex rec m=some rec') :
    MoveHistory (moves++[m]) rec' := by
  obtain ⟨entry,hcase,rfl⟩ := moveStep_cases hstep
  have ha := hcase.admissible
  refine ⟨?_,?_,?_,?_,?_⟩
  · intro t e hmem
    rcases List.mem_append.mp hmem with hold|hnew
    · by_cases ht : t=m.task
      · -- an old settlement of the moved task can only be a wait that is now cancelled
        rcases h.settled t e hold with hk|⟨rfl,hs⟩
        · have hleaves := ha.edge.leaves
          subst ht
          cases hcase with
          | ready t pending => exact absurd hold (h.unsettled (by simp [Move.task,pending,TaskState.kind,rank]) e)
          | skip t bad pending => exact absurd hold (h.unsettled (by simp [Move.task,pending,TaskState.kind,rank]) e)
          | start t ready => exact absurd hold (h.unsettled (by simp [Move.task,ready,TaskState.kind,rank]) e)
          | settle t e' running => exact absurd hold (h.unsettled (by simp [Move.task,running,TaskState.kind,rank]) e)
          | cancel t message certainty reason =>
            rcases cancelReason_cases reason with ⟨hs|hs,-⟩|⟨hs,-⟩
            · exact absurd hold (h.unsettled (by simp [Move.task,hs,TaskState.kind,rank]) e)
            · exact absurd hold (h.unsettled (by simp [Move.task,hs,TaskState.kind,rank]) e)
            · simp only [Move.task,hs] at hk
              exact Or.inr ⟨endKind_eq_waiting_iff.mp hk.symm,by simp [Move.task]⟩
        · subst ht
          have hedge := ha.edge
          rw [hs] at hedge
          cases hedge
      · rw [enter_stateOf,if_neg ht]
        exact h.settled t e hold
    · rw [List.mem_singleton] at hnew
      subst hnew
      cases hcase
      refine Or.inl ?_
      simp only [Move.task,enter_stateOf,if_pos]
      exact settleEntry_kind host ex rec t e
  · intro t e c hmem hc
    rcases List.mem_append.mp hmem with hold|hnew
    · obtain ⟨f,hf,hcert⟩ := h.recorded t e c hold hc
      refine ⟨f,?_,hcert⟩
      rw [enter_failures,if_neg,hf]
      rintro ⟨rfl,-⟩
      have hbad := (hl.failures _).mp (by rw [hf]; rfl)
      rw [ha.edge.leaves.1] at hbad
      cases hbad
    · rw [List.mem_singleton] at hnew
      subst hnew
      cases hcase
      rw [←settleEntry_certainty host ex rec t e] at hc
      obtain ⟨f,hf,hcert⟩ := Option.map_eq_some_iff.mp hc
      exact ⟨f,by simp [Move.task,hf],hcert⟩
  · intro t e hmem
    have hstart : "running"∈trailOf t rec.ledger.events := by
      rcases List.mem_append.mp hmem with hold|hnew
      · exact h.started t e hold
      · rw [List.mem_singleton] at hnew
        subst hnew
        cases hcase with
        | settle t e running => exact running_mem_trail hl running
    obtain ⟨event,hevent,hrest⟩ := mem_trail.mp hstart
    exact mem_trail.mpr ⟨event,by rw [enter_events]; exact List.mem_append_left _ hevent,hrest⟩
  · intro t e hmem d hd
    have hdone : rec.stateOf d=.completed := by
      rcases List.mem_append.mp hmem with hold|hnew
      · exact h.deps t e hold d hd
      · rw [List.mem_singleton] at hnew
        subst hnew
        cases hcase with
        | settle t e running => exact hl.deps t (by rw [running]; rfl) d hd
    rw [enter_stateOf,if_neg,hdone]
    rintro rfl
    exact ha.edge.leaves.2.1 hdone
  · intro t hrank
    by_cases ht : t=m.task
    · subst ht
      exact origin_of_move hl h hcase hrank
    · rw [enter_stateOf,if_neg ht] at hrank
      exact (h.origin t hrank).frame m ha ht

/-- Ledger and history along every run of moves. -/
theorem history_of_moves {hasBus : Bool} {runId sessionId : String} {moves : List (Move spec)}
    {rec : Recorder spec}
    (h : runs (moveStep host ex) (Recorder.start spec hasBus runId sessionId) moves=some rec) :
    LedgerInv rec ∧ MoveHistory moves rec := by
  refine history_invariant (I:=fun moves rec => LedgerInv rec ∧ MoveHistory moves rec) ?_ ?_ h
  · refine ⟨LedgerInv.start spec hasBus runId sessionId,by simp,by simp,by simp,by simp,fun t ht => ?_⟩
    simp [Recorder.start,Recorder.stateOf,TaskState.kind,rank] at ht
  · rintro moves rec m rec' - ⟨hl,hh⟩ hstep
    exact ⟨hl.move hstep,hh.move hl hstep⟩

/-- No move attaches or detaches a bus. -/
theorem bus_of_moves {rec rec' : Recorder spec} {moves : List (Move spec)}
    (h : runs (moveStep host ex) rec moves=some rec') : rec'.bus.isSome=rec.bus.isSome := by
  refine run_invariant (I:=fun r => r.bus.isSome=rec.bus.isSome) rfl ?_ h
  intro r m r' hr hstep
  obtain ⟨entry,hcase,rfl⟩ := moveStep_cases hstep
  obtain ⟨env,hbus,-⟩ := enter_bus host r m.task entry hcase.admissible.not_pending
  rw [hbus,Option.isSome_map,hr]

/-- What ended stays: state and record of a terminal task never change. -/
theorem terminal_stable {rec rec' : Recorder spec} {moves : List (Move spec)}
    (h : runs (moveStep host ex) rec moves=some rec') {t : spec.Task}
    (ht : (rec.stateOf t).isTerminal=true) :
    rec'.stateOf t=rec.stateOf t ∧ rec'.ledger.failures t=rec.ledger.failures t := by
  refine run_invariant (I:=fun r => r.stateOf t=rec.stateOf t ∧
    r.ledger.failures t=rec.ledger.failures t) ⟨rfl,rfl⟩ ?_ h
  rintro r m r' ⟨hs,hf⟩ hstep
  obtain ⟨entry,hcase,rfl⟩ := moveStep_cases hstep
  have hne : t≠m.task := by
    rintro rfl
    have hopen := hcase.admissible.edge.leaves.2.2
    rw [hs,ht] at hopen
    cases hopen
  rw [enter_stateOf,if_neg hne,enter_failures,if_neg fun hc => hne hc.1]
  exact ⟨hs,hf⟩

/-- Without propagation moves no further task is skipped. -/
theorem skipped_of_moves {rec rec' : Recorder spec} {moves : List (Move spec)}
    (h : runs (moveStep host ex) rec moves=some rec') (hm : ∀ m∈moves, m.propagates=false)
    {t : spec.Task} (ht : (rec'.stateOf t).kind=.skipped) : rec.stateOf t=rec'.stateOf t := by
  induction moves generalizing rec with
  | nil =>
    cases h
    rfl
  | cons m moves ih =>
    obtain ⟨mid,hstep,hrest⟩ := runs_cons_iff.mp h
    have hmid := ih hrest fun m' hm' => hm m' (List.mem_cons_of_mem m hm')
    obtain ⟨entry,hcase,rfl⟩ := moveStep_cases hstep
    have hkind := hm m List.mem_cons_self
    rw [enter_stateOf] at hmid
    split at hmid
    · -- the task itself was moved, but only a skip enters the skipped state
      rw [←hmid] at ht
      cases hcase with
      | ready | skip => cases hkind
      | settle t' e running =>
        rw [settleEntry_kind] at ht
        rcases e with ((_|_|_|_)|_|_)|_ <;> cases ht
      | start | cancel => cases ht
    · exact hmid

/-- Moves other than starts log no running event. -/
theorem events_of_moves {rec rec' : Recorder spec} {moves : List (Move spec)}
    (h : runs (moveStep host ex) rec moves=some rec') :
    ∃ new, rec'.ledger.events=rec.ledger.events++new ∧
      ((∀ m∈moves, m.starts=false) → ∀ e∈new, e.state≠"running") := by
  refine history_invariant (I:=fun moves r => ∃ new, r.ledger.events=rec.ledger.events++new ∧
    ((∀ m∈moves, m.starts=false) → ∀ e∈new, e.state≠"running")) ⟨[],by simp,by simp⟩ ?_ h
  rintro moves r m r' - ⟨new,hnew,hquiet⟩ hstep
  obtain ⟨entry,hcase,rfl⟩ := moveStep_cases hstep
  refine ⟨new++[⟨r.ledger.seq+1,some m.task.1,entry.state.name⟩],?_,fun hall e he => ?_⟩
  · rw [enter_events,hnew,List.append_assoc]
  · rcases List.mem_append.mp he with he|he
    · exact hquiet (fun m hm => hall m (List.mem_append_left _ hm)) e he
    · rw [List.mem_singleton.mp he]
      have hm := hall m (List.mem_append_right _ List.mem_cons_self)
      intro hname
      exact hcase.not_running hm
        (StateKind.name_injective ((TaskState.name_eq_kind_name _).symm.trans hname))

end AegisRuntime.WorkflowHistory
