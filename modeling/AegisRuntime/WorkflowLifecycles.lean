import AegisRuntime.WorkflowPermits

/-!
# The lifecycle of a task along a run

Up to every moment of a run the states a task has taken are a walk of the
lifecycle from pending to its state. A state that ends a task is never left, and
a wait for approval ends only once the coordinator has seen a cancel or the
deadline.
-/

namespace AegisRuntime.WorkflowLifecycles

open LabelledRuns KeyedLogs WorkflowGraph WorkflowLedger WorkflowCoordinator
open WorkflowMoves WorkflowHistory WorkflowRuns WorkflowTraces WorkflowPermits

variable {spec : WorkflowSpec} {host : Host} {ex : WorkflowExecutor}

/-- The states contain a cancelled wait for approval. -/
def CancelsWait (kinds : List StateKind) : Prop := [.waitingForApproval,.cancelled] <:+: kinds

/-- The states a task has taken, with the move that cancelled its wait. -/
structure Taken (moves : List (Move spec)) (rec : Recorder spec) (t : spec.Task)
    (kinds : List StateKind) : Prop where
  /-- They are the ones the log names. -/
  logged : trailOf t rec.ledger.events=kinds.map StateKind.name
  /-- They are a walk of the lifecycle. -/
  walk : Walk Lifecycle .pending kinds (rec.stateOf t).kind
  /-- A wait for approval was cancelled by a move. -/
  waits : CancelsWait kinds → .cancel t∈moves

/-- One more state ends a wait only when the task waited. -/
theorem cancelsWait_concat {kinds : List StateKind} {x y : StateKind}
    (walk : Walk Lifecycle .pending kinds x) (h : CancelsWait (kinds++[y])) :
    CancelsWait kinds ∨ x=.waitingForApproval ∧ y=.cancelled := by
  rcases List.infix_concat_iff.mp h with hlast|hold
  · refine Or.inr ?_
    obtain ⟨before,hsplit⟩ := hlast
    have hconcat : (before++[StateKind.waitingForApproval])++[.cancelled]=kinds++[y] := by
      rw [List.append_assoc]
      exact hsplit
    obtain ⟨hkinds,hy⟩ := List.append_inj' hconcat rfl
    refine ⟨?_,(List.cons.inj hy).1.symm⟩
    rw [←walk.getLast,←hkinds,List.getLast?_concat,Option.getD_some]
  · exact Or.inl hold

/-- Only a cancel leaves the wait for approval. -/
theorem cancels_of_waiting {rec : Recorder spec} {m : Move spec} {entry : Entry}
    (h : MoveCase host ex rec m entry) (hwaits : (rec.stateOf m.task).kind=.waitingForApproval) :
    m=.cancel m.task := by
  cases h with
  | ready t pending | skip t bad pending => simp [Move.task,pending,TaskState.kind] at hwaits
  | start t ready => simp [Move.task,ready,TaskState.kind] at hwaits
  | settle t e running => simp [Move.task,running,TaskState.kind] at hwaits
  | cancel t message certainty reason => rfl

/-- A move extends the states of its task by one and leaves those of the others. -/
theorem Taken.move {moves : List (Move spec)} {rec rec' : Recorder spec} {t : spec.Task}
    {kinds : List StateKind} (h : Taken moves rec t kinds) {m : Move spec}
    (hstep : moveStep host ex rec m=some rec') : ∃ kinds', Taken (moves++[m]) rec' t kinds' := by
  obtain ⟨entry,hcase,rfl⟩ := moveStep_cases hstep
  by_cases ht : t=m.task
  · subst ht
    refine ⟨kinds++[entry.state.kind],?_,?_,fun hwait => ?_⟩
    · rw [enter_events,trailOf_concat_self,h.logged,TaskState.name_eq_kind_name,List.map_append]
      rfl
    · rw [enter_stateOf,if_pos rfl]
      exact h.walk.step hcase.admissible.edge
    · rcases cancelsWait_concat h.walk hwait with hold|⟨hwaits,-⟩
      · exact List.mem_append_left _ (h.waits hold)
      · rw [←cancels_of_waiting hcase hwaits]
        exact List.mem_append_right _ List.mem_cons_self
  · refine ⟨kinds,?_,?_,fun hwait => List.mem_append_left _ (h.waits hwait)⟩
    · rw [enter_events,trailOf_concat_other ht,h.logged]
    · rw [enter_stateOf,if_neg ht]
      exact h.walk

/-- Along every run of moves. -/
theorem taken_of_moves {hasBus : Bool} {runId sessionId : String} {moves : List (Move spec)}
    {rec : Recorder spec}
    (h : runs (moveStep host ex) (Recorder.start spec hasBus runId sessionId) moves=some rec)
    (t : spec.Task) : ∃ kinds, Taken moves rec t kinds := by
  refine history_invariant (I:=fun moves rec => ∃ kinds, Taken moves rec t kinds) ?_ ?_ h
  · exact ⟨[],rfl,Walk.here,fun hwait => absurd (List.infix_nil.mp hwait) (List.cons_ne_nil _ _)⟩
  · rintro moves rec m rec' - ⟨kinds,htaken⟩ hstep
    exact htaken.move hstep

/-- What a run does to the ledger is a run of moves. -/
theorem moves_of_run {s u : State spec} {acts : List (Action spec)} (hi : ExecInv host ex s)
    (h : runs (step host ex) s acts=some u) :
    ∃ moves, runs (moveStep host ex) s.recorder moves=some u.recorder := by
  have hboth : ExecInv host ex u ∧
      ∃ moves, runs (moveStep host ex) s.recorder moves=some u.recorder := by
    refine run_invariant (I:=fun v => ExecInv host ex v ∧
      ∃ moves, runs (moveStep host ex) s.recorder moves=some v.recorder) ⟨hi,[],rfl⟩ ?_ h
    rintro v a w ⟨hv,moves,hmoves⟩ hstep
    obtain ⟨more,hmore,-⟩ := step_moves hv hstep
    exact ⟨hv.step hstep,moves++more,runs_append_iff.mpr ⟨_,hmoves,hmore⟩⟩
  exact hboth.2

/-- The coordinator has seen a cancel or the deadline. -/
def Observed (m : Moment host ex spec) : Prop :=
  Passes (step host ex) (initial ex spec) m.actions fun s a => observes s a=true

/-- What the lifecycle asks of a task up to a moment. -/
structure KeepsLifecycle (m : Moment host ex spec) (t : spec.Task) : Prop where
  /-- The states taken are a walk of the lifecycle from pending to the state of the
  task; a wait for approval is cancelled only after an observation. -/
  path : ∃ kinds, trailOf t m.log=kinds.map StateKind.name ∧
    Walk Lifecycle .pending kinds (m.state.recorder.stateOf t).kind ∧
    (CancelsWait kinds → Observed m)
  /-- A terminal state taken before is the state still. -/
  terminal : ∀ before after s, m.actions=before++after →
    runs (step host ex) (initial ex spec) before=some s →
    (s.recorder.stateOf t).isTerminal=true →
    m.state.recorder.stateOf t=s.recorder.stateOf t

/-- Every task keeps to its lifecycle at every moment of a run, and the report of
a finished run tells the states taken and the last of them. -/
theorem lifecycle_kept (host : Host) (ex : WorkflowExecutor) (spec : WorkflowSpec) :
    (∀ (m : Moment host ex spec) (t : spec.Task), KeepsLifecycle m t) ∧
      ∀ (r : FinishedRun host ex spec) (t : spec.Task),
        trailOf t r.report.events=trailOf t (lastMoment r).log ∧
          r.report.snapshot.states t=(lastMoment r).state.recorder.stateOf t := by
  constructor
  · intro m t
    constructor
    · obtain ⟨moves,hexplains⟩ := explains_of_run m.reached
      obtain ⟨kinds,htaken⟩ := taken_of_moves hexplains.run t
      refine ⟨kinds,htaken.logged,htaken.walk,fun hwait => ?_⟩
      refine observed_of_cancelSeen m.reached ?_
      by_contra hunseen
      have hquiet := hexplains.cancels (Bool.not_eq_true _ ▸ hunseen) _ (htaken.waits hwait)
      cases hquiet
    · intro before after s hsplit hbefore hterminal
      have hreached := m.reached
      rw [hsplit] at hreached
      obtain ⟨s',hs',hafter⟩ := runs_append_iff.mp hreached
      rw [hbefore] at hs'
      cases hs'
      obtain ⟨moves,hmoves⟩ := moves_of_run (execInv_of_run hbefore) hafter
      exact (terminal_stable hmoves hterminal).1
  · intro r t
    exact ⟨r.trailOf_eq t,by rw [r.states_eq]; rfl⟩

end AegisRuntime.WorkflowLifecycles
