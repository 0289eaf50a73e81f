import AegisRuntime.WorkflowReports

/-!
# What a cancelled run settles

Once the coordinator has seen a cancel or the deadline, the run only settles
bodies and cancels tasks, the last `cancel_open` leaves nothing open, and what
had ended before stays as it was.
-/

namespace AegisRuntime.WorkflowCancellation

open LabelledRuns FailureRecords WorkflowGraph WorkflowLedger
open WorkflowCoordinator WorkflowMoves WorkflowHistory WorkflowRuns WorkflowTraces WorkflowReports

variable {spec : WorkflowSpec} {host : Host} {ex : WorkflowExecutor}

/-- Every task of a run that saw a cancel ends in a terminal state. -/
theorem terminal_of_observation {r : FinishedRun host ex spec} (o : Observation r) (t : spec.Task) :
    (r.report.snapshot.states t).isTerminal=true := by
  rw [r.states_eq]
  exact (r.execInv.reported r.done r.report r.returned).2 o.late_moves.1 t

/-- A task without a running event was never settled. -/
theorem unsettled_of_idle {moves : List (Move spec)} {rec : Recorder spec}
    (h : MoveHistory moves rec) {t : spec.Task} {events : List WorkflowEvent}
    (htrail : trailOf t events=trailOf t rec.ledger.events) (hidle : runningEvents t events=[])
    (e : BodyEnd) : Move.settle t e∉moves := by
  intro hmem
  have hrunning := h.started t e hmem
  rw [←htrail] at hrunning
  exact runningEvents_eq_nil_iff.mp hidle hrunning

/-- A run that saw a cancel leaves nothing unfinished. What had ended keeps its
state, a task that never started and was not skipped before ends cancelled
without effect, and a reported wait for approval is cancelled. -/
theorem cancellation_settles (r : FinishedRun host ex spec) (o : Observation r) :
    r.report.unfinished=[] ∧ (∀ t, (r.report.snapshot.states t).isTerminal=true) ∧
      (∀ t, (o.state.recorder.stateOf t).isTerminal=true →
        r.report.snapshot.states t=o.state.recorder.stateOf t) ∧
      (∀ t, runningEvents t r.report.events=[] → (o.state.recorder.stateOf t).kind≠.skipped →
        r.report.snapshot.states t=.cancelled ∧
          ∃ f, r.report.failures t=some f ∧ f.effectCertainty=.noEffect) ∧
      ∀ t, .bodyEnds t approvalPending∈r.actions → r.report.snapshot.states t=.cancelled := by
  have hterminal := terminal_of_observation o
  obtain ⟨hledger,moves,hexplains,hhistory⟩ := r.history
  obtain ⟨-,later,hlater,hlate⟩ := o.late_moves
  refine ⟨?_,hterminal,?_,?_,?_⟩
  · rw [r.unfinished_eq,List.filter_eq_nil_iff]
    intro t _
    rw [←r.states_eq,hterminal t]
    exact Bool.noConfusion
  · intro t ht
    rw [r.states_eq]
    exact (terminal_stable hlater ht).1
  · intro t hidle hskipped
    have hrank : 3 ≤ rank (r.final.recorder.stateOf t).kind := by
      have ht := hterminal t
      rw [r.states_eq] at ht
      cases hs : r.final.recorder.stateOf t <;> simp_all [TaskState.isTerminal,TaskState.kind,rank]
    cases hhistory.origin t hrank with
    | settled e mem => exact absurd mem (unsettled_of_idle hhistory (r.trailOf_eq t) hidle e)
    | skipped bad mem ended state =>
      have hkind : (r.final.recorder.stateOf t).kind=.skipped := by rw [state]; rfl
      have hbefore := skipped_of_moves hlater (fun m hm => (hlate m hm).2) hkind
      exact absurd (by rw [hbefore,hkind]) hskipped
    | unstarted mem state idle record =>
      rw [r.states_eq,r.failures_eq]
      exact ⟨state,record⟩
    | waiting mem reported => exact absurd reported (unsettled_of_idle hhistory (r.trailOf_eq t) hidle _)
  · intro t hmem
    have ht := hterminal t
    rw [r.states_eq] at ht ⊢
    rcases hhistory.settled t _ ((r.settled_iff hexplains t _).mpr hmem) with hkind|⟨-,hstate⟩
    · cases hs : r.final.recorder.stateOf t <;> simp_all [TaskState.isTerminal,TaskState.kind,endKind]
    · exact hstate

/-- The cancel flag of a finished run tells whether a cancel or the deadline was
observed. -/
theorem cancelSeen_iff (r : FinishedRun host ex spec) :
    r.final.cancelSeen=true ↔ Nonempty (Observation r) := by
  constructor
  · intro hseen
    obtain ⟨before,a,after,s,hsplit,hs,hobs⟩ := observed_of_cancelSeen r.ran hseen
    exact ⟨⟨before,a,after,s,hsplit,hs,hobs⟩⟩
  · rintro ⟨o⟩
    exact o.late_moves.1

theorem status_eq (r : FinishedRun host ex spec) :
    r.report.status=reportStatus r.final.recorder r.final.cancelSeen :=
  congrArg (fun p => p.2.status) r.report_eq.symm

/-- The status of a report: cancelled exactly when a cancel or the deadline was
observed; otherwise it waits for approval, is completed or failed as the final
states say. Nothing waits for approval after an observation. -/
theorem status_means (r : FinishedRun host ex spec) :
    (r.report.status=.completed ↔ ¬Nonempty (Observation r) ∧
        ∀ t, r.report.snapshot.states t=.completed) ∧
      (r.report.status=.waitingForApproval ↔
        ∃ t, r.report.snapshot.states t=.waitingForApproval) ∧
      (r.report.status=.cancelled ↔ Nonempty (Observation r)) ∧
      (r.report.status=.failed ↔ ¬Nonempty (Observation r) ∧
        (∀ t, r.report.snapshot.states t≠.waitingForApproval) ∧
        ∃ t, r.report.snapshot.states t≠.completed) := by
  have hnone : Nonempty (Observation r) → ∀ t, r.report.snapshot.states t≠.waitingForApproval := by
    rintro ⟨o⟩ t ht
    have hterminal := terminal_of_observation o t
    rw [ht] at hterminal
    cases hterminal
  have hany : (spec.ids.any fun t => decide (r.final.recorder.stateOf t=.waitingForApproval))=true ↔
      ∃ t, r.report.snapshot.states t=.waitingForApproval := by
    simp [r.states_eq]
  have hall : (spec.ids.all fun t => decide (r.final.recorder.stateOf t=.completed))=true ↔
      ∀ t, r.report.snapshot.states t=.completed := by
    simp [r.states_eq]
  rw [status_eq,reportStatus]
  by_cases hseen : r.final.cancelSeen=true
  · have hobs := (cancelSeen_iff r).mp hseen
    rw [if_pos hseen]
    simp only [reduceCtorEq,false_iff,true_iff]
    exact ⟨fun h => h.1 hobs,not_exists.mpr (hnone hobs),hobs,fun h => h.1 hobs⟩
  · have hobs := mt (cancelSeen_iff r).mpr hseen
    rw [if_neg hseen]
    by_cases hwaits : ∃ t, r.report.snapshot.states t=.waitingForApproval
    · obtain ⟨t,ht⟩ := hwaits
      rw [if_pos (hany.mpr ⟨t,ht⟩)]
      simp only [reduceCtorEq,false_iff,true_iff]
      refine ⟨fun h => ?_,⟨t,ht⟩,hobs,fun h => h.2.1 t ht⟩
      have hdone := h.2 t
      rw [ht] at hdone
      cases hdone
    · rw [if_neg (mt hany.mp hwaits)]
      by_cases hdone : ∀ t, r.report.snapshot.states t=.completed
      · rw [if_pos (hall.mpr hdone)]
        simp only [reduceCtorEq,false_iff,true_iff]
        exact ⟨⟨hobs,hdone⟩,hwaits,hobs,fun h => h.2.2.elim fun t ht => ht (hdone t)⟩
      · rw [if_neg (mt hall.mp hdone)]
        simp only [reduceCtorEq,false_iff,true_iff]
        exact ⟨fun h => hdone h.2,hwaits,hobs,hobs,not_exists.mp hwaits,not_forall.mp hdone⟩

/-- The caller cancels between the last join and the checks of the loop head. -/
def soleTaskLateCancel : List (Action oneTask) :=
  [.advance,.advance,.advance,.advance,.advance,.advance,
    .bodyEnds soleTask (.finish (.outcome (.completed .null))),.advance,.wakeJoin 0,.cancelCaller,
    .advance,.advance,.advance,.advance]

/-- A cancelled status with every task completed. -/
theorem status_cancelled_completed : ¬∀ r : FinishedRun stillHost onePermit oneTask,
    (r.report.status=.completed ↔ ∀ t, r.report.snapshot.states t=.completed) ∧
      (r.report.status=.cancelled → ∃ t, r.report.snapshot.states t≠.completed) := by
  intro hall
  obtain ⟨-,hcancelled⟩ := hall (FinishedRun.ofActions stillHost onePermit soleTaskLateCancel rfl)
  obtain ⟨t,ht⟩ := hcancelled rfl
  have ht' : t=soleTask := by
    have hmem := t.2
    simp only [WorkflowSpec.taskIds,oneTask,List.map_cons,List.map_nil,List.mem_singleton] at hmem
    exact Subtype.ext hmem
  rw [ht'] at ht
  exact ht rfl

/-- The caller cancels while the only task waits for approval to be joined. -/
def soleTaskCancelled : List (Action oneTask) :=
  [.advance,.advance,.advance,.advance,.advance,.advance,.bodyEnds soleTask approvalPending,.advance,
    .cancelCaller,.wakeCancel,.advance,.advance,.advance,.wakeJoin 0,.advance,.advance,.advance,
    .advance]

example : ∃ r : FinishedRun stillHost onePermit oneTask, Nonempty (Observation r) := by
  have hrun : (runs (step stillHost onePermit) (initial onePermit oneTask)
    (soleTaskCancelled.take 9)).isSome=true := rfl
  refine ⟨FinishedRun.ofActions stillHost onePermit soleTaskCancelled rfl,
    ⟨soleTaskCancelled.take 9,.wakeCancel,soleTaskCancelled.drop 10,
      _,rfl,(Option.some_get hrun).symm,rfl⟩⟩

end AegisRuntime.WorkflowCancellation
