import AegisRuntime.WorkflowCoordinator

/-!
# The steps of the coordinator, case by case

The step function of a run read once: every enabled action with its guards and
the state it leads to. Invariants of runs are proved over these cases and never
unfold the step function.
-/

namespace AegisRuntime.WorkflowSteps

open FailureRecords WorkflowGraph WorkflowLedger WorkflowCoordinator

variable {spec : WorkflowSpec} (host : Host) (ex : WorkflowExecutor)

/-- Every enabled action with its guards and the state it leads to. -/
inductive StepCase (s : State spec) : Action spec → State spec → Prop where
  /-- The caller's token is cancelled. -/
  | cancelCaller : StepCase s .cancelCaller {s with callerCancelled := true}
  /-- The run token is cancelled through a context that was handed out. -/
  | tripRunToken (spawned : 0 < s.nextJoin) : StepCase s .tripRunToken {s with runCancelled := true}
  /-- The deadline passes. -/
  | deadlinePasses (budget : ex.config.totalBudget.isSome=true) :
    StepCase s .deadlinePasses {s with expired := true}
  /-- A body ends and drops its permit. -/
  | bodyEnds (t : spec.Task) (e : BodyEnd) (runs : bodyRuns s t=true)
    (possible : endPossible ex s e=true) : StepCase s (.bodyEnds t e)
      {s with bodies := s.bodies.map (endBody t e),available := s.available+1}
  /-- The loop head sees the deadline pass. -/
  | headExpires (pc : s.pc=.loopHead) (fresh : s.budgetExhausted=false) (expired : s.expired=true) :
    StepCase s .advance {s with pc := .cancelCheck,budgetExhausted := true,runCancelled := true}
  /-- The loop head goes on. -/
  | headPasses (pc : s.pc=.loopHead) (quiet : s.budgetExhausted=true ∨ s.expired=false) :
    StepCase s .advance {s with pc := .cancelCheck}
  /-- The loop head sees a cancelled token for the first time. -/
  | checkCancels (pc : s.pc=.cancelCheck) (fresh : s.cancelSeen=false)
    (cancelled : s.callerCancelled=true ∨ s.runCancelled=true) : StepCase s .advance
      {s with pc := .liveCheck,runCancelled := true,cancelSeen := true,
              recorder := cancelOpen host ex s.recorder}
  /-- The loop head has seen a cancelled token before. -/
  | checkSeen (pc : s.pc=.cancelCheck) (seen : s.cancelSeen=true) : StepCase s .advance
      {s with pc := .liveCheck,runCancelled := s.callerCancelled || s.runCancelled}
  /-- No token is cancelled: propagate and begin the start pass. -/
  | checkClear (pc : s.pc=.cancelCheck) (fresh : s.cancelSeen=false)
    (caller : s.callerCancelled=false) (run : s.runCancelled=false) : StepCase s .advance
      {s with pc := .startPass spec.ids,recorder := propagate host ex s.recorder}
  /-- The start pass is over. -/
  | passDone (pc : s.pc=.startPass []) : StepCase s .advance {s with pc := .liveCheck}
  /-- The next task is not ready. -/
  | passSkips (t : spec.Task) (rest : List spec.Task) (pc : s.pc=.startPass (t::rest))
    (other : s.recorder.stateOf t≠.ready) : StepCase s .advance {s with pc := .startPass rest}
  /-- A cancel or the deadline restarts the loop before a ready task starts. -/
  | passStops (t : spec.Task) (rest : List spec.Task) (pc : s.pc=.startPass (t::rest))
    (ready : s.recorder.stateOf t=.ready)
    (stop : s.callerCancelled=true ∨ s.runCancelled=true ∨ s.expired=true) :
    StepCase s .advance {s with pc := .loopHead}
  /-- The next task is ready and may start. -/
  | passTries (t : spec.Task) (rest : List spec.Task) (pc : s.pc=.startPass (t::rest))
    (ready : s.recorder.stateOf t=.ready) (caller : s.callerCancelled=false)
    (run : s.runCancelled=false) (time : s.expired=false) :
    StepCase s .advance {s with pc := .acquire t rest}
  /-- No permit is left. -/
  | acquireFails (t : spec.Task) (rest : List spec.Task) (pc : s.pc=.acquire t rest)
    (empty : s.available=0) : StepCase s .advance {s with pc := .liveCheck}
  /-- A permit is taken. -/
  | acquires (t : spec.Task) (rest : List spec.Task) (pc : s.pc=.acquire t rest)
    (left : s.available≠0) :
    StepCase s .advance {s with pc := .launch t rest,available := s.available-1}
  /-- The body is spawned. -/
  | launches (t : spec.Task) (rest : List spec.Task) (pc : s.pc=.launch t rest) :
    StepCase s .advance (launchStep host ex s t rest)
  /-- Nothing is live: leave the loop. -/
  | liveNone (pc : s.pc=.liveCheck) (idle : s.live=0) : StepCase s .advance {s with pc := .exit}
  /-- Something is live: wait. -/
  | liveSome (pc : s.pc=.liveCheck) (busy : s.live≠0) : StepCase s .advance {s with pc := .select}
  /-- The run returns its report. -/
  | exits (pc : s.pc=.exit) : StepCase s .advance (exitStep host ex s)
  /-- The wait ends with the caller's cancel. -/
  | wakeCancel (pc : s.pc=.select) (fresh : s.cancelSeen=false) (caller : s.callerCancelled=true) :
    StepCase s .wakeCancel {s with pc := .loopHead,runCancelled := true}
  /-- The wait ends with the deadline. -/
  | wakeDeadline (pc : s.pc=.select) (fresh : s.budgetExhausted=false) (expired : s.expired=true) :
    StepCase s .wakeDeadline {s with pc := .loopHead,budgetExhausted := true,runCancelled := true}
  /-- A finished body is joined and its task settled. -/
  | joins (joinId : ℕ) (b : Body spec) (e : BodyEnd) (t : spec.Task) (pc : s.pc=.select)
    (found : s.bodies.find? (fun b => b.joinId=joinId)=some b) (ended : b.ended=some e)
    (tracked : s.byJoinId.lookup joinId=some t) : StepCase s (.wakeJoin joinId)
      {s with
        pc := .loopHead
        live := s.live-1
        bodies := s.bodies.filter fun b => decide (b.joinId≠joinId)
        byJoinId := s.byJoinId.filter fun entry => decide (entry.1≠joinId)
        recorder := settleJoined host ex s.recorder t e}
  /-- A finished body is joined whose identifier is not tracked. -/
  | joinPanics (joinId : ℕ) (b : Body spec) (e : BodyEnd) (pc : s.pc=.select)
    (found : s.bodies.find? (fun b => b.joinId=joinId)=some b) (ended : b.ended=some e)
    (untracked : s.byJoinId.lookup joinId=none) : StepCase s (.wakeJoin joinId)
      {s with
        pc := .panicked
        live := s.live-1
        bodies := s.bodies.filter fun b => decide (b.joinId≠joinId)}
  /-- The join set is empty. -/
  | wakeEmpty (pc : s.pc=.select) (empty : s.bodies=[]) : StepCase s .wakeEmpty {s with pc := .exit}

variable {host ex}

theorem waits_eq_true_iff {s : State spec} : waits s=true ↔ s.pc=.select := by
  unfold waits
  cases s.pc <;> simp

/-- The token checks of the loop head have three outcomes. -/
theorem checkStep_cases {s : State spec} (pc : s.pc=.cancelCheck) :
    StepCase host ex s .advance (checkStep host ex s) := by
  cases hseen : s.cancelSeen with
  | true =>
    have hstep : checkStep host ex s=
        {s with pc := .liveCheck,runCancelled := s.callerCancelled || s.runCancelled} := by
      cases hc : s.callerCancelled <;> simp [checkStep,hseen,hc]
    rw [hstep]
    exact StepCase.checkSeen pc hseen
  | false =>
    by_cases hcancel : s.callerCancelled=true ∨ s.runCancelled=true
    · have hstep : checkStep host ex s={s with
          pc := .liveCheck,runCancelled := true,cancelSeen := true,
          recorder := cancelOpen host ex s.recorder} := by
        cases hc : s.callerCancelled <;> simp_all [checkStep]
      rw [hstep]
      exact StepCase.checkCancels pc hseen hcancel
    · simp only [not_or,Bool.not_eq_true] at hcancel
      have hstep : checkStep host ex s={s with
          pc := .startPass spec.ids,recorder := propagate host ex s.recorder} := by
        simp [checkStep,hseen,hcancel.1,hcancel.2]
      rw [hstep]
      exact StepCase.checkClear pc hseen hcancel.1 hcancel.2

/-- The start pass stops, skips, restarts the loop or goes on to a permit. -/
theorem passStep_cases {s : State spec} {rest : List spec.Task} (pc : s.pc=.startPass rest) :
    StepCase host ex s .advance (passStep s rest) := by
  cases rest with
  | nil => exact StepCase.passDone pc
  | cons t rest =>
    rw [passStep]
    split
    · exact StepCase.passSkips t rest pc ‹_›
    rename_i hready
    split
    · rename_i hstop
      simp only [Bool.or_eq_true,or_assoc] at hstop
      exact StepCase.passStops t rest pc (not_not.mp hready) hstop
    · rename_i hgo
      simp only [Bool.or_eq_true,not_or,Bool.not_eq_true] at hgo
      exact StepCase.passTries t rest pc (not_not.mp hready) hgo.1.1 hgo.1.2 hgo.2

theorem advanceStep_cases {s s' : State spec} (h : advanceStep host ex s=some s') :
    StepCase host ex s .advance s' := by
  unfold advanceStep at h
  cases pc : s.pc with
  | loopHead =>
    simp only [pc,Option.some.injEq] at h
    subst h
    rw [headStep]
    split
    · rename_i hexp
      simp only [Bool.and_eq_true,Bool.not_eq_true'] at hexp
      exact StepCase.headExpires pc hexp.1 hexp.2
    · rename_i hexp
      refine StepCase.headPasses pc ?_
      cases hb : s.budgetExhausted <;> simp_all
  | cancelCheck =>
    simp only [pc,Option.some.injEq] at h
    subst h
    exact checkStep_cases pc
  | startPass rest =>
    simp only [pc,Option.some.injEq] at h
    subst h
    exact passStep_cases pc
  | acquire t rest =>
    simp only [pc,Option.some.injEq] at h
    subst h
    rw [acquireStep]
    split
    · exact StepCase.acquireFails t rest pc ‹_›
    · exact StepCase.acquires t rest pc ‹_›
  | launch t rest =>
    simp only [pc,Option.some.injEq] at h
    subst h
    exact StepCase.launches t rest pc
  | liveCheck =>
    simp only [pc,Option.some.injEq] at h
    subst h
    by_cases hlive : s.live=0
    · rw [if_pos hlive]
      exact StepCase.liveNone pc hlive
    · rw [if_neg hlive]
      exact StepCase.liveSome pc hlive
  | exit =>
    simp only [pc,Option.some.injEq] at h
    subst h
    exact StepCase.exits pc
  | select | returned | panicked => simp [pc] at h

/-- Every enabled action is one of the cases. -/
theorem step_cases {s s' : State spec} {a : Action spec} (h : step host ex s a=some s') :
    StepCase host ex s a s' := by
  cases a with
  | cancelCaller =>
    cases h
    exact StepCase.cancelCaller
  | tripRunToken =>
    obtain ⟨hc,⟨⟩⟩ := Option.ite_none_right_eq_some.mp h
    exact StepCase.tripRunToken hc
  | deadlinePasses =>
    obtain ⟨hc,⟨⟩⟩ := Option.ite_none_right_eq_some.mp h
    exact StepCase.deadlinePasses hc
  | bodyEnds t e =>
    obtain ⟨hc,⟨⟩⟩ := Option.ite_none_right_eq_some.mp h
    rw [Bool.and_eq_true] at hc
    exact StepCase.bodyEnds t e hc.1 hc.2
  | advance => exact advanceStep_cases h
  | wakeCancel =>
    obtain ⟨hc,⟨⟩⟩ := Option.ite_none_right_eq_some.mp h
    simp only [Bool.and_eq_true,Bool.not_eq_true',waits_eq_true_iff] at hc
    exact StepCase.wakeCancel hc.1.1 hc.1.2 hc.2
  | wakeDeadline =>
    obtain ⟨hc,⟨⟩⟩ := Option.ite_none_right_eq_some.mp h
    simp only [Bool.and_eq_true,Bool.not_eq_true',waits_eq_true_iff] at hc
    exact StepCase.wakeDeadline hc.1.1 hc.1.2 hc.2
  | wakeJoin joinId =>
    obtain ⟨hc,hjoin⟩ := Option.ite_none_right_eq_some.mp h
    obtain ⟨e,he,rfl⟩ := Option.map_eq_some_iff.mp hjoin
    obtain ⟨b,hfound,hended⟩ := Option.bind_eq_some_iff.mp he
    rw [waits_eq_true_iff] at hc
    cases htracked : s.byJoinId.lookup joinId with
    | none =>
      simp only [joinStep,htracked]
      exact StepCase.joinPanics joinId b e hc hfound hended htracked
    | some t =>
      simp only [joinStep,htracked]
      exact StepCase.joins joinId b e t hc hfound hended htracked
  | wakeEmpty =>
    obtain ⟨hc,⟨⟩⟩ := Option.ite_none_right_eq_some.mp h
    simp only [Bool.and_eq_true,List.isEmpty_iff,waits_eq_true_iff] at hc
    exact StepCase.wakeEmpty hc.1 hc.2

end AegisRuntime.WorkflowSteps
