import AegisRuntime.WorkflowRuns

/-!
# Runs of the executor explained by lifecycle moves

Every run of the executor carries a run of the lifecycle machine that writes the
same ledger, settles exactly the bodies that ended and were joined, and cancels
only once a cancel was seen. A step that observes a cancel or the deadline puts
the coordinator on its way to the cancel, and from there nothing starts. A
finished run packages the actions, the final state and the report.
-/

namespace AegisRuntime.WorkflowTraces

open LabelledRuns KeyedLogs FailureRecords WorkflowGraph WorkflowLedger
open WorkflowCoordinator WorkflowMoves WorkflowHistory WorkflowPasses WorkflowSteps WorkflowRuns

variable {spec : WorkflowSpec} {host : Host} {ex : WorkflowExecutor}

/-- Why a step may make a move. -/
def Justified (s s' : State spec) (a : Action spec) : Move spec → Prop
  | .ready _ | .skip _ _ => s'.cancelSeen=false ∧ s'.pc=.startPass spec.ids
  | .start t => ∃ rest, s.pc=.launch t rest
  | .settle t e => ∃ joinId b, a=.wakeJoin joinId ∧
    s.bodies.find? (fun b => b.joinId=joinId)=some b ∧ b.task=t ∧ b.ended=some e
  | .cancel _ => s'.cancelSeen=true

theorem justified_of_propagates {s s' : State spec} {a : Action spec} {m : Move spec}
    (hm : m.propagates=true) (h : s'.cancelSeen=false ∧ s'.pc=.startPass spec.ids) :
    Justified s s' a m := by
  cases m <;> first | exact h | cases hm

theorem justified_of_cancels {s s' : State spec} {a : Action spec} {m : Move spec}
    (hm : m.cancels=true) (h : s'.cancelSeen=true) : Justified s s' a m := by
  cases m <;> first | exact h | cases hm

/-- What a step does to the ledger is a run of justified moves, and a joined body
is settled by one of them. -/
theorem step_moves {s s' : State spec} {a : Action spec} (h : ExecInv host ex s)
    (hstep : step host ex s a=some s') :
    ∃ moves, runs (moveStep host ex) s.recorder moves=some s'.recorder ∧
      (∀ m∈moves, Justified s s' a m) ∧
      ∀ joinId b e, a=.wakeJoin joinId → s.bodies.find? (fun b => b.joinId=joinId)=some b →
        b.ended=some e → .settle b.task e∈moves := by
  cases step_cases hstep with
  | checkCancels =>
    obtain ⟨moves,hruns,hall⟩ := cancelOpen_moves host ex s.recorder
    exact ⟨moves,hruns,fun m hm => justified_of_cancels (hall m hm) rfl,by rintro _ _ _ ⟨⟩⟩
  | checkClear pc fresh =>
    obtain ⟨moves,hruns,hall,-⟩ := propagate_spec host ex s.recorder
    exact ⟨moves,hruns,fun m hm => justified_of_propagates (hall m hm) ⟨fresh,rfl⟩,by rintro _ _ _ ⟨⟩⟩
  | launches t rest pc =>
    have hmove := transition_running_move host ex (h.ready t (by rw [pc]; rfl))
    refine ⟨[.start t],runs_single hmove,?_,by rintro _ _ _ ⟨⟩⟩
    intro m hm
    rw [List.mem_singleton.mp hm]
    exact ⟨rest,pc⟩
  | exits pc =>
    cases hseen : s.cancelSeen with
    | false =>
      refine ⟨[],?_,by simp,by rintro _ _ _ ⟨⟩⟩
      simp [exitStep,hseen]
    | true =>
      obtain ⟨moves,hruns,hall⟩ := cancelOpen_moves host ex s.recorder
      refine ⟨moves,?_,fun m hm => justified_of_cancels (hall m hm) hseen,by rintro _ _ _ ⟨⟩⟩
      simpa [exitStep,hseen] using hruns
  | joins joinId b e t pc found ended tracked =>
    have hjoined := h.joined found
    rw [tracked,Option.some.injEq] at hjoined
    obtain ⟨rfl,hrunning⟩ := hjoined
    refine ⟨[.settle b.task e],runs_single (settleJoined_move hrunning e),?_,?_⟩
    · intro m hm
      rw [List.mem_singleton.mp hm]
      exact ⟨joinId,b,rfl,found,rfl,ended⟩
    · rintro joinId' b' e' ⟨⟩ hfound hended
      rw [found,Option.some.injEq] at hfound
      subst hfound
      rw [ended,Option.some.injEq] at hended
      subst hended
      exact List.mem_cons_self
  | joinPanics joinId b e pc found ended untracked =>
    rw [(h.joined found).1] at untracked
    cases untracked
  | _ => exact ⟨[],rfl,by simp,by rintro _ _ _ ⟨⟩⟩

/-- What a step does to the ends of unjoined bodies. -/
theorem step_bodies {s s' : State spec} {a : Action spec} (h : ExecInv host ex s)
    (hstep : step host ex s a=some s') :
    (∀ b'∈s'.bodies, ∀ e, b'.ended=some e →
      (∃ b∈s.bodies, b.task=b'.task ∧ b.ended=some e) ∨ a=.bodyEnds b'.task e) ∧
    (∀ b∈s.bodies, ∀ e, b.ended=some e →
      (∃ b'∈s'.bodies, b'.task=b.task ∧ b'.ended=some e) ∨
        ∃ joinId, a=.wakeJoin joinId ∧ s.bodies.find? (fun b => b.joinId=joinId)=some b) ∧
    ∀ t e, a=.bodyEnds t e → ∃ b'∈s'.bodies, b'.task=t ∧ b'.ended=some e := by
  have hsame : ∀ b∈s.bodies, ∀ e, b.ended=some e → ∃ b'∈s.bodies, b'.task=b.task ∧ b'.ended=some e :=
    fun b hb e he => ⟨b,hb,rfl,he⟩
  cases step_cases hstep with
  | bodyEnds t e hruns =>
    refine ⟨?_,?_,?_⟩
    · intro b' hb' e' he'
      obtain ⟨b,hb,rfl⟩ := List.mem_map.mp hb'
      rw [endBody_task]
      rw [endBody] at he'
      split at he'
      · rename_i hmatch
        cases he'
        exact Or.inr (by rw [hmatch.1])
      · exact Or.inl ⟨b,hb,rfl,he'⟩
    · intro b hb e' he'
      have hkeep : endBody t e b=b := if_neg fun hc => by rw [he'] at hc; cases hc.2
      exact Or.inl ⟨endBody t e b,List.mem_map_of_mem hb,by rw [hkeep],by rw [hkeep,he']⟩
    · rintro t' e' ⟨⟩
      obtain ⟨b,hb,hmatch⟩ := List.any_eq_true.mp hruns
      simp only [Bool.and_eq_true,decide_eq_true_eq] at hmatch
      refine ⟨endBody t e b,List.mem_map_of_mem hb,?_,?_⟩
      · rw [endBody_task,hmatch.1]
      · rw [endBody,if_pos hmatch]
  | launches t rest pc =>
    refine ⟨?_,?_,fun _ _ ha => by cases ha⟩
    · intro b' hb' e he
      rcases List.mem_append.mp hb' with hb'|hb'
      · exact Or.inl ⟨b',hb',rfl,he⟩
      · rw [List.mem_singleton.mp hb'] at he
        cases he
    · exact fun b hb e he => Or.inl ⟨b,List.mem_append_left _ hb,rfl,he⟩
  | joins joinId b e t pc found =>
    refine ⟨fun b' hb' e' he' => Or.inl ⟨b',(List.mem_filter.mp hb').1,rfl,he'⟩,?_,fun _ _ ha => by cases ha⟩
    intro b' hb' e' he'
    by_cases hid : b'.joinId=joinId
    · have hb := List.find?_some found
      rw [decide_eq_true_eq] at hb
      have hsame := List.inj_on_of_nodup_map h.joinIds hb' (List.mem_of_find?_eq_some found)
        (hid.trans hb.symm)
      exact Or.inr ⟨joinId,rfl,hsame ▸ found⟩
    · exact Or.inl ⟨b',List.mem_filter.mpr ⟨hb',decide_eq_true hid⟩,rfl,he'⟩
  | joinPanics joinId b e pc found ended untracked =>
    rw [(h.joined found).1] at untracked
    cases untracked
  | _ =>
    exact ⟨fun b hb e he => Or.inl (hsame b hb e he),fun b hb e he => Or.inl (hsame b hb e he),fun _ _ ha => by cases ha⟩

/-- A cancel stays seen. -/
theorem step_cancelSeen {s s' : State spec} {a : Action spec} (hstep : step host ex s a=some s')
    (h : s.cancelSeen=true) : s'.cancelSeen=true := by
  cases step_cases hstep with
  | checkCancels => rfl
  | _ => exact h

/-- How the moves of a run are tied to its actions and to its state. -/
structure Explains (ex : WorkflowExecutor) (host : Host) (acts : List (Action spec)) (s : State spec)
    (moves : List (Move spec)) : Prop where
  /-- The moves write the ledger. -/
  run : runs (moveStep host ex) (Recorder.start spec ex.hasBus ex.config.runId ex.config.sessionId)
    moves=some s.recorder
  /-- Only bodies that ended are settled. -/
  settled : ∀ t e, .settle t e∈moves → .bodyEnds t e∈acts
  /-- Every body that ended is settled or not yet joined. -/
  ended : ∀ t e, .bodyEnds t e∈acts → .settle t e∈moves ∨ ∃ b∈s.bodies, b.task=t ∧ b.ended=some e
  /-- An unjoined body that ended did so in the run. -/
  unjoined : ∀ b∈s.bodies, ∀ e, b.ended=some e → .bodyEnds b.task e∈acts
  /-- Cancellations follow a cancel. -/
  cancels : s.cancelSeen=false → ∀ m∈moves, m.cancels=false

/-- One step of the executor extends the explanation. -/
theorem Explains.step {acts : List (Action spec)} {s s' : State spec} {moves : List (Move spec)}
    {a : Action spec} (h : Explains ex host acts s moves) (hi : ExecInv host ex s)
    (hstep : step host ex s a=some s') : ∃ moves', Explains ex host (acts++[a]) s' moves' := by
  obtain ⟨more,hruns,hjust,hjoin⟩ := step_moves hi hstep
  obtain ⟨hback,hforth,hnew⟩ := step_bodies hi hstep
  refine ⟨moves++more,runs_append_iff.mpr ⟨_,h.run,hruns⟩,?_,?_,?_,?_⟩
  · intro t e hmem
    rcases List.mem_append.mp hmem with hmem|hmem
    · exact List.mem_append_left _ (h.settled t e hmem)
    · obtain ⟨joinId,b,rfl,hfound,rfl,hended⟩ := hjust _ hmem
      exact List.mem_append_left _ (h.unjoined b (List.mem_of_find?_eq_some hfound) e hended)
  · intro t e hmem
    rcases List.mem_append.mp hmem with hmem|hmem
    · rcases h.ended t e hmem with hset|⟨b,hb,rfl,hended⟩
      · exact Or.inl (List.mem_append_left _ hset)
      · rcases hforth b hb e hended with hstay|⟨joinId,rfl,hfound⟩
        · exact Or.inr hstay
        · exact Or.inl (List.mem_append_right _ (hjoin joinId b e rfl hfound hended))
    · exact Or.inr (hnew t e (List.mem_singleton.mp hmem).symm)
  · intro b' hb' e he
    rcases hback b' hb' e he with ⟨b,hb,htask,hended⟩|rfl
    · rw [←htask]
      exact List.mem_append_left _ (h.unjoined b hb e hended)
    · exact List.mem_append_right _ List.mem_cons_self
  · intro hunseen m hm
    have hbefore : s.cancelSeen=false := by
      rw [←Bool.not_eq_true]
      intro hseen
      rw [step_cancelSeen hstep hseen] at hunseen
      cases hunseen
    rcases List.mem_append.mp hm with hm|hm
    · exact h.cancels hbefore m hm
    · cases m with
      | cancel t =>
        have hseen := hjust _ hm
        rw [Justified,hunseen] at hseen
        cases hseen
      | _ => rfl

/-- Every run has an explanation. -/
theorem explains_of_run {acts : List (Action spec)} {s : State spec}
    (h : runs (step host ex) (initial ex spec) acts=some s) :
    ∃ moves, Explains ex host acts s moves := by
  refine history_invariant (I:=fun acts s => ∃ moves, Explains ex host acts s moves) ?_ ?_ h
  · exact ⟨[],rfl,by simp,by simp,nofun,by simp⟩
  · rintro acts s a s' hs ⟨moves,he⟩ hstep
    exact he.step (execInv_of_run hs) hstep

/-- Whether the coordinator sees a cancelled token or the passed deadline in
this step. -/
def observes (s : State spec) : Action spec → Bool
  | .advance =>
    match s.pc with
    | .loopHead => !s.budgetExhausted && s.expired
    | .cancelCheck => s.callerCancelled || s.runCancelled
    | .startPass (t::_) =>
      decide (s.recorder.stateOf t=.ready) && (s.callerCancelled || s.runCancelled || s.expired)
    | _ => false
  | .wakeCancel | .wakeDeadline => true
  | _ => false

/-- Giving up a ready task is an observation. -/
theorem observes_of_passStops {s : State spec} {t : spec.Task} {rest : List spec.Task}
    (pc : s.pc=.startPass (t::rest)) (ready : s.recorder.stateOf t=.ready)
    (stop : s.callerCancelled=true ∨ s.runCancelled=true ∨ s.expired=true) :
    observes s .advance=true := by
  simpa [observes,pc,ready,or_assoc] using stop

/-- The coordinator has seen a cancel, or will before it can start anything. -/
def Stopping (s : State spec) : Prop :=
  s.cancelSeen=true ∨
    s.pc=.cancelCheck ∧ (s.callerCancelled=true ∨ s.runCancelled=true) ∨
    s.pc=.loopHead ∧ (s.callerCancelled=true ∨ s.runCancelled=true ∨
      s.expired=true ∧ s.budgetExhausted=false)

/-- An observation makes the coordinator stop. -/
theorem stopping_of_observes {s s' : State spec} {a : Action spec} (hi : ExecInv host ex s)
    (hobs : observes s a=true) (hstep : step host ex s a=some s') : Stopping s' := by
  cases step_cases hstep with
  | headExpires => exact Or.inr (Or.inl ⟨rfl,Or.inr rfl⟩)
  | headPasses pc quiet => rcases quiet with hq|hq <;> simp [observes,pc,hq] at hobs
  | checkCancels => exact Or.inl rfl
  | checkSeen pc seen => exact Or.inl seen
  | checkClear pc fresh caller run => simp [observes,pc,caller,run] at hobs
  | passStops t rest pc ready stop =>
    refine Or.inr (Or.inr ⟨rfl,?_⟩)
    rcases stop with hc|hr|he
    · exact Or.inl hc
    · exact Or.inr (Or.inl hr)
    · cases hb : s.budgetExhausted with
      | true => exact Or.inr (Or.inl (hi.budget hb))
      | false => exact Or.inr (Or.inr ⟨he,rfl⟩)
  | wakeCancel => exact Or.inr (Or.inr ⟨rfl,Or.inr (Or.inl rfl)⟩)
  | wakeDeadline => exact Or.inr (Or.inr ⟨rfl,Or.inr (Or.inl rfl)⟩)
  | passTries t rest pc ready caller run time => simp [observes,pc,caller,run,time] at hobs
  | passSkips t rest pc other => simp [observes,pc,other] at hobs
  | passDone pc | acquireFails _ _ pc | acquires _ _ pc | launches _ _ pc | liveNone pc
  | liveSome pc | exits pc => simp [observes,pc] at hobs
  | cancelCaller | tripRunToken | deadlinePasses | bodyEnds | joins | joinPanics | wakeEmpty =>
    cases hobs

/-- A cancel is seen only by an observation. -/
theorem observed_of_cancelSeen {acts : List (Action spec)} {s : State spec}
    (h : runs (step host ex) (initial ex spec) acts=some s) (hseen : s.cancelSeen=true) :
    Passes (step host ex) (initial ex spec) acts fun t a => observes t a=true := by
  refine history_invariant (I:=fun acts s => s.cancelSeen=true →
    Passes (step host ex) (initial ex spec) acts fun t a => observes t a=true)
    (fun hfalse => by cases hfalse) ?_ h hseen
  intro acts t a u ht hbefore hstep hu
  refine (passes_concat_iff ht).mpr ?_
  by_cases hseen : t.cancelSeen=true
  · exact Or.inl (hbefore hseen)
  · refine Or.inr ?_
    cases step_cases hstep with
    | checkCancels pc fresh cancelled => simpa [observes,pc] using cancelled
    | _ => exact absurd hu hseen

/-- The coordinator observes nothing while it launches a body. -/
theorem idle_of_observes {s s' : State spec} {a : Action spec} (hobs : observes s a=true)
    (hstep : step host ex s a=some s') (t : spec.Task) (rest : List spec.Task) :
    s.pc≠.launch t rest := by
  intro pc
  cases step_cases hstep with
  | wakeCancel hpc | wakeDeadline hpc =>
    rw [pc] at hpc
    cases hpc
  | cancelCaller | tripRunToken | deadlinePasses | bodyEnds | joins | joinPanics | wakeEmpty =>
    cases hobs
  | _ => simp [observes,pc] at hobs

/-- A stopping coordinator keeps stopping. -/
theorem Stopping.step {s s' : State spec} {a : Action spec} (h : Stopping s)
    (hstep : step host ex s a=some s') : Stopping s' := by
  rcases h with hseen|⟨pc,hflags⟩|⟨pc,hflags⟩
  · exact Or.inl (step_cancelSeen hstep hseen)
  · cases step_cases hstep with
    | cancelCaller => exact Or.inr (Or.inl ⟨pc,Or.inl rfl⟩)
    | tripRunToken => exact Or.inr (Or.inl ⟨pc,Or.inr rfl⟩)
    | deadlinePasses | bodyEnds => exact Or.inr (Or.inl ⟨pc,hflags⟩)
    | checkCancels => exact Or.inl rfl
    | checkSeen _ seen => exact Or.inl seen
    | checkClear _ _ caller run => simp [caller,run] at hflags
    | _ => simp_all
  · cases step_cases hstep with
    | cancelCaller => exact Or.inr (Or.inr ⟨pc,Or.inl rfl⟩)
    | tripRunToken => exact Or.inr (Or.inr ⟨pc,Or.inr (Or.inl rfl)⟩)
    | deadlinePasses => exact Or.inr (Or.inr ⟨pc,hflags.imp_right fun h => h.imp_right fun h => ⟨rfl,h.2⟩⟩)
    | bodyEnds => exact Or.inr (Or.inr ⟨pc,hflags⟩)
    | headExpires => exact Or.inr (Or.inl ⟨rfl,Or.inr rfl⟩)
    | headPasses _ quiet =>
      refine Or.inr (Or.inl ⟨rfl,?_⟩)
      rcases hflags with hc|hr|⟨he,hb⟩
      · exact Or.inl hc
      · exact Or.inr hr
      · rcases quiet with hq|hq <;> simp_all
    | _ => simp_all

/-- A stopping coordinator starts nothing. -/
theorem Stopping.idle {s : State spec} (h : Stopping s) (hi : ExecInv host ex s)
    (t : spec.Task) (rest : List spec.Task) : s.pc≠.launch t rest := by
  intro pc
  rcases h with hseen|⟨hpc,-⟩|⟨hpc,-⟩
  · have hunseen := hi.starting (by rw [pc]; rfl)
    rw [hseen] at hunseen
    cases hunseen
  · rw [pc] at hpc
    cases hpc
  · rw [pc] at hpc
    cases hpc

/-- Whether a move only settles or cancels. -/
def late (m : Move spec) : Prop := m.starts=false ∧ m.propagates=false

/-- A step that launches nothing and leads to a stopping coordinator only
settles and cancels. -/
theorem late_of_stopping {s s' : State spec} {a : Action spec} {m : Move spec}
    (hidle : ∀ t rest, s.pc≠.launch t rest) (hstop : Stopping s') (h : Justified s s' a m) :
    late m := by
  have hpropagates : ¬(s'.cancelSeen=false ∧ s'.pc=.startPass spec.ids) := by
    rintro ⟨hunseen,pc⟩
    rcases hstop with hseen|⟨hpc,-⟩|⟨hpc,-⟩
    · rw [hseen] at hunseen
      cases hunseen
    · rw [pc] at hpc
      cases hpc
    · rw [pc] at hpc
      cases hpc
  cases m with
  | ready | skip => exact absurd h hpropagates
  | start t =>
    obtain ⟨rest,pc⟩ := h
    exact absurd pc (hidle t rest)
  | settle | cancel => exact ⟨rfl,rfl⟩

/-- From a stopping coordinator on, the run only settles and cancels. -/
theorem late_moves {s u : State spec} {acts : List (Action spec)} (hi : ExecInv host ex s)
    (hstop : Stopping s) (h : runs (step host ex) s acts=some u) : Stopping u ∧
      ∃ moves, runs (moveStep host ex) s.recorder moves=some u.recorder ∧ ∀ m∈moves, late m := by
  have hall := run_invariant (I:=fun v => (ExecInv host ex v ∧ Stopping v) ∧ ∃ moves,
    runs (moveStep host ex) s.recorder moves=some v.recorder ∧ ∀ m∈moves, late m)
    ⟨⟨hi,hstop⟩,[],rfl,by simp⟩ ?_ h
  · exact ⟨hall.1.2,hall.2⟩
  rintro v a w ⟨⟨hv,hs⟩,moves,hmoves,hlate⟩ hstep
  obtain ⟨more,hmore,hjust,-⟩ := step_moves hv hstep
  refine ⟨⟨hv.step hstep,hs.step hstep⟩,moves++more,runs_append_iff.mpr ⟨_,hmoves,hmore⟩,?_⟩
  intro m hm
  rcases List.mem_append.mp hm with hm|hm
  · exact hlate m hm
  · exact late_of_stopping (hs.idle hv) (hs.step hstep) (hjust m hm)

/-- A finished run of the executor. -/
structure FinishedRun (host : Host) (ex : WorkflowExecutor) (spec : WorkflowSpec) where
  /-- What happened. -/
  actions : List (Action spec)
  /-- The state the run ended in. -/
  final : State spec
  /-- The recorder the report took over. -/
  done : Recorder spec
  /-- The report. -/
  report : WorkflowReport spec
  /-- The actions lead from the initial state to the final one. -/
  ran : runs (step host ex) (initial ex spec) actions=some final
  /-- The run returned the report. -/
  returned : final.pc=.returned done report

/-- The report of a state in which the run has returned. -/
def resultOf (s : State spec) : Option (Recorder spec×WorkflowReport spec) :=
  match s.pc with
  | .returned done report => some (done,report)
  | _ => none

theorem pc_of_resultOf {s : State spec} {done : Recorder spec} {report : WorkflowReport spec}
    (h : resultOf s=some (done,report)) : s.pc=.returned done report := by
  unfold resultOf at h
  split at h
  · cases h
    assumption
  · cases h

/-- A list of actions that leads to a report is a finished run. -/
def FinishedRun.ofActions (host : Host) (ex : WorkflowExecutor) (acts : List (Action spec))
    (h : ((runs (step host ex) (initial ex spec) acts).bind resultOf).isSome=true) :
    FinishedRun host ex spec :=
  match hrun : runs (step host ex) (initial ex spec) acts with
  | none => absurd h (by simp [hrun])
  | some s =>
    match hresult : resultOf s with
    | none => absurd h (by simp [hrun,hresult])
    | some (done,report) => ⟨acts,s,done,report,hrun,pc_of_resultOf hresult⟩

/-- A graph of one task without predecessors. -/
def oneTask : WorkflowSpec where
  tasks := [⟨⟨"a"⟩,[],{}⟩]
  wellNamed := by constructor <;> simp
  depsKnown := by simp
  ordered := ⟨[⟨"a"⟩],by simp,by simp⟩

/-- Its task. -/
def soleTask : oneTask.Task := ⟨⟨"a"⟩,by simp [WorkflowSpec.taskIds,oneTask]⟩

/-- A host whose clock stands still. -/
def stillHost : Host := ⟨fun _ => 0,fun _ => 0,fun _ => "",fun _ => ""⟩

/-- An executor with one permit and a bus. -/
def onePermit : WorkflowExecutor := ⟨⟨"run","session",1,none,none⟩,Nat.le_refl 1,true⟩

/-- The task becomes ready, starts, completes and is joined; the run returns. -/
def soleTaskCompletes : List (Action oneTask) :=
  [.advance,.advance,.advance,.advance,.advance,.advance,
    .bodyEnds soleTask (.finish (.outcome (.completed .null))),.advance,.wakeJoin 0,.advance,
    .advance,.advance,.advance,.advance,.advance]

example : Nonempty (FinishedRun stillHost onePermit oneTask) :=
  ⟨FinishedRun.ofActions stillHost onePermit soleTaskCompletes rfl⟩

namespace FinishedRun

variable (r : FinishedRun host ex spec)

theorem execInv : ExecInv host ex r.final := execInv_of_run r.ran

/-- The last ledger is in agreement and explained by the moves of the run. -/
theorem history : LedgerInv r.final.recorder ∧
    ∃ moves, Explains ex host r.actions r.final moves ∧ MoveHistory moves r.final.recorder := by
  obtain ⟨moves,hexplains⟩ := explains_of_run r.ran
  obtain ⟨hledger,hhistory⟩ := history_of_moves hexplains.run
  exact ⟨hledger,moves,hexplains,hhistory⟩

/-- Every body that ended was joined and settled, and nothing else was. -/
theorem settled_iff {moves : List (Move spec)} (h : Explains ex host r.actions r.final moves)
    (t : spec.Task) (e : BodyEnd) : .settle t e∈moves ↔ .bodyEnds t e∈r.actions := by
  refine ⟨h.settled t e,fun hmem => ?_⟩
  rcases h.ended t e hmem with hset|⟨b,hb,-⟩
  · exact hset
  · rw [r.execInv.left (by rw [r.returned]; rfl)] at hb
    cases hb

theorem report_eq : WorkflowCoordinator.report host r.final.recorder r.final.peak
    r.final.budgetExhausted r.final.cancelSeen=(r.done,r.report) :=
  (r.execInv.reported r.done r.report r.returned).1

theorem events_eq : r.report.events=
    r.final.recorder.ledger.events++[⟨r.final.recorder.ledger.seq+1,none,"finished"⟩] :=
  congrArg (fun p => p.2.events) r.report_eq.symm

theorem lastSeq_eq : r.report.snapshot.lastSeq=r.final.recorder.ledger.seq+1 :=
  congrArg (fun p => p.2.snapshot.lastSeq) r.report_eq.symm

theorem states_eq : r.report.snapshot.states=r.final.recorder.stateOf :=
  congrArg (fun p => p.2.snapshot.states) r.report_eq.symm

theorem results_eq : r.report.snapshot.results=r.final.recorder.ledger.results :=
  congrArg (fun p => p.2.snapshot.results) r.report_eq.symm

theorem failures_eq : r.report.failures=r.final.recorder.ledger.failures :=
  congrArg (fun p => p.2.failures) r.report_eq.symm

theorem peak_eq : r.report.peakConcurrency=r.final.peak :=
  congrArg (fun p => p.2.peakConcurrency) r.report_eq.symm

theorem unfinished_eq : r.report.unfinished=
    spec.ids.filter fun t => !(r.final.recorder.stateOf t).isTerminal :=
  congrArg (fun p => p.2.unfinished) r.report_eq.symm

/-- The bus of a finished run announced one more event, the end. -/
theorem bus_eq : ∃ env : EventEnvelope, r.done.bus=r.final.recorder.bus.map (·++[env]) ∧
    Announces env ⟨r.final.recorder.ledger.seq+1,none,"finished"⟩ :=
  ⟨_,congrArg (fun p => p.1.bus) r.report_eq.symm,rfl,rfl,rfl,rfl⟩

/-- The end of the workflow belongs to no task. -/
theorem trailOf_eq (t : spec.Task) :
    trailOf t r.report.events=trailOf t r.final.recorder.ledger.events := by
  rw [events_eq]
  exact trail_concat_other WorkflowEvent.taskId WorkflowEvent.state nofun

end FinishedRun

/-- The point of a run at which the coordinator sees a cancel or the deadline:
the actions before it, the observing action and the state it is taken in. -/
structure Observation (r : FinishedRun host ex spec) where
  /-- Actions before the observation. -/
  before : List (Action spec)
  /-- The observing action. -/
  action : Action spec
  /-- Actions after the observation. -/
  after : List (Action spec)
  /-- The state in which the observation is made. -/
  state : State spec
  /-- The run passes this point. -/
  splits : r.actions=before++action::after
  /-- The actions before lead to the state. -/
  reached : runs (step host ex) (initial ex spec) before=some state
  /-- The coordinator sees a cancel or the deadline. -/
  sees : observes state action=true

/-- The observing step is taken and the run goes on to its end. -/
theorem Observation.continues {r : FinishedRun host ex spec} (o : Observation r) :
    ∃ s', step host ex o.state o.action=some s' ∧ runs (step host ex) s' o.after=some r.final := by
  have hran := r.ran
  rw [o.splits] at hran
  obtain ⟨s,hs,hrest⟩ := runs_append_iff.mp hran
  rw [o.reached] at hs
  cases hs
  exact runs_cons_iff.mp hrest

/-- From an observation on, the run only settles and cancels, and its end has
seen the cancel. -/
theorem Observation.late_moves {r : FinishedRun host ex spec} (o : Observation r) :
    r.final.cancelSeen=true ∧ ∃ moves,
      runs (moveStep host ex) o.state.recorder moves=some r.final.recorder ∧ ∀ m∈moves, late m := by
  have hi := execInv_of_run o.reached
  obtain ⟨s',hstep,hafter⟩ := o.continues
  have hstop := stopping_of_observes hi o.sees hstep
  obtain ⟨first,hfirst,hjust,-⟩ := step_moves hi hstep
  obtain ⟨hend,rest,hrest,hlate⟩ := WorkflowTraces.late_moves (hi.step hstep) hstop hafter
  refine ⟨?_,first++rest,runs_append_iff.mpr ⟨_,hfirst,hrest⟩,fun m hm => ?_⟩
  · rcases hend with hseen|⟨hpc,-⟩|⟨hpc,-⟩
    · exact hseen
    · rw [r.returned] at hpc
      cases hpc
    · rw [r.returned] at hpc
      cases hpc
  · rcases List.mem_append.mp hm with hm|hm
    · exact late_of_stopping (idle_of_observes o.sees hstep) hstop (hjust m hm)
    · exact hlate m hm

end AegisRuntime.WorkflowTraces
