import AegisRuntime.WorkflowReports

/-!
# Permits and the running tasks of the log

Permits are conserved at every moment of a run: each is free, held by the
coordinator for the task it is about to start, or held by a body that started
and has not ended. The log says less: a body gives its permit back when it ends,
and its task leaves the running state only when the coordinator joins it, so the
log can show more running tasks than there are permits. It does not exactly when
no task starts behind a backlog of unjoined bodies larger than the free permits.
-/

namespace AegisRuntime.WorkflowPermits

open LabelledRuns KeyedLogs FailureRecords WorkflowGraph WorkflowLedger WorkflowCoordinator
open WorkflowMoves WorkflowHistory WorkflowPasses WorkflowSteps WorkflowRuns WorkflowTraces
open WorkflowReports

variable {spec : WorkflowSpec} {host : Host} {ex : WorkflowExecutor}

/-- A moment of a run: a state the executor reaches, with the actions before it. -/
structure Moment (host : Host) (ex : WorkflowExecutor) (spec : WorkflowSpec) where
  /-- What happened so far. -/
  actions : List (Action spec)
  /-- The state reached. -/
  state : State spec
  /-- The actions lead from the initial state to it. -/
  reached : runs (step host ex) (initial ex spec) actions=some state

/-- The last moment of a finished run. -/
def lastMoment (r : FinishedRun host ex spec) : Moment host ex spec := ⟨r.actions,r.final,r.ran⟩

/-- The events logged so far. -/
def Moment.log (m : Moment host ex spec) : List WorkflowEvent := m.state.recorder.ledger.events

/-- Tasks whose bodies were started and have not ended. -/
def inFlight (s : State spec) : List spec.Task := (unended s.bodies).map Body.task

/-- A body is in flight from the start of its task to its own end. -/
theorem mem_inFlight_iff (m : Moment host ex spec) (t : spec.Task) :
    t∈inFlight m.state ↔ runningEvents t m.log≠[] ∧ ∀ e, .bodyEnds t e∉m.actions := by
  have hi := execInv_of_run m.reached
  obtain ⟨moves,hexplains⟩ := explains_of_run m.reached
  obtain ⟨hledger,hhistory⟩ := history_of_moves hexplains.run
  rw [Ne,runningEvents_eq_nil_iff,not_not]
  constructor
  · intro hmem
    obtain ⟨b,hb,rfl⟩ := List.mem_map.mp hmem
    obtain ⟨hin,hopen⟩ := List.mem_filter.mp hb
    have hrunning := (hi.running b.task).mpr (List.mem_map_of_mem hin)
    refine ⟨running_mem_trail hledger hrunning,fun e he => ?_⟩
    rcases hexplains.ended b.task e he with hset|⟨b',hin',htask,hended⟩
    · exact hhistory.unsettled (by rw [hrunning]; decide) e hset
    · rw [List.inj_on_of_nodup_map hi.tasks hin' hin htask] at hended
      rw [hended] at hopen
      cases hopen
  · rintro ⟨hstarted,hopen⟩
    have hrank : ¬3 ≤ rank (m.state.recorder.stateOf t).kind := by
      intro hrank
      cases hhistory.origin t hrank with
      | settled e mem => exact hopen e (hexplains.settled t e mem)
      | skipped bad mem ended state idle => exact idle hstarted
      | unstarted mem state idle => exact idle hstarted
      | waiting mem reported => exact hopen _ (hexplains.settled t _ reported)
    have hrunning : m.state.recorder.stateOf t=.running := by
      have hidle := mt (idle_of_rank hledger) (not_not.mpr hstarted)
      cases hs : m.state.recorder.stateOf t <;> simp_all [TaskState.kind,rank]
    obtain ⟨b,hin,rfl⟩ := List.mem_map.mp ((hi.running t).mp hrunning)
    refine List.mem_map_of_mem (List.mem_filter.mpr ⟨hin,?_⟩)
    cases hended : b.ended with
    | none => rfl
    | some e => exact absurd (hexplains.unjoined b hin e hended) (hopen e)

/-- Moves without starts log no running event. -/
theorem quiet_of_moves {rec rec' : Recorder spec} {moves : List (Move spec)}
    (h : runs (moveStep host ex) rec moves=some rec') (hm : ∀ m∈moves, m.starts=false) :
    ∃ new, rec'.ledger.events=rec.ledger.events++new ∧ ∀ e∈new, e.state≠"running" := by
  obtain ⟨new,hnew,hquiet⟩ := events_of_moves h
  exact ⟨new,hnew,hquiet hm⟩

theorem starts_of_cancels {m : Move spec} (h : m.cancels=true) : m.starts=false := by
  cases m <;> first | rfl | cases h

theorem starts_of_propagates {m : Move spec} (h : m.propagates=true) : m.starts=false := by
  cases m <;> first | rfl | cases h

/-- `cancel_open` starts nothing. -/
theorem cancelOpen_quiet (host : Host) (ex : WorkflowExecutor) (rec : Recorder spec) :
    ∃ new, (cancelOpen host ex rec).ledger.events=rec.ledger.events++new ∧
      ∀ e∈new, e.state≠"running" := by
  obtain ⟨moves,hmoves,hall⟩ := cancelOpen_moves host ex rec
  exact quiet_of_moves hmoves fun m hm => starts_of_cancels (hall m hm)

/-- A step either launches a body or leaves the peak alone, spawns nothing and
logs no running event. -/
theorem launch_or_quiet {s s' : State spec} {a : Action spec} (hi : ExecInv host ex s)
    (hstep : step host ex s a=some s') :
    (a=.advance ∧ ∃ t rest, s.pc=.launch t rest ∧ s'=launchStep host ex s t rest) ∨
      s'.peak=s.peak ∧ s'.bodies.length ≤ s.bodies.length ∧ ∃ new, s'.recorder.ledger.events=
        s.recorder.ledger.events++new ∧ ∀ e∈new, e.state≠"running" := by
  cases step_cases hstep with
  | launches t rest pc => exact Or.inl ⟨rfl,t,rest,pc,rfl⟩
  | checkCancels => exact Or.inr ⟨rfl,Nat.le_refl _,cancelOpen_quiet host ex s.recorder⟩
  | checkClear =>
    obtain ⟨moves,hmoves,hall,-⟩ := propagate_spec host ex s.recorder
    exact Or.inr ⟨rfl,Nat.le_refl _,
      quiet_of_moves hmoves fun m hm => starts_of_propagates (hall m hm)⟩
  | exits =>
    refine Or.inr ⟨rfl,Nat.le_refl _,?_⟩
    simp only [exitStep]
    split
    · exact cancelOpen_quiet host ex s.recorder
    · exact ⟨[],by simp,by simp⟩
  | joins joinId b e t pc found ended tracked =>
    have hjoined := hi.joined found
    rw [tracked,Option.some.injEq] at hjoined
    obtain ⟨rfl,hrunning⟩ := hjoined
    have hmove : moveStep host ex s.recorder (.settle b.task e)=
        some (settleJoined host ex s.recorder b.task e) := settleJoined_move hrunning e
    exact Or.inr ⟨rfl,List.length_filter_le _ _,
      quiet_of_moves (runs_single hmove) (by simp [Move.starts])⟩
  | joinPanics => exact Or.inr ⟨rfl,List.length_filter_le _ _,[],by simp,by simp⟩
  | bodyEnds => exact Or.inr ⟨rfl,Nat.le_of_eq (List.length_map _),[],by simp,by simp⟩
  | _ => exact Or.inr ⟨rfl,Nat.le_refl _,[],by simp,by simp⟩

/-- The peak never exceeds the permits there are and sees every start. -/
structure PeakInv (ex : WorkflowExecutor) (s : State spec) : Prop where
  /-- Permits in use are permits. -/
  bounded : s.peak ≤ ex.config.maxParallel
  /-- A start has its permit in use. -/
  started : ∀ e∈s.recorder.ledger.events, e.state="running" → 1 ≤ s.peak

/-- A launch counts the permit it hands over; no other step moves the peak or
logs a start. -/
theorem PeakInv.step {s s' : State spec} {a : Action spec} (h : PeakInv ex s)
    (hi : ExecInv host ex s) (hstep : step host ex s a=some s') : PeakInv ex s' := by
  rcases launch_or_quiet hi hstep with ⟨-,t,rest,pc,rfl⟩|⟨hpeak,-,new,hnew,hquiet⟩
  · have hp := hi.permits
    have hb := h.bounded
    simp only [pc,held] at hp
    constructor
    · simp only [launchStep]
      omega
    · intro e _ _
      simp only [launchStep]
      omega
  · refine ⟨by rw [hpeak]; exact h.bounded,fun e he hname => ?_⟩
    rw [hpeak]
    rw [hnew] at he
    rcases List.mem_append.mp he with he|he
    · exact h.started e he hname
    · exact absurd hname (hquiet e he)

theorem peakInv_of_run {acts : List (Action spec)} {s : State spec}
    (h : runs (step host ex) (initial ex spec) acts=some s) : PeakInv ex s := by
  have hall := run_invariant (I:=fun s => ExecInv host ex s ∧ PeakInv ex s)
    ⟨ExecInv.initial spec,Nat.zero_le _,nofun⟩ ?_ h
  · exact hall.2
  · rintro t a u ⟨hi,hpeak⟩ hstep
    exact ⟨hi.step hstep,hpeak.step hi hstep⟩

/-- At every moment the free permits, one for each body in flight and the one
the coordinator is about to hand over are all the permits there are. A finished
run has them all back, and its peak lies within them and counts every start. -/
theorem permits_conserved (host : Host) (ex : WorkflowExecutor) (spec : WorkflowSpec) :
    (∀ m : Moment host ex spec,
      m.state.available+((inFlight m.state).length+held m.state.pc)=ex.config.maxParallel ∧
        (inFlight m.state).length ≤ ex.config.maxParallel ∧ (inFlight m.state).Nodup ∧
        ∀ t, t∈inFlight m.state ↔ runningEvents t m.log≠[] ∧ ∀ e, .bodyEnds t e∉m.actions) ∧
      ∀ r : FinishedRun host ex spec, r.final.available=ex.config.maxParallel ∧
        r.report.peakConcurrency ≤ ex.config.maxParallel ∧
        ((∃ t : spec.Task, runningEvents t r.report.events≠[]) → 1 ≤ r.report.peakConcurrency) := by
  constructor
  · intro m
    have hi := execInv_of_run m.reached
    have hp := hi.permits
    have hlen : (inFlight m.state).length=(unended m.state.bodies).length := List.length_map _
    refine ⟨by omega,by omega,?_,mem_inFlight_iff m⟩
    exact hi.tasks.sublist (List.filter_sublist.map Body.task)
  · intro r
    have hp := r.execInv.permits
    have hpeak := peakInv_of_run r.ran
    rw [r.execInv.left (by rw [r.returned]; rfl),r.returned] at hp
    refine ⟨hp,?_,?_⟩
    · rw [r.peak_eq]
      exact hpeak.bounded
    · rintro ⟨t,ht⟩
      rw [r.peak_eq]
      obtain ⟨e,he⟩ := List.exists_mem_of_ne_nil _ ht
      have hmem : e∈r.report.events ∧ e.taskId=some t.1 ∧ e.state="running" := by
        simpa [runningEvents] using he
      rw [r.events_eq,List.mem_append,List.mem_singleton] at hmem
      rcases hmem.1 with hin|rfl
      · exact hpeak.started e hin hmem.2.2
      · cases hmem.2.1

/-- Tasks that have a running event in the log and none after it. -/
def runningTasks (spec : WorkflowSpec) (log : List WorkflowEvent) : List spec.Task :=
  spec.ids.filter fun t => decide ((trailOf t log).getLast?=some "running")

theorem mem_runningTasks {t : spec.Task} {log : List WorkflowEvent} :
    t∈runningTasks spec log ↔ (trailOf t log).getLast?=some "running" := by
  simp [runningTasks]

/-- No prefix of the log shows more running tasks than there are permits. -/
def LogBounded (ex : WorkflowExecutor) (spec : WorkflowSpec) (log : List WorkflowEvent) : Prop :=
  ∀ pre, pre<+:log → (runningTasks spec pre).length ≤ ex.config.maxParallel

/-- Bodies that ended and were not joined. -/
def backlog (s : State spec) : List (Body spec) := s.bodies.filter fun b => b.ended.isSome

/-- A task that starts in this step starts behind no more unjoined bodies than
there are permits free. -/
def StartsInRoom (s : State spec) (a : Action spec) : Prop :=
  ∀ t rest, a=.advance → s.pc=.launch t rest → (backlog s).length ≤ s.available

/-- Every start of a run up to the given moment is made in room. -/
def AlwaysInRoom (m : Moment host ex spec) : Prop :=
  ∀ before a after s, m.actions=before++a::after →
    runs (step host ex) (initial ex spec) before=some s → StartsInRoom s a

/-- The last event of a task names the state the ledger has for it. -/
theorem last_running_iff {rec : Recorder spec} (h : LedgerInv rec) (t : spec.Task) :
    (trailOf t rec.ledger.events).getLast?=some "running" ↔ rec.stateOf t=.running := by
  obtain ⟨kinds,htrail,walk⟩ := h.walks t
  have hkind : rec.stateOf t=.running ↔ (rec.stateOf t).kind=.running := by
    cases rec.stateOf t <;> simp [TaskState.kind]
  rw [htrail,List.getLast?_map,hkind,←walk.getLast,Option.map_eq_some_iff]
  cases kinds.getLast? with
  | none => simp
  | some k =>
    simp only [Option.some.injEq,exists_eq_left',Option.getD_some]
    exact ⟨fun hname => StateKind.name_injective hname,fun hk => by rw [hk]; rfl⟩

theorem ids_nodup (spec : WorkflowSpec) : spec.ids.Nodup := List.nodup_attach.mpr spec.wellNamed.idsNodup

/-- The log of a reached state shows one running task for each unjoined body. -/
theorem length_runningTasks (m : Moment host ex spec) :
    (runningTasks spec m.log).length=m.state.bodies.length := by
  have hi := execInv_of_run m.reached
  obtain ⟨moves,hexplains⟩ := explains_of_run m.reached
  have hledger := (history_of_moves hexplains.run).1
  have hnodup : (runningTasks spec m.log).Nodup := (ids_nodup spec).filter _
  have hperm : (runningTasks spec m.log).Perm (m.state.bodies.map Body.task) := by
    refine (List.perm_ext_iff_of_nodup hnodup hi.tasks).mpr fun t => ?_
    rw [mem_runningTasks,Moment.log,last_running_iff hledger,hi.running]
  rw [hperm.length_eq,List.length_map]

/-- Events other than starts add no running task. -/
theorem runningTasks_quiet (log new : List WorkflowEvent) (h : ∀ e∈new, e.state≠"running") :
    (runningTasks spec (log++new)).length ≤ (runningTasks spec log).length := by
  refine List.Sublist.length_le (List.monotone_filter_right spec.ids fun t ht => ?_)
  rw [decide_eq_true_eq] at ht ⊢
  have hsplit : trailOf t (log++new)=trailOf t log++trailOf t new := by
    simp only [trailOf,trail,List.filter_append,List.map_append]
  rw [hsplit,List.getLast?_append,Option.or_eq_some_iff] at ht
  rcases ht with ht|⟨-,ht⟩
  · obtain ⟨e,he,-,hname⟩ := mem_trail.mp (List.mem_of_getLast? ht)
    exact absurd hname (h e he)
  · exact ht

/-- The log only grows. -/
theorem events_grow {s u : State spec} {acts : List (Action spec)} (hi : ExecInv host ex s)
    (h : runs (step host ex) s acts=some u) :
    s.recorder.ledger.events<+:u.recorder.ledger.events := by
  have hall := run_invariant (I:=fun v => ExecInv host ex v ∧
    s.recorder.ledger.events<+:v.recorder.ledger.events) ⟨hi,List.prefix_refl _⟩ ?_ h
  · exact hall.2
  · rintro v a w ⟨hv,hgrow⟩ hstep
    obtain ⟨moves,hmoves,-⟩ := step_moves hv hstep
    obtain ⟨new,hnew,-⟩ := events_of_moves hmoves
    refine ⟨hv.step hstep,hgrow.trans ?_⟩
    rw [hnew]
    exact List.prefix_append _ _

/-- Every prefix of the log shows at most as many running tasks as some state of
the run has unjoined bodies. -/
theorem prefix_counted {acts : List (Action spec)} {s : State spec}
    (h : runs (step host ex) (initial ex spec) acts=some s) :
    ∀ pre, pre<+:s.recorder.ledger.events → ∃ before after t, acts=before++after ∧
      runs (step host ex) (initial ex spec) before=some t ∧
      (runningTasks spec pre).length ≤ t.bodies.length := by
  refine history_invariant (I:=fun acts s => ∀ pre, pre<+:s.recorder.ledger.events →
    ∃ before after t, acts=before++after ∧ runs (step host ex) (initial ex spec) before=some t ∧
      (runningTasks spec pre).length ≤ t.bodies.length) ?_ ?_ h
  · intro pre hpre
    rw [List.prefix_nil.mp hpre]
    refine ⟨[],[],initial ex spec,rfl,rfl,?_⟩
    simp [runningTasks,trailOf]
  intro acts s a s' hs ih hstep pre hpre
  have hlater : pre<+:s.recorder.ledger.events → ∃ before after t, acts++[a]=before++after ∧
      runs (step host ex) (initial ex spec) before=some t ∧
      (runningTasks spec pre).length ≤ t.bodies.length := by
    intro hold
    obtain ⟨before,after,t,rfl,ht,hle⟩ := ih pre hold
    exact ⟨before,after++[a],t,by simp,ht,hle⟩
  have hs' := runs_concat_iff.mpr ⟨s,hs,hstep⟩
  rcases launch_or_quiet (execInv_of_run hs) hstep with ⟨-,t,rest,pc,rfl⟩|⟨-,-,new,hnew,hquiet⟩
  · have hlog : (launchStep host ex s t rest).recorder.ledger.events=s.recorder.ledger.events++
        [⟨s.recorder.ledger.seq+1,some t.1,TaskState.running.name⟩] := by simp [launchStep]
    rcases List.prefix_concat_iff.mp (hlog ▸ hpre) with heq|hold
    · refine ⟨acts++[a],[],_,by simp,hs',Nat.le_of_eq ?_⟩
      rw [heq,←hlog]
      exact length_runningTasks ⟨acts++[a],_,hs'⟩
    · exact hlater hold
  · rw [hnew] at hpre
    rcases List.prefix_or_prefix_of_prefix hpre (List.prefix_append _ new) with hold|⟨mid,rfl⟩
    · exact hlater hold
    · refine ⟨acts,[a],s,rfl,hs,?_⟩
      have hsub := (List.prefix_append_right_inj _).mp hpre
      rw [←length_runningTasks ⟨acts,s,hs⟩]
      exact runningTasks_quiet _ mid fun e he => hquiet e (hsub.subset he)

/-- Bodies in the join set either ended or did not. -/
theorem length_bodies (s : State spec) :
    (backlog s).length+(unended s.bodies).length=s.bodies.length := by
  have hsplit := List.length_eq_length_filter_add (fun b : Body spec => b.ended.isSome) (l:=s.bodies)
  simp only [Option.not_isSome] at hsplit
  rw [backlog,unended,hsplit]

/-- From a state with no more bodies than permits, a step keeps it so exactly
when what it starts is started in room. -/
theorem bounded_step_iff {s s' : State spec} {a : Action spec} (hi : ExecInv host ex s)
    (hle : s.bodies.length ≤ ex.config.maxParallel) (hstep : step host ex s a=some s') :
    s'.bodies.length ≤ ex.config.maxParallel ↔ StartsInRoom s a := by
  have hcount := length_bodies s
  have hp := hi.permits
  rcases launch_or_quiet hi hstep with ⟨rfl,t,rest,pc,rfl⟩|⟨-,hfewer,-⟩
  · have hgrown : (launchStep host ex s t rest).bodies.length=s.bodies.length+1 := by
      simp [launchStep]
    simp only [pc,held] at hp
    constructor
    · intro hbound t' rest' _ _
      omega
    · intro hroom
      have hb := hroom t rest rfl pc
      omega
  · refine ⟨fun _ t rest ha pc => ?_,fun _ => hfewer.trans hle⟩
    subst ha
    simp only [step,advanceStep,pc,Option.some.injEq] at hstep
    subst hstep
    simp only [launchStep,List.length_append,List.length_singleton] at hfewer
    omega

/-- The log of a run stays within the permits exactly when every start of the
run is made in room. -/
theorem logBounded_iff (m : Moment host ex spec) : LogBounded ex spec m.log ↔ AlwaysInRoom m := by
  have hguard := always_iff_guarded
    (I:=fun s => ExecInv host ex s ∧ s.bodies.length ≤ ex.config.maxParallel) (G:=StartsInRoom)
    ⟨ExecInv.initial spec,Nat.zero_le _⟩ (fun t a v ht hstep => ?_) m.reached
  · refine Iff.trans ?_ hguard
    constructor
    · intro hlog before after t hacts ht
      have hran := m.reached
      rw [hacts] at hran
      obtain ⟨t',ht',hrest⟩ := runs_append_iff.mp hran
      rw [ht] at ht'
      cases ht'
      have hi := execInv_of_run ht
      refine ⟨hi,?_⟩
      rw [←length_runningTasks ⟨before,t,ht⟩]
      exact hlog _ (events_grow hi hrest)
    · intro hall pre hpre
      obtain ⟨before,after,t,hacts,ht,hle⟩ := prefix_counted m.reached pre hpre
      exact hle.trans (hall before after t hacts ht).2
  · rw [←bounded_step_iff ht.1 ht.2 hstep]
    exact ⟨fun h => h.2,fun h => ⟨ht.1.step hstep,h⟩⟩

/-- The end of the workflow is no task's event. -/
theorem logBounded_finished (log : List WorkflowEvent) (n : ℕ) :
    LogBounded ex spec (log++[⟨n,none,"finished"⟩]) ↔ LogBounded ex spec log := by
  constructor
  · exact fun h pre hpre => h pre (hpre.trans (List.prefix_append _ _))
  · intro h pre hpre
    rcases List.prefix_concat_iff.mp hpre with rfl|hold
    · refine le_trans (runningTasks_quiet log _ fun e he => ?_) (h log (List.prefix_refl _))
      rw [List.mem_singleton.mp he]
      exact show "finished"≠"running" by decide
    · exact h pre hold

/-- At every moment of a run, and for the report of a finished one, no prefix of
the log shows more running tasks than there are permits exactly when no start
was made behind a backlog larger than the permits still free. -/
theorem running_bounded_iff (host : Host) (ex : WorkflowExecutor) (spec : WorkflowSpec) :
    (∀ m : Moment host ex spec, LogBounded ex spec m.log ↔ AlwaysInRoom m) ∧
      ∀ r : FinishedRun host ex spec,
        LogBounded ex spec r.report.events ↔ AlwaysInRoom (lastMoment r) := by
  refine ⟨logBounded_iff,fun r => ?_⟩
  rw [r.events_eq,logBounded_finished]
  exact logBounded_iff (lastMoment r)

/-- A graph of two tasks without predecessors. -/
def twoTasks : WorkflowSpec where
  tasks := [⟨⟨"a"⟩,[],{}⟩,⟨⟨"b"⟩,[],{}⟩]
  wellNamed := by constructor <;> simp
  depsKnown := by simp
  ordered := ⟨[⟨"a"⟩,⟨"b"⟩],by simp,by simp⟩

/-- Its first task. -/
def firstTask : twoTasks.Task := ⟨⟨"a"⟩,by simp [WorkflowSpec.taskIds,twoTasks]⟩

/-- Its second task. -/
def secondTask : twoTasks.Task := ⟨⟨"b"⟩,by simp [WorkflowSpec.taskIds,twoTasks]⟩

/-- How a body succeeds. -/
def succeeds : BodyEnd := .finish (.outcome (.completed .null))

/-- With one permit the first body ends while the start pass is still going on,
so the second task starts before the first is joined. -/
def overtakingRun : List (Action twoTasks) :=
  [.advance,.advance,.advance,.advance,.advance,.bodyEnds firstTask succeeds,.advance,.advance,
    .advance,.advance,.advance,.wakeJoin 0,.advance,.advance,.advance,.advance,.advance,.advance,
    .bodyEnds secondTask succeeds,.wakeJoin 1,.advance,.advance,.advance,.advance,.advance,.advance,
    .advance]

/-- Two tasks in the running state under one permit. -/
theorem two_running_one_permit :
    ¬∀ r : FinishedRun stillHost onePermit twoTasks, LogBounded onePermit twoTasks r.report.events := by
  intro hall
  have hbound := hall (FinishedRun.ofActions stillHost onePermit overtakingRun rfl) _
    (List.take_prefix 4 _)
  exact absurd hbound (show ¬2 ≤ 1 by decide)

end AegisRuntime.WorkflowPermits
