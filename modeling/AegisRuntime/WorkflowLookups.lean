import AegisRuntime.WorkflowMaps
import AegisRuntime.WorkflowPermits

/-!
# No lookup of the executor fails

The executor over its maps does what the executor over tasks does, so on a graph
that was built none of its lookups fails: names come from the graph, every
declared predecessor is one of them, entries are written and never removed, and a
started body stays tracked until it is joined. Whenever the coordinator waits, its
four views of what runs have the same size.
-/

namespace AegisRuntime.WorkflowLookups

open LabelledRuns KeyedTables FailureRecords WorkflowGraph WorkflowLedger WorkflowCoordinator
open WorkflowSteps WorkflowRuns WorkflowPermits
open WorkflowMaps (TaskMap MapLedger MapRecorder MapReport MapBody MapPc MapState MapAction nodeOf
  mapStep mapInitial orPanic)

variable {spec : WorkflowSpec} {host : Host} {ex : WorkflowExecutor}

/-- The maps hold what the ledger holds, under the names of the tasks. -/
structure Mirrors (m : MapRecorder) (rec : Recorder spec) : Prop where
  /-- The counters agree. -/
  seq : m.ledger.seq=rec.ledger.seq
  /-- Every task has its state under its name. -/
  states : ∀ t : spec.Task, m.stateOf t.1=some (rec.stateOf t)
  /-- No other name has a state. -/
  domain : ∀ id s, m.stateOf id=some s → id∈spec.taskIds
  /-- Results agree. -/
  results : ∀ t : spec.Task, m.ledger.results.get t.1=rec.ledger.results t
  /-- Failure records agree. -/
  failures : ∀ t : spec.Task, m.ledger.failures.get t.1=rec.ledger.failures t
  /-- The logs agree. -/
  events : m.ledger.events=rec.ledger.events
  /-- The buses agree. -/
  bus : m.bus=rec.bus
  /-- The runs agree. -/
  runId : m.runId=rec.runId
  /-- The sessions agree. -/
  sessionId : m.sessionId=rec.sessionId

section Recording

/-- Names of tasks are looked up as they were put in. -/
theorem get_pending {ids : List TaskId} {m : TaskMap TaskState} (id : TaskId) :
    (ids.foldl (fun states id => states.put id .pending) m).get id=
      if id∈ids then some .pending else m.get id := by
  induction ids generalizing m with
  | nil => simp
  | cons k ids ih =>
    rw [List.foldl_cons,ih,TaskMap.get_put]
    by_cases hk : k=id
    · simp [hk]
    · simp [hk,Ne.symm hk]

/-- Before the first transition every name, and no other, is pending. -/
theorem Mirrors.start (spec : WorkflowSpec) (hasBus : Bool) (runId sessionId : String) :
    Mirrors (MapRecorder.start (spec.tasks.map TaskNode.id) hasBus runId sessionId)
      (Recorder.start spec hasBus runId sessionId) := by
  refine ⟨rfl,fun t => ?_,fun id s h => ?_,fun _ => rfl,fun _ => rfl,rfl,rfl,rfl,rfl⟩
  · rw [MapRecorder.stateOf,MapRecorder.start,get_pending,if_pos (show t.1∈spec.tasks.map TaskNode.id from t.2)]
    rfl
  · rw [MapRecorder.stateOf,MapRecorder.start,get_pending] at h
    split at h
    · assumption
    · rw [TaskMap.get_empty] at h
      cases h

variable {m : MapRecorder} {rec : Recorder spec}

/-- A write under a task's name is an update of the task. -/
theorem get_put_task {β : Type} {entries : TaskMap β} {f : spec.Task → Option β}
    (h : ∀ t : spec.Task, entries.get t.1=f t) (t : spec.Task) (v : β) (u : spec.Task) :
    (entries.put t.1 v).get u.1=Function.update f t (some v) u := by
  rw [TaskMap.get_put,Function.update_apply,h u]
  simp only [Subtype.ext_iff,eq_comm]

/-- The bus events of a transition agree. -/
theorem Mirrors.eventFor (h : Mirrors m rec) (seq : ℕ) (t : spec.Task) (state : TaskState)
    (result : Option ResultHandle) : m.eventFor seq t.1 state result=rec.eventFor seq t state result := by
  cases state <;> simp [MapRecorder.eventFor,Recorder.eventFor,h.runId]

/-- Publishing the same event keeps the recorders alike. -/
theorem Mirrors.publish (h : Mirrors m rec) (event : AegisEvent) (seq : ℕ) :
    Mirrors (m.publish host event seq) (rec.publish host event seq) := by
  refine {h with bus := ?_}
  simp only [MapRecorder.publish,Recorder.publish,Recorder.envelope,h.bus,h.runId,h.sessionId]

/-- Storing the same state, results that agree and the same event does too. -/
theorem Mirrors.store (h : Mirrors m rec) (t : spec.Task) (state : TaskState)
    {entries : TaskMap ResultHandle} {results : spec.Task → Option ResultHandle}
    (hresults : ∀ u : spec.Task, entries.get u.1=results u) :
    Mirrors {m with ledger := ⟨rec.ledger.seq+1,m.ledger.states.put t.1 state,entries,
      m.ledger.failures,m.ledger.events++[⟨rec.ledger.seq+1,some t.1,state.name⟩]⟩}
      {rec with ledger := ⟨rec.ledger.seq+1,Function.update rec.ledger.states t state,results,
        rec.ledger.failures,rec.ledger.events++[⟨rec.ledger.seq+1,some t.1,state.name⟩]⟩} := by
  refine ⟨rfl,fun u => ?_,fun id s hs => ?_,hresults,h.failures,?_,h.bus,h.runId,h.sessionId⟩
  · have hu := h.states u
    simp only [MapRecorder.stateOf,Recorder.stateOf] at hu ⊢
    rw [TaskMap.get_put,Function.update_apply,hu]
    simp only [Subtype.ext_iff,eq_comm (a:=u.1)]
    split <;> rfl
  · have hid := h.domain id
    simp only [MapRecorder.stateOf] at hs hid
    rw [TaskMap.get_put] at hs
    split at hs
    · next hk => exact hk ▸ t.2
    · exact hid s hs
  · simp only [h.events]

/-- So does entering the same state. -/
theorem Mirrors.transition (h : Mirrors m rec) (host : Host) (t : spec.Task) (state : TaskState)
    (result : Option ResultHandle) :
    Mirrors (m.transition host t.1 state result) (rec.transition host t state result) := by
  simp only [MapRecorder.transition,Recorder.transition]
  rw [h.seq,h.eventFor]
  cases result with
  | none =>
    have hstored := h.store t state h.results
    cases rec.eventFor (rec.ledger.seq+1) t state none with
    | none => exact hstored
    | some e => exact hstored.publish e _
  | some r =>
    have hstored := h.store t state (get_put_task h.results t r)
    cases rec.eventFor (rec.ledger.seq+1) t state (some r) with
    | none => exact hstored
    | some e => exact hstored.publish e _

theorem Mirrors.noteFailure (h : Mirrors m rec) (t : spec.Task) (f : FailureRecord) :
    Mirrors (m.noteFailure t.1 f) (rec.noteFailure t f) :=
  {h with failures := get_put_task h.failures t f}

/-- Failure records made now are the same. -/
theorem Mirrors.failure (h : Mirrors m rec) (t : spec.Task) (cls : FailureClass)
    (certainty : EffectCertainty) (message : String) :
    WorkflowMaps.failure host ex m t.1 cls certainty message=
      WorkflowCoordinator.failure host ex rec t cls certainty message := by
  simp only [WorkflowMaps.failure,WorkflowCoordinator.failure,MapRecorder.nextFailureSeq,
    Recorder.nextFailureSeq,h.seq]

theorem Mirrors.recordEnd (h : Mirrors m rec) (host : Host) (t : spec.Task) (f : FailureRecord)
    (state : TaskState) : Mirrors (WorkflowMaps.recordEnd host m t.1 f state)
      (WorkflowCoordinator.recordEnd host rec t f state) :=
  (h.noteFailure t f).transition host t state none

/-- Every task has its node under its name. -/
theorem nodeOf_task (t : spec.Task) : nodeOf spec.tasks t.1=some (spec.node t) :=
  (Option.some_get (spec.node_isSome t)).symm

/-- The names of the predecessors are the declared ones. -/
theorem deps_names (t : spec.Task) : (spec.deps t).map Subtype.val=(spec.node t).deps := by
  rw [WorkflowSpec.deps,List.map_map]
  exact List.attach_map_subtype_val _

theorem ids_names : spec.ids.map Subtype.val=spec.tasks.map TaskNode.id :=
  List.attach_map_subtype_val _

/-- Loops over names do what loops over tasks do when their bodies do. -/
theorem foldlM_names {σ τ : Type} {R : σ → τ → Prop} {f : σ → TaskId → Option σ}
    {g : τ → spec.Task → τ} (h : ∀ x y t, R x y → ∃ x', f x t.1=some x' ∧ R x' (g y t))
    (ts : List spec.Task) {x : σ} {y : τ} (hxy : R x y) :
    ∃ x', (ts.map Subtype.val).foldlM f x=some x' ∧ R x' (ts.foldl g y) := by
  induction ts generalizing x y with
  | nil => exact ⟨x,rfl,hxy⟩
  | cons t ts ih =>
    obtain ⟨x',hx',hr⟩ := h x y t hxy
    obtain ⟨x'',hx'',hr'⟩ := ih hr
    refine ⟨x'',?_,hr'⟩
    rw [List.map_cons,List.foldlM_cons,hx']
    exact hx''

/-- A visit of `cancel_open` finds what it looks up. -/
theorem Mirrors.cancelVisit (h : Mirrors m rec) (t : spec.Task) :
    ∃ m', WorkflowMaps.cancelVisit host ex spec.tasks m t.1=some m' ∧
      Mirrors m' (WorkflowCoordinator.cancelVisit host ex rec t) := by
  have hstate := h.states t
  unfold WorkflowMaps.cancelVisit WorkflowCoordinator.cancelVisit
  cases hs : rec.stateOf t with
  | pending | ready =>
    simp only [hstate,hs,cancelReason,h.failure]
    exact ⟨_,rfl,h.recordEnd host t _ _⟩
  | waitingForApproval =>
    simp only [hstate,hs,cancelReason,h.failure,nodeOf_task,Option.map_some]
    exact ⟨_,rfl,h.recordEnd host t _ _⟩
  | _ =>
    simp only [hstate,hs,cancelReason]
    exact ⟨m,rfl,h⟩

theorem Mirrors.cancelOpen (h : Mirrors m rec) (host : Host) (ex : WorkflowExecutor) :
    ∃ m', WorkflowMaps.cancelOpen host ex spec.tasks m=some m' ∧
      Mirrors m' (WorkflowCoordinator.cancelOpen host ex rec) := by
  rw [WorkflowMaps.cancelOpen,←ids_names]
  exact foldlM_names (fun _ _ t hm => hm.cancelVisit t) spec.ids h

/-- The search for a bad predecessor finds every state it looks up. -/
theorem Mirrors.firstBad (h : Mirrors m rec) (deps : List spec.Task) :
    WorkflowMaps.firstBad m (deps.map Subtype.val)=
      some ((deps.find? fun d => endedBadly (rec.stateOf d)).map Subtype.val) := by
  induction deps with
  | nil => rfl
  | cons d deps ih =>
    rw [List.map_cons,WorkflowMaps.firstBad,h.states d,List.find?_cons]
    cases hbad : endedBadly (rec.stateOf d) with
    | true => simp [hbad]
    | false => simpa [hbad] using ih

theorem Mirrors.allCompleted (h : Mirrors m rec) (deps : List spec.Task) :
    WorkflowMaps.allCompleted m (deps.map Subtype.val)=
      some (deps.all fun d => decide (rec.stateOf d=.completed)) := by
  induction deps with
  | nil => rfl
  | cons d deps ih =>
    rw [List.map_cons,WorkflowMaps.allCompleted,h.states d,List.all_cons]
    by_cases hd : rec.stateOf d=.completed
    · simp only [hd,if_true,decide_true,Bool.true_and,ih]
    · simp only [hd,if_false,decide_false,Bool.false_and]

/-- Passes of `propagate` over maps and over tasks agree. -/
def PassMirrors (x : MapRecorder×Bool) (y : Recorder spec×Bool) : Prop := Mirrors x.1 y.1 ∧ x.2=y.2

/-- A visit of `propagate` finds what it looks up. -/
theorem PassMirrors.visit {x : MapRecorder×Bool} {y : Recorder spec×Bool} (h : PassMirrors x y)
    (t : spec.Task) : ∃ x', WorkflowMaps.propagateVisit host ex spec.tasks x t.1=some x' ∧
      PassMirrors x' (WorkflowCoordinator.propagateVisit host ex y t) := by
  unfold WorkflowMaps.propagateVisit WorkflowCoordinator.propagateVisit
  simp only [h.1.states t,nodeOf_task,←deps_names,h.1.firstBad,h.1.allCompleted,Option.map_some]
  by_cases hp : y.1.stateOf t=.pending
  · simp only [hp,ne_eq,not_true_eq_false,if_false]
    cases (spec.deps t).find? fun d => endedBadly (y.1.stateOf d) with
    | some bad =>
      simp only [Option.map_some,h.1.failure]
      have hend := h.1.recordEnd host t (WorkflowCoordinator.failure host ex y.1 t .rejected
        .noEffect ("prerequisite failed: "++bad.1.asStr)) (.skipped bad.1)
      exact ⟨_,rfl,hend,rfl⟩
    | none =>
      simp only [Option.map_none]
      split
      · have hready := h.1.transition host t .ready none
        exact ⟨_,rfl,hready,rfl⟩
      · exact ⟨_,rfl,h⟩
  · simp only [hp,ne_eq,not_false_eq_true,if_true]
    exact ⟨x,rfl,h⟩

theorem Mirrors.propagatePass (h : Mirrors m rec) (host : Host) (ex : WorkflowExecutor) :
    ∃ x, WorkflowMaps.propagatePass host ex spec.tasks m=some x ∧
      PassMirrors x (WorkflowCoordinator.propagatePass host ex rec) := by
  rw [WorkflowMaps.propagatePass,←ids_names]
  exact foldlM_names (fun _ _ t hx => hx.visit t) spec.ids (show PassMirrors (m,false) (rec,false) from ⟨h,rfl⟩)

theorem Mirrors.propagateLoop (fuel : ℕ) (h : Mirrors m rec) :
    ∃ m', WorkflowMaps.propagateLoop host ex spec.tasks fuel m=some m' ∧
      Mirrors m' (WorkflowCoordinator.propagateLoop host ex fuel rec) := by
  induction fuel generalizing m rec with
  | zero => exact ⟨m,rfl,h⟩
  | succ fuel ih =>
    obtain ⟨x,hx,hpass⟩ := h.propagatePass host ex
    rw [WorkflowMaps.propagateLoop,WorkflowCoordinator.propagateLoop,hx]
    simp only [hpass.2]
    split
    · exact ih hpass.1
    · exact ⟨x.1,rfl,hpass.1⟩

theorem Mirrors.propagate (h : Mirrors m rec) (host : Host) (ex : WorkflowExecutor) :
    ∃ m', WorkflowMaps.propagate host ex spec.tasks m=some m' ∧
      Mirrors m' (WorkflowCoordinator.propagate host ex rec) :=
  h.propagateLoop _

theorem Mirrors.settleJoined (h : Mirrors m rec) (t : spec.Task) (e : BodyEnd) :
    Mirrors (WorkflowMaps.settleJoined host ex m t.1 (spec.node t).runner.certaintyOnInterrupt e)
      (WorkflowCoordinator.settleJoined host ex rec t e) := by
  rcases e with ((_|_|_|_)|_|_)|_ <;>
    simp only [WorkflowMaps.settleJoined,WorkflowCoordinator.settleJoined,WorkflowMaps.settle,
      WorkflowCoordinator.settle,h.failure] <;>
    first | exact h.transition host t _ _ | exact h.recordEnd host t _ _

/-- Reading a report off the maps finds every name. -/
theorem Mirrors.unfinishedOf (h : Mirrors m rec) (ts : List spec.Task) :
    WorkflowMaps.unfinishedOf m (ts.map Subtype.val)=
      some ((ts.filter fun t => !(rec.stateOf t).isTerminal).map Subtype.val) := by
  induction ts with
  | nil => rfl
  | cons t ts ih =>
    rw [List.map_cons,WorkflowMaps.unfinishedOf,h.states t,List.filter_cons]
    simp only [ih,Option.map_some]
    cases (rec.stateOf t).isTerminal <;> rfl

/-- The values of the state map are the states of the tasks. -/
theorem Mirrors.mem_values (h : Mirrors m rec) (s : TaskState) :
    (∃ entry∈m.ledger.states.rows, entry.2=s) ↔ ∃ t, rec.stateOf t=s := by
  have hvalues := TaskMap.mem_values m.ledger.states (v:=s)
  rw [List.mem_map] at hvalues
  rw [hvalues]
  constructor
  · rintro ⟨id,hid⟩
    have ht := h.states ⟨id,h.domain id s hid⟩
    rw [MapRecorder.stateOf,hid] at ht
    exact ⟨_,(Option.some.inj ht).symm⟩
  · rintro ⟨t,rfl⟩
    exact ⟨t.1,h.states t⟩

theorem Mirrors.reportStatus (h : Mirrors m rec) (cancelled : Bool) :
    WorkflowMaps.reportStatus m cancelled=WorkflowCoordinator.reportStatus rec cancelled := by
  have hwaiting : (m.ledger.states.rows.any fun entry => decide (entry.2=.waitingForApproval))=
      spec.ids.any fun t => decide (rec.stateOf t=.waitingForApproval) := by
    rw [Bool.eq_iff_iff,List.any_eq_true,List.any_eq_true]
    simpa using h.mem_values .waitingForApproval
  have hdone : (m.ledger.states.rows.all fun entry => decide (entry.2=.completed))=
      spec.ids.all fun t => decide (rec.stateOf t=.completed) := by
    rw [Bool.eq_iff_iff,List.all_eq_true,List.all_eq_true]
    simp only [decide_eq_true_eq]
    constructor
    · intro hall t _
      obtain ⟨entry,hentry,hs⟩ := (h.mem_values _).mpr ⟨t,rfl⟩
      rw [←hs,hall entry hentry]
    · intro hall entry hentry
      obtain ⟨t,ht⟩ := (h.mem_values _).mp ⟨entry,hentry,rfl⟩
      rw [←ht,hall t (spec.mem_ids t)]
  rw [WorkflowMaps.reportStatus,WorkflowCoordinator.reportStatus,hwaiting,hdone]

theorem Mirrors.finish (h : Mirrors m rec) (host : Host) (status : WorkflowStatus) :
    Mirrors (m.finish host status) (rec.finish host status) := by
  have hstored : Mirrors
      {m with ledger := {m.ledger with seq := m.ledger.seq+1,
                                       events := m.ledger.events++[⟨m.ledger.seq+1,none,"finished"⟩]}}
      {rec with ledger := {rec.ledger with
                                       seq := rec.ledger.seq+1,
                                       events := rec.ledger.events++[⟨rec.ledger.seq+1,none,"finished"⟩]}} :=
    {h with
      seq := congrArg (·+1) h.seq
      events := by simp only [h.events,h.seq]}
  simp only [MapRecorder.finish,Recorder.finish]
  rw [h.seq,h.runId]
  rw [h.seq,h.runId] at hstored
  exact hstored.publish _ _

/-- A report read off the maps says what the report of the run says. -/
structure ReportMirrors (r : MapReport) (rep : WorkflowReport spec) : Prop where
  /-- The outcomes agree. -/
  status : r.status=rep.status
  /-- The final states agree. -/
  states : ∀ t : spec.Task, r.ledger.states.get t.1=some (rep.snapshot.states t)
  /-- The results agree. -/
  results : ∀ t : spec.Task, r.ledger.results.get t.1=rep.snapshot.results t
  /-- The failure records agree. -/
  failures : ∀ t : spec.Task, r.ledger.failures.get t.1=rep.failures t
  /-- The last numbers agree. -/
  lastSeq : r.ledger.seq=rep.snapshot.lastSeq
  /-- The unfinished tasks agree. -/
  unfinished : r.unfinished=rep.unfinished.map Subtype.val
  /-- The logs agree. -/
  events : r.ledger.events=rep.events
  /-- The peaks agree. -/
  peakConcurrency : r.peakConcurrency=rep.peakConcurrency
  /-- The verdicts on the budget agree. -/
  budgetExhausted : r.budgetExhausted=rep.budgetExhausted

/-- Reporting finds every name it looks up. -/
theorem Mirrors.report (h : Mirrors m rec) (host : Host) (peak : ℕ) (budgetExhausted cancelled : Bool) :
    ∃ r, WorkflowMaps.report host (spec.tasks.map TaskNode.id) m peak budgetExhausted cancelled=some r ∧
      ReportMirrors r (WorkflowCoordinator.report host rec peak budgetExhausted cancelled).2 := by
  have hdone := h.finish host (WorkflowCoordinator.reportStatus rec cancelled)
  rw [WorkflowMaps.report,←ids_names,h.unfinishedOf,h.reportStatus]
  exact ⟨_,rfl,rfl,hdone.states,hdone.results,hdone.failures,hdone.seq,rfl,hdone.events,rfl,rfl⟩

end Recording

/-- A body under the name of its task. -/
def nameBody (b : Body spec) : MapBody := ⟨b.joinId,b.task.1,b.ended⟩

/-- A tracked identifier with the name of its task. -/
def nameEntry (entry : ℕ×spec.Task) : ℕ×TaskId := (entry.1,entry.2.1)

/-- The coordinators stand at the same place. -/
inductive PcMirrors : MapPc → Pc spec → Prop where
  /-- Before the deadline check of the loop head. -/
  | loopHead : PcMirrors .loopHead .loopHead
  /-- Before the token checks of the loop head. -/
  | cancelCheck : PcMirrors .cancelCheck .cancelCheck
  /-- In the start pass. -/
  | startPass (rest : List spec.Task) : PcMirrors (.startPass (rest.map Subtype.val)) (.startPass rest)
  /-- Before taking a permit for a task. -/
  | acquire (t : spec.Task) (rest : List spec.Task) :
    PcMirrors (.acquire t.1 (rest.map Subtype.val)) (.acquire t rest)
  /-- Holding the permit of a task that is about to be spawned. -/
  | launch (t : spec.Task) (rest : List spec.Task) :
    PcMirrors (.launch t.1 (rest.map Subtype.val)) (.launch t rest)
  /-- After the start pass. -/
  | liveCheck : PcMirrors .liveCheck .liveCheck
  /-- Waiting. -/
  | select : PcMirrors .select .select
  /-- After the loop. -/
  | exit : PcMirrors .exit .exit
  /-- The run returned the same report. -/
  | returned (r : MapReport) (done : Recorder spec) (rep : WorkflowReport spec)
    (same : ReportMirrors r rep) : PcMirrors (.returned r) (.returned done rep)

/-- The state over maps that stands at the given place with the given recorder and
is otherwise the given one, tasks under their names. -/
def named (pc : MapPc) (m : MapRecorder) (s : State spec) : MapState :=
  ⟨pc,m,s.bodies.map nameBody,s.byJoinId.map nameEntry,s.live,s.peak,s.available,s.callerCancelled,
    s.runCancelled,s.expired,s.cancelSeen,s.budgetExhausted,s.nextJoin⟩

/-- A run over maps stands where a run over tasks stands: place and recorder are
mirrored, everything else is the same. -/
def StateMirrors (M : MapState) (s : State spec) : Prop :=
  ∃ pc m, M=named pc m s ∧ PcMirrors pc s.pc ∧ Mirrors m s.recorder

theorem StateMirrors.initial (ex : WorkflowExecutor) (spec : WorkflowSpec) :
    StateMirrors (mapInitial ex spec.tasks) (WorkflowCoordinator.initial ex spec) :=
  ⟨_,_,rfl,PcMirrors.loopHead,Mirrors.start spec ex.hasBus ex.config.runId ex.config.sessionId⟩

section Steps

variable {pc : MapPc} {m : MapRecorder} {s : State spec}

/-- The deadline check looks nothing up. -/
theorem mirrors_headStep (h : Mirrors m s.recorder) :
    StateMirrors (WorkflowMaps.headStep (named pc m s)) (headStep s) := by
  cases hb : s.budgetExhausted <;> cases he : s.expired <;>
    simp only [WorkflowMaps.headStep,headStep,named,hb,he] <;>
    exact ⟨_,_,rfl,PcMirrors.cancelCheck,h⟩

/-- The token checks find whatever `cancel_open` and `propagate` look up. -/
theorem mirrors_checkStep (h : Mirrors m s.recorder) :
    StateMirrors (WorkflowMaps.checkStep host ex spec.tasks (named pc m s)) (checkStep host ex s) := by
  obtain ⟨m₁,hm₁,hcancel⟩ := h.cancelOpen host ex
  obtain ⟨m₂,hm₂,hpropagate⟩ := h.propagate host ex
  have hplace : PcMirrors (.startPass (spec.tasks.map TaskNode.id)) (.startPass spec.ids) :=
    ids_names ▸ PcMirrors.startPass spec.ids
  cases hc : s.callerCancelled <;> cases hr : s.runCancelled <;> cases hseen : s.cancelSeen <;>
    simp only [WorkflowMaps.checkStep,checkStep,named,hc,hr,hseen,orPanic,hm₁,hm₂,Bool.not_false,
      Bool.not_true,Bool.and_true,Bool.and_false,if_true,Bool.false_eq_true,if_false] <;>
    first
    | exact ⟨_,_,rfl,PcMirrors.liveCheck,hcancel⟩
    | exact ⟨_,_,rfl,PcMirrors.liveCheck,h⟩
    | exact ⟨.startPass (spec.tasks.map TaskNode.id),m₂,rfl,hplace,hpropagate⟩

/-- The start pass finds the state of its next task. -/
theorem mirrors_passStep (h : Mirrors m s.recorder) (rest : List spec.Task) :
    StateMirrors (WorkflowMaps.passStep (named pc m s) (rest.map Subtype.val)) (passStep s rest) := by
  cases rest with
  | nil => exact ⟨_,_,rfl,PcMirrors.liveCheck,h⟩
  | cons t rest =>
    have hstate : (named pc m s).recorder.stateOf t.1=some (s.recorder.stateOf t) := h.states t
    rw [List.map_cons,WorkflowMaps.passStep,passStep,hstate,orPanic]
    by_cases hready : s.recorder.stateOf t≠.ready
    · rw [if_pos hready,if_pos hready]
      exact ⟨_,_,rfl,PcMirrors.startPass rest,h⟩
    rw [if_neg hready,if_neg hready]
    by_cases hstop : (s.callerCancelled || s.runCancelled || s.expired)=true
    · rw [if_pos hstop,if_pos (show ((named pc m s).callerCancelled || (named pc m s).runCancelled ||
        (named pc m s).expired)=true from hstop)]
      exact ⟨_,_,rfl,PcMirrors.loopHead,h⟩
    · rw [if_neg hstop,if_neg (show ¬((named pc m s).callerCancelled || (named pc m s).runCancelled ||
        (named pc m s).expired)=true from hstop)]
      exact ⟨_,_,rfl,PcMirrors.acquire t rest,h⟩

theorem mirrors_acquireStep (h : Mirrors m s.recorder) (t : spec.Task) (rest : List spec.Task) :
    StateMirrors (WorkflowMaps.acquireStep (named pc m s) t.1 (rest.map Subtype.val))
      (acquireStep s t rest) := by
  rw [WorkflowMaps.acquireStep,acquireStep]
  by_cases hnone : s.available=0
  · rw [if_pos hnone,if_pos (show (named pc m s).available=0 from hnone)]
    exact ⟨_,_,rfl,PcMirrors.liveCheck,h⟩
  · rw [if_neg hnone,if_neg (show ¬(named pc m s).available=0 from hnone)]
    exact ⟨_,_,rfl,PcMirrors.launch t rest,h⟩

/-- A launch finds the node of its task. -/
theorem mirrors_launchStep (h : Mirrors m s.recorder) (t : spec.Task) (rest : List spec.Task) :
    StateMirrors (WorkflowMaps.launchStep host ex spec.tasks (named pc m s) t.1 (rest.map Subtype.val))
      (launchStep host ex s t rest) := by
  have hnamed : WorkflowMaps.launchStep host ex spec.tasks (named pc m s) t.1 (rest.map Subtype.val)=
      named (.startPass (rest.map Subtype.val)) (m.transition host t.1 .running none)
        (launchStep host ex s t rest) := by
    simp only [WorkflowMaps.launchStep,nodeOf_task,orPanic,named,launchStep,List.map_append]
    rfl
  exact ⟨_,_,hnamed,PcMirrors.startPass rest,h.transition host t .running none⟩

/-- Leaving the loop finds whatever `cancel_open` and `report` look up. -/
theorem mirrors_exitStep (h : Mirrors m s.recorder) :
    StateMirrors (WorkflowMaps.exitStep host ex spec.tasks (named pc m s)) (exitStep host ex s) := by
  cases hseen : s.cancelSeen with
  | true =>
    obtain ⟨m',hm',hrec⟩ := h.cancelOpen host ex
    obtain ⟨r,hr,hreport⟩ := hrec.report host s.peak s.budgetExhausted true
    simp only [WorkflowMaps.exitStep,exitStep,named,hseen,if_true,hm',orPanic,hr]
    exact ⟨_,_,rfl,PcMirrors.returned r _ _ hreport,hrec⟩
  | false =>
    obtain ⟨r,hr,hreport⟩ := h.report host s.peak s.budgetExhausted false
    simp only [WorkflowMaps.exitStep,exitStep,named,hseen,Bool.false_eq_true,if_false,orPanic,hr]
    exact ⟨_,_,rfl,PcMirrors.returned r _ _ hreport,h⟩

/-- The tracking map answers for names as it does for tasks. -/
theorem lookup_nameEntry (entries : List (ℕ×spec.Task)) (joinId : ℕ) :
    (entries.map nameEntry).lookup joinId=(entries.lookup joinId).map Subtype.val := by
  induction entries with
  | nil => rfl
  | cons entry entries ih =>
    rw [List.map_cons,List.lookup_cons,List.lookup_cons,ih]
    simp only [nameEntry]
    cases joinId==entry.1 <;> rfl

/-- A join finds its identifier and its node. -/
theorem mirrors_joinStep (h : Mirrors m s.recorder) (joinId : ℕ) (e : BodyEnd) {t : spec.Task}
    (tracked : s.byJoinId.lookup joinId=some t) :
    StateMirrors (WorkflowMaps.joinStep host ex spec.tasks (named pc m s) joinId e)
      (joinStep host ex s joinId e) := by
  have hnamed : WorkflowMaps.joinStep host ex spec.tasks (named pc m s) joinId e=
      named .loopHead (WorkflowMaps.settleJoined host ex m t.1
        (spec.node t).runner.certaintyOnInterrupt e) (joinStep host ex s joinId e) := by
    simp only [WorkflowMaps.joinStep,joinStep,named,lookup_nameEntry,tracked,Option.map_some,orPanic,
      nodeOf_task,List.filter_map]
    rfl
  refine ⟨_,_,hnamed,?_,?_⟩
  · simp only [joinStep,tracked]
    exact PcMirrors.loopHead
  · simp only [joinStep,tracked]
    exact h.settleJoined t e

/-- The coordinators wait together. -/
theorem waits_named (place : PcMirrors pc s.pc) (h : WorkflowMaps.waits (named pc m s)=true) :
    waits s=true := by
  rw [waits_eq_true_iff]
  generalize s.pc=p at place
  cases place <;> first | rfl | cases h

/-- A body that ends under its name ends as the body of its task. -/
theorem endBody_named (t : spec.Task) (e : BodyEnd) (bodies : List (Body spec)) :
    (bodies.map nameBody).map (WorkflowMaps.endBody t.1 e)=(bodies.map (endBody t e)).map nameBody := by
  rw [List.map_map,List.map_map]
  refine List.map_congr_left fun b _ => ?_
  simp only [Function.comp_apply,WorkflowMaps.endBody,endBody]
  by_cases hb : b.task=t ∧ b.ended.isNone=true
  · rw [if_pos hb,if_pos (show (nameBody b).task=t.1 ∧ (nameBody b).ended.isNone=true from
      hb.imp_left (congrArg Subtype.val))]
    rfl
  · rw [if_neg hb,if_neg (show ¬((nameBody b).task=t.1 ∧ (nameBody b).ended.isNone=true) from
      fun hc => hb (hc.imp_left Subtype.ext))]

/-- The join set answers for names as it does for tasks. -/
theorem find_named (bodies : List (Body spec)) (joinId : ℕ) :
    ((bodies.map nameBody).find? fun b => b.joinId=joinId).bind MapBody.ended=
      (bodies.find? fun b => b.joinId=joinId).bind Body.ended := by
  rw [List.find?_map,Option.bind_map]
  rfl

/-- A step of the coordinator by itself over maps is one over tasks. -/
theorem StateMirrors.advance {M M' : MapState} (h : StateMirrors M s)
    (hstep : mapStep host ex spec.tasks M .advance=some M') :
    ∃ s', step host ex s .advance=some s' ∧ StateMirrors M' s' := by
  obtain ⟨pc,m,rfl,place,hm⟩ := h
  generalize hs : s.pc=p at place
  cases place with
  | loopHead =>
    cases hstep
    exact ⟨_,by simp only [WorkflowCoordinator.step,advanceStep,hs],mirrors_headStep hm⟩
  | cancelCheck =>
    cases hstep
    exact ⟨_,by simp only [WorkflowCoordinator.step,advanceStep,hs],mirrors_checkStep hm⟩
  | startPass rest =>
    cases hstep
    exact ⟨_,by simp only [WorkflowCoordinator.step,advanceStep,hs],mirrors_passStep hm rest⟩
  | acquire t rest =>
    cases hstep
    exact ⟨_,by simp only [WorkflowCoordinator.step,advanceStep,hs],mirrors_acquireStep hm t rest⟩
  | launch t rest =>
    cases hstep
    exact ⟨_,by simp only [WorkflowCoordinator.step,advanceStep,hs],mirrors_launchStep hm t rest⟩
  | liveCheck =>
    cases hstep
    refine ⟨_,by simp only [WorkflowCoordinator.step,advanceStep,hs]; rfl,?_⟩
    by_cases hlive : s.live=0
    · rw [if_pos hlive,if_pos (show (named .liveCheck m s).live=0 from hlive)]
      exact ⟨_,_,rfl,PcMirrors.exit,hm⟩
    · rw [if_neg hlive,if_neg (show ¬(named .liveCheck m s).live=0 from hlive)]
      exact ⟨_,_,rfl,PcMirrors.select,hm⟩
  | exit =>
    cases hstep
    exact ⟨_,by simp only [WorkflowCoordinator.step,advanceStep,hs],mirrors_exitStep hm⟩
  | select | returned => cases hstep

/-- Every step over maps is one over tasks. -/
theorem StateMirrors.step {M M' : MapState} {a : MapAction} (h : StateMirrors M s)
    (hi : ExecInv host ex s) (hstep : mapStep host ex spec.tasks M a=some M') :
    ∃ a' s', step host ex s a'=some s' ∧ StateMirrors M' s' := by
  obtain ⟨pc,m,rfl,place,hm⟩ := h
  cases a with
  | cancelCaller =>
    cases hstep
    exact ⟨.cancelCaller,_,rfl,_,_,rfl,place,hm⟩
  | tripRunToken =>
    obtain ⟨hc,⟨⟩⟩ := Option.ite_none_right_eq_some.mp hstep
    exact ⟨.tripRunToken,_,if_pos hc,_,_,rfl,place,hm⟩
  | deadlinePasses =>
    obtain ⟨hc,⟨⟩⟩ := Option.ite_none_right_eq_some.mp hstep
    exact ⟨.deadlinePasses,_,if_pos hc,_,_,rfl,place,hm⟩
  | bodyEnds id e =>
    obtain ⟨hc,⟨⟩⟩ := Option.ite_none_right_eq_some.mp hstep
    obtain ⟨hruns,hpossible⟩ := (Bool.and_eq_true _ _).mp hc
    obtain ⟨b,hb,hends⟩ := List.any_eq_true.mp hruns
    obtain ⟨body,hbody,rfl⟩ := List.mem_map.mp hb
    simp only [Bool.and_eq_true,decide_eq_true_eq] at hends
    obtain ⟨rfl,hopen⟩ := hends
    have hruns' : bodyRuns s body.task=true :=
      List.any_eq_true.mpr ⟨body,hbody,by rw [decide_eq_true rfl,Bool.true_and]; exact hopen⟩
    have hpossible' : endPossible ex s e=true := by
      rw [←hpossible]
      rcases e with (_|_|_)|_ <;> rfl
    refine ⟨.bodyEnds body.task e,_,if_pos (by rw [hruns',hpossible']; rfl),pc,m,?_,place,hm⟩
    simp only [named,nameBody,MapState.mk.injEq,true_and,and_true]
    exact endBody_named body.task e s.bodies
  | advance =>
    obtain ⟨s',hs',hmirrors⟩ := StateMirrors.advance ⟨pc,m,rfl,place,hm⟩ hstep
    exact ⟨.advance,s',hs',hmirrors⟩
  | wakeCancel =>
    obtain ⟨hc,⟨⟩⟩ := Option.ite_none_right_eq_some.mp hstep
    simp only [Bool.and_eq_true] at hc
    have hwaits := waits_named place hc.1.1
    exact ⟨.wakeCancel,_,if_pos (by simp only [Bool.and_eq_true]; exact ⟨⟨hwaits,hc.1.2⟩,hc.2⟩),_,_,rfl,
      PcMirrors.loopHead,hm⟩
  | wakeDeadline =>
    obtain ⟨hc,⟨⟩⟩ := Option.ite_none_right_eq_some.mp hstep
    simp only [Bool.and_eq_true] at hc
    have hwaits := waits_named place hc.1.1
    exact ⟨.wakeDeadline,_,if_pos (by simp only [Bool.and_eq_true]; exact ⟨⟨hwaits,hc.1.2⟩,hc.2⟩),_,_,rfl,
      PcMirrors.loopHead,hm⟩
  | wakeJoin joinId =>
    obtain ⟨hc,hjoin⟩ := Option.ite_none_right_eq_some.mp hstep
    have hwaits := waits_named place hc
    obtain ⟨e,he,rfl⟩ := Option.map_eq_some_iff.mp hjoin
    have hjoinable : joinable s joinId=some e := (find_named s.bodies joinId).symm.trans he
    obtain ⟨b,hfound,-⟩ := Option.bind_eq_some_iff.mp hjoinable
    refine ⟨.wakeJoin joinId,_,?_,mirrors_joinStep hm joinId e (hi.joined hfound).1⟩
    simp only [WorkflowCoordinator.step,hwaits,if_true,hjoinable,Option.map_some]
  | wakeEmpty =>
    obtain ⟨hc,⟨⟩⟩ := Option.ite_none_right_eq_some.mp hstep
    simp only [Bool.and_eq_true] at hc
    have hwaits := waits_named place hc.1
    have hempty : s.bodies.isEmpty=true := by simpa [named] using hc.2
    exact ⟨.wakeEmpty,_,if_pos (by rw [hwaits,hempty]; rfl),_,_,rfl,PcMirrors.exit,hm⟩

end Steps

/-- Every run over maps is a run over tasks. -/
theorem mirrored_run {acts : List MapAction} {M : MapState}
    (h : runs (mapStep host ex spec.tasks) (mapInitial ex spec.tasks) acts=some M) :
    ∃ m : Moment host ex spec, StateMirrors M m.state := by
  obtain ⟨acts',s,hs,hmirror⟩ := simulated_run (step host ex)
    (R:=fun M s => StateMirrors M s ∧ ExecInv host ex s) (fun M s a M' hr hstep => by
      obtain ⟨a',s',hs',hmirror⟩ := hr.1.step hr.2 hstep
      exact ⟨a',s',hs',hmirror,hr.2.step hs'⟩)
    ⟨StateMirrors.initial ex spec,ExecInv.initial spec⟩ h
  exact ⟨⟨acts',s,hs⟩,hmirror.1⟩

/-- The position of a name, when there is one. -/
def positionOf (tasks : List TaskNode) (id : TaskId) : Option ℕ := tasks.findIdx? fun t => t.id=id

/-- The first predecessor still blocked, each position and each in-degree looked
up one by one. -/
def firstBlocked (tasks : List TaskNode) (indegree : ℕ → ℕ) : List TaskId → Option (Option ℕ)
  | [] => some none
  | d::deps =>
    match positionOf tasks d with
    | none => none
    | some i => if 0 < indegree i then some (some i) else firstBlocked tasks indegree deps

/-- The walk of `find_cycle` over the position map. -/
def walkPositions (tasks : List TaskNode) (indegree : ℕ → ℕ) (start : ℕ) :
    ℕ → List ℕ → ℕ → Option (List TaskId)
  | 0,_,_ => some []
  | fuel+1,path,cur =>
    match tasks[cur]? with
    | none => none
    | some node =>
      match firstBlocked tasks indegree node.deps with
      | none => none
      | some blocked =>
        let next := blocked.getD start
        if next∈path then
          some ((path.drop (path.idxOf next)).filterMap fun i => tasks[i]?.map TaskNode.id).reverse
        else walkPositions tasks indegree start fuel (path++[next]) next

/-- `find_cycle` over the position map. -/
def findCyclePositions (tasks : List TaskNode) (indegree : ℕ → ℕ) : Option (List TaskId) :=
  let start := ((List.range tasks.length).find? fun i => 0 < indegree i).getD 0
  walkPositions tasks indegree start tasks.length [start] start

section Positions

variable {tasks : List TaskNode}

/-- The name of a task has a position, and it is that of a task. -/
theorem positionOf_task {d : TaskId} (h : d∈tasks.map TaskNode.id) :
    positionOf tasks d=some (indexOf tasks d) ∧ indexOf tasks d < tasks.length := by
  obtain ⟨t,ht,hid⟩ := List.mem_map.mp h
  have hlt : indexOf tasks d < tasks.length :=
    List.findIdx_lt_length_of_exists ⟨t,ht,by simpa using hid⟩
  exact ⟨List.findIdx?_eq_some_of_exists ⟨t,ht,by simpa using hid⟩,hlt⟩

/-- The search for a blocked predecessor finds every position it looks up. -/
theorem firstBlocked_known {deps : List TaskId} (h : ∀ d∈deps, d∈tasks.map TaskNode.id)
    (indegree : ℕ → ℕ) : firstBlocked tasks indegree deps=
      some ((deps.map (indexOf tasks)).find? fun i => 0 < indegree i) := by
  induction deps with
  | nil => rfl
  | cons d deps ih =>
    rw [firstBlocked,(positionOf_task (h d List.mem_cons_self)).1,List.map_cons,List.find?_cons]
    by_cases hd : 0 < indegree (indexOf tasks d)
    · simp [hd]
    · simpa [hd] using ih fun e he => h e (List.mem_cons_of_mem d he)

/-- From the position of a task the walk looks up positions of tasks only. -/
theorem walkPositions_known (known : ∀ t∈tasks, ∀ d∈t.deps, d∈tasks.map TaskNode.id)
    (indegree : ℕ → ℕ) {start : ℕ} (hstart : start < tasks.length) (fuel : ℕ) (path : List ℕ)
    {cur : ℕ} (hcur : cur < tasks.length) :
    walkPositions tasks indegree start fuel path cur=
      some (walkCycle tasks indegree start fuel path cur) := by
  induction fuel generalizing path cur with
  | zero => rfl
  | succ fuel ih =>
    have hget : tasks[cur]?=some tasks[cur] := List.getElem?_eq_getElem hcur
    have hdeps := known tasks[cur] (List.getElem_mem hcur)
    rw [walkPositions,walkCycle,hget]
    simp only [firstBlocked_known hdeps,blockedPredecessor,hget,Option.map_some,Option.getD_some]
    split
    · rfl
    · refine ih _ ?_
      cases hfind : (tasks[cur].deps.map (indexOf tasks)).find? fun i => decide (0 < indegree i) with
      | none => exact hstart
      | some i =>
        obtain ⟨d,hd,rfl⟩ := List.mem_map.mp (List.mem_of_find?_eq_some hfind)
        exact (positionOf_task (hdeps d hd)).2

/-- `find_cycle`, called as `build` calls it, finds every name it looks up. -/
theorem findCyclePositions_known (known : ∀ t∈tasks, ∀ d∈t.deps, d∈tasks.map TaskNode.id)
    (hne : tasks≠[]) (indegree : ℕ → ℕ) :
    findCyclePositions tasks indegree=some (findCycle tasks indegree) := by
  rw [findCyclePositions,findCycle]
  have hstart : ((List.range tasks.length).find? fun i => 0 < indegree i).getD 0 < tasks.length := by
    cases hfind : (List.range tasks.length).find? fun i => decide (0 < indegree i) with
    | none => exact List.length_pos_iff.mpr hne
    | some i => exact List.mem_range.mp (List.mem_of_find?_eq_some hfind)
  exact walkPositions_known known indegree hstart _ _ hstart

end Positions

/-- The entries of the state map that say a task is running. -/
def runningEntries (m : MapRecorder) : List (TaskId×TaskState) :=
  m.ledger.states.rows.filter fun entry => decide (entry.2=.running)

/-- There is one such entry for each body in the join set. -/
theorem length_runningEntries {m : MapRecorder} {s : State spec} (h : Mirrors m s.recorder)
    (hi : ExecInv host ex s) : (runningEntries m).length=s.bodies.length := by
  have hkeys : ((runningEntries m).map Prod.fst).Nodup :=
    m.ledger.states.keys_nodup.sublist (List.filter_sublist.map Prod.fst)
  have hnames : ((s.bodies.map Body.task).map Subtype.val).Nodup :=
    hi.tasks.map Subtype.val_injective
  have hperm : ((runningEntries m).map Prod.fst).Perm ((s.bodies.map Body.task).map Subtype.val) := by
    refine (List.perm_ext_iff_of_nodup hkeys hnames).mpr fun id => ?_
    constructor
    · intro hid
      obtain ⟨⟨id',state⟩,hentry,rfl⟩ := List.mem_map.mp hid
      obtain ⟨hrow,hrunning⟩ := List.mem_filter.mp hentry
      have hget : m.stateOf id'=some state := by
        rw [MapRecorder.stateOf,TaskMap.get,Table.find_eq_some_iff.mpr ⟨hrow,rfl⟩]
        rfl
      have ht := h.states ⟨id',h.domain id' state hget⟩
      rw [hget,Option.some.injEq] at ht
      refine List.mem_map.mpr ⟨⟨id',h.domain id' state hget⟩,(hi.running _).mp ?_,rfl⟩
      rw [←ht]
      exact of_decide_eq_true hrunning
    · intro hid
      obtain ⟨t,ht,rfl⟩ := List.mem_map.mp hid
      have hget := h.states t
      rw [(hi.running t).mpr ht,MapRecorder.stateOf,TaskMap.get,Option.map_eq_some_iff] at hget
      obtain ⟨entry,hfind,hstate⟩ := hget
      obtain ⟨hrow,hkey⟩ := Table.find_eq_some_iff.mp hfind
      exact List.mem_map.mpr ⟨entry,List.mem_filter.mpr ⟨hrow,decide_eq_true hstate⟩,hkey⟩
  simpa using hperm.length_eq

/-- On a graph that was built no lookup of a run fails: at every point the
coordinator has not panicked, the running entries of the state map, the counter,
the join set and the tracking map have one size, and while that is not zero the
join set is not reported empty. Nor does a lookup of `find_cycle` fail where
`build` calls it. -/
theorem lookups_in_domain (host : Host) (ex : WorkflowExecutor) (spec : WorkflowSpec) :
    (∀ (acts : List MapAction) (M : MapState),
      runs (mapStep host ex spec.tasks) (mapInitial ex spec.tasks) acts=some M →
        M.pc≠.panicked ∧
        (runningEntries M.recorder).length=M.live ∧ M.bodies.length=M.live ∧
        M.byJoinId.length=M.live ∧
        (0 < M.live → mapStep host ex spec.tasks M .wakeEmpty=none)) ∧
      ∀ b : WorkflowBuilder, unknownPredecessor b.tasks=none →
        (peel b.tasks).peeled≠b.tasks.length →
        findCyclePositions b.tasks (peel b.tasks).indegree=
          some (findCycle b.tasks (peel b.tasks).indegree) := by
  constructor
  · intro acts M hrun
    obtain ⟨now,pc,m,rfl,place,hm⟩ := mirrored_run hrun
    have hi := execInv_of_run now.reached
    have hbodies : (now.state.bodies.map nameBody).length=now.state.live := by
      rw [List.length_map,hi.live]
    refine ⟨?_,?_,hbodies,?_,fun hlive => ?_⟩
    · rintro ⟨⟩
      have hsafe := hi.safe
      generalize now.state.pc=p at place hsafe
      cases place
    · exact (length_runningEntries hm hi).trans hi.live.symm
    · show (now.state.byJoinId.map nameEntry).length=now.state.live
      rw [List.length_map,hi.tracked,List.length_map,hi.live]
    · refine if_neg fun hc => ?_
      simp only [Bool.and_eq_true,List.isEmpty_iff] at hc
      have hempty : (now.state.bodies.map nameBody)=[] := hc.2
      rw [hempty] at hbodies
      exact absurd hbodies (Nat.ne_of_lt hlive)
  · intro b hknown hpeeled
    refine findCyclePositions_known (depsKnown_of_unknownPredecessor hknown) (fun hnil => ?_) _
    rw [hnil] at hpeeled
    exact hpeeled rfl

end AegisRuntime.WorkflowLookups
