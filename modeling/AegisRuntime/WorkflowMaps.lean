import AegisRuntime.KeyedTables
import AegisRuntime.WorkflowCoordinator

/-!
# The executor over its maps

The executor once more, as it is written: nodes and states are maps keyed by task
names, a started body is tracked under its join identifier, and every indexing and
every `expect` may fail. Where one fails the coordinator panics. The tasks come
as the plain list the builder leaves behind, so nothing here is in domain by its
type.
-/

namespace AegisRuntime.WorkflowMaps

open KeyedTables FailureRecords WorkflowGraph WorkflowLedger WorkflowCoordinator

/-- A map keyed by task names. -/
abbrev TaskMap (β : Type) := Table (Prod.fst : TaskId×β → TaskId)

namespace TaskMap

variable {β : Type}

/-- The entry of a name. -/
def get (m : TaskMap β) (id : TaskId) : Option β := (m.find id).map Prod.snd

/-- Writes the entry of a name. -/
def put (m : TaskMap β) (id : TaskId) (v : β) : TaskMap β := m.replace (id,v)

/-- The map without entries. -/
def empty : TaskMap β := Table.empty _

theorem get_put (m : TaskMap β) (id k : TaskId) (v : β) :
    (m.put id v).get k=if id=k then some v else m.get k := by
  rw [get,put,Table.find_replace]
  split <;> rfl

theorem get_empty (k : TaskId) : (empty : TaskMap β).get k=none := rfl

/-- The values are those found under some name. -/
theorem mem_values (m : TaskMap β) {v : β} :
    v∈m.rows.map Prod.snd ↔ ∃ id, m.get id=some v := by
  constructor
  · intro h
    obtain ⟨⟨id,v'⟩,hrow,rfl⟩ := List.mem_map.mp h
    exact ⟨id,by rw [get,Table.find_eq_some_iff.mpr ⟨hrow,rfl⟩]; rfl⟩
  · rintro ⟨id,h⟩
    obtain ⟨row,hrow,rfl⟩ := Option.map_eq_some_iff.mp h
    exact List.mem_map_of_mem (Table.find_eq_some_iff.mp hrow).1

end TaskMap

/-- The in-memory workflow state. -/
structure MapLedger where
  /-- Number of the last transition. -/
  seq : ℕ
  /-- States by task name. -/
  states : TaskMap TaskState
  /-- Results by task name. -/
  results : TaskMap ResultHandle
  /-- Failure records by task name. -/
  failures : TaskMap FailureRecord
  /-- Every transition so far. -/
  events : List WorkflowEvent

/-- The one place a state change is recorded. -/
structure MapRecorder where
  /-- The ledger. -/
  ledger : MapLedger
  /-- Envelopes published so far, when a bus is attached. -/
  bus : Option (List EventEnvelope)
  /-- The run. -/
  runId : String
  /-- The session. -/
  sessionId : String

namespace MapRecorder

/-- The recorder before the first transition: every name is pending. -/
def start (ids : List TaskId) (hasBus : Bool) (runId sessionId : String) : MapRecorder :=
  ⟨⟨0,ids.foldl (fun states id => states.put id .pending) TaskMap.empty,TaskMap.empty,TaskMap.empty,
    []⟩,if hasBus then some [] else none,runId,sessionId⟩

/-- `states[id]`, when there is such an entry. -/
def stateOf (rec : MapRecorder) (id : TaskId) : Option TaskState := rec.ledger.states.get id

/-- The number a failure record made now will carry. -/
def nextFailureSeq (rec : MapRecorder) : ℕ := rec.ledger.seq+1

/-- Stores a failure record. -/
def noteFailure (rec : MapRecorder) (id : TaskId) (f : FailureRecord) : MapRecorder :=
  {rec with ledger := {rec.ledger with failures := rec.ledger.failures.put id f}}

/-- Publishes an event when a bus is attached. -/
def publish (host : Host) (rec : MapRecorder) (event : AegisEvent) (seq : ℕ) : MapRecorder :=
  {rec with bus := rec.bus.map (·++[⟨host.eventId seq,some rec.sessionId,some rec.runId,seq,
    host.timestamp seq,event⟩])}

/-- The bus event of a transition. -/
def eventFor (rec : MapRecorder) (seq : ℕ) (id : TaskId) (state : TaskState)
    (result : Option ResultHandle) : Option AegisEvent :=
  match state with
  | .pending => none
  | .ready => some (.workflowTaskReady rec.runId seq id.asStr)
  | .running => some (.workflowTaskStarted rec.runId seq id.asStr)
  | .completed =>
    some (.workflowTaskCompleted rec.runId seq id.asStr ((result.map ResultHandle.digest).getD ""))
  | .waitingForApproval => some (.workflowTaskWaiting rec.runId seq id.asStr)
  | .failed f => some (.workflowTaskFailed rec.runId seq id.asStr f)
  | .cancelled => some (.workflowTaskCancelled rec.runId seq id.asStr)
  | .skipped prerequisite => some (.workflowTaskSkipped rec.runId seq id.asStr prerequisite.asStr)

/-- Numbers, stores, logs and publishes one state change. -/
def transition (host : Host) (rec : MapRecorder) (id : TaskId) (state : TaskState)
    (result : Option ResultHandle) : MapRecorder :=
  let seq := rec.ledger.seq+1
  let event := rec.eventFor seq id state result
  let results := match result with
    | some r => rec.ledger.results.put id r
    | none => rec.ledger.results
  let stored : MapRecorder := {rec with ledger :=
    ⟨seq,rec.ledger.states.put id state,results,rec.ledger.failures,
      rec.ledger.events++[⟨seq,some id,state.name⟩]⟩}
  match event with
  | some e => stored.publish host e seq
  | none => stored

/-- Logs and publishes the end of the workflow. -/
def finish (host : Host) (rec : MapRecorder) (status : WorkflowStatus) : MapRecorder :=
  let seq := rec.ledger.seq+1
  let stored : MapRecorder := {rec with ledger :=
    {rec.ledger with seq := seq,events := rec.ledger.events++[⟨seq,none,"finished"⟩]}}
  stored.publish host (.workflowFinished rec.runId seq status.text) seq

end MapRecorder

/-- `nodes[id]`, when there is such an entry. -/
def nodeOf (tasks : List TaskNode) (id : TaskId) : Option TaskNode := tasks.find? fun n => n.id=id

section Recording

variable (host : Host) (ex : WorkflowExecutor) (tasks : List TaskNode)

/-- A failure record of the workflow itself. -/
def failure (rec : MapRecorder) (id : TaskId) (cls : FailureClass) (certainty : EffectCertainty)
    (message : String) : FailureRecord :=
  let now := host.nowMillis rec.nextFailureSeq
  (FailureRecord.new rec.nextFailureSeq ex.config.runId 0 id.asStr none WORKFLOW_TOOL_NAME 1 cls
    certainty now now).pushCause host.sha256Hex "workflow" (scrubMessage message) none

/-- Notes a failure record, then enters the state. -/
def recordEnd (rec : MapRecorder) (id : TaskId) (f : FailureRecord) (state : TaskState) :
    MapRecorder :=
  (rec.noteFailure id f).transition host id state none

/-- The loop body of `cancel_open`. Only a waiting task has its node looked up. -/
def cancelVisit (rec : MapRecorder) (id : TaskId) : Option MapRecorder :=
  match rec.stateOf id with
  | none => none
  | some .pending | some .ready =>
    some (recordEnd host rec id (failure host ex rec id .cancelled .noEffect
      "workflow cancelled before start") .cancelled)
  | some .waitingForApproval =>
    (nodeOf tasks id).map fun node =>
      recordEnd host rec id (failure host ex rec id .cancelled node.runner.certaintyOnInterrupt
        "workflow cancelled while waiting for approval") .cancelled
  | some _ => some rec

/-- Moves every non-terminal, non-running task to Cancelled. -/
def cancelOpen (rec : MapRecorder) : Option MapRecorder :=
  (tasks.map TaskNode.id).foldlM (cancelVisit host ex tasks) rec

/-- The first predecessor that ended without success, looked up one by one. -/
def firstBad (rec : MapRecorder) : List TaskId → Option (Option TaskId)
  | [] => some none
  | d::deps =>
    match rec.stateOf d with
    | none => none
    | some s => if endedBadly s=true then some (some d) else firstBad rec deps

/-- Whether every predecessor completed, looked up one by one. -/
def allCompleted (rec : MapRecorder) : List TaskId → Option Bool
  | [] => some true
  | d::deps =>
    match rec.stateOf d with
    | none => none
    | some s => if s=.completed then allCompleted rec deps else some false

/-- The loop body of `propagate`. -/
def propagateVisit (pass : MapRecorder×Bool) (id : TaskId) : Option (MapRecorder×Bool) :=
  match pass.1.stateOf id with
  | none => none
  | some s =>
    if s≠.pending then some pass
    else
      match nodeOf tasks id with
      | none => none
      | some node =>
        match firstBad pass.1 node.deps with
        | none => none
        | some (some bad) =>
          let f := failure host ex pass.1 id .rejected .noEffect ("prerequisite failed: "++bad.asStr)
          some (recordEnd host pass.1 id f (.skipped bad),true)
        | some none =>
          (allCompleted pass.1 node.deps).map fun all =>
            if all then (pass.1.transition host id .ready none,true) else pass

/-- One pass over the tasks. -/
def propagatePass (rec : MapRecorder) : Option (MapRecorder×Bool) :=
  (tasks.map TaskNode.id).foldlM (propagateVisit host ex tasks) (rec,false)

/-- Passes until one changes nothing. -/
def propagateLoop : ℕ → MapRecorder → Option MapRecorder
  | 0,rec => some rec
  | fuel+1,rec =>
    match propagatePass host ex tasks rec with
    | none => none
    | some pass => if pass.2 then propagateLoop fuel pass.1 else some pass.1

/-- Unblocks and skips dependents; the number of tasks bounds the passes. -/
def propagate (rec : MapRecorder) : Option MapRecorder :=
  propagateLoop host ex tasks (tasks.length+1) rec

/-- Records what a finished body reported. -/
def settle (rec : MapRecorder) (id : TaskId) (finish : Finish) (interrupt : EffectCertainty) :
    MapRecorder :=
  match finish with
  | .outcome (.completed v) => rec.transition host id .completed (some ⟨payloadDigest host.sha256Hex v⟩)
  | .outcome (.failed fault) =>
    let f := failure host ex rec id fault.cls fault.certainty fault.message
    recordEnd host rec id f (.failed f)
  | .outcome .approvalPending => rec.transition host id .waitingForApproval none
  | .outcome .cancelled | .interrupted =>
    recordEnd host rec id (failure host ex rec id .cancelled interrupt "task cancelled while running")
      .cancelled
  | .timedOut =>
    let f := failure host ex rec id .timeout interrupt "per-task timeout elapsed"
    recordEnd host rec id f (.failed f)

/-- Records a join result. -/
def settleJoined (rec : MapRecorder) (id : TaskId) (interrupt : EffectCertainty) :
    BodyEnd → MapRecorder
  | .finish f => settle host ex rec id f interrupt
  | .panicked =>
    let f := failure host ex rec id .failed .uncertain "task body panicked"
    recordEnd host rec id f (.failed f)

end Recording

/-- What a run returns. -/
structure MapReport where
  /-- Outcome of the workflow. -/
  status : WorkflowStatus
  /-- The ledger the report was read off. -/
  ledger : MapLedger
  /-- Tasks left non-terminal. -/
  unfinished : List TaskId
  /-- Most permits seen in use. -/
  peakConcurrency : ℕ
  /-- Whether the budget ran out. -/
  budgetExhausted : Bool

/-- The names whose state is not terminal, each looked up. -/
def unfinishedOf (rec : MapRecorder) : List TaskId → Option (List TaskId)
  | [] => some []
  | id::ids =>
    match rec.stateOf id with
    | none => none
    | some s => (unfinishedOf rec ids).map fun rest => if s.isTerminal then rest else id::rest

/-- Status of a run that ends with the given ledger. -/
def reportStatus (rec : MapRecorder) (cancelled : Bool) : WorkflowStatus :=
  if cancelled then .cancelled
  else if rec.ledger.states.rows.any fun entry => decide (entry.2=.waitingForApproval) then
    .waitingForApproval
  else if rec.ledger.states.rows.all fun entry => decide (entry.2=.completed) then .completed
  else .failed

/-- Ends the log and reads the report off the ledger. -/
def report (host : Host) (ids : List TaskId) (rec : MapRecorder) (peak : ℕ)
    (budgetExhausted cancelled : Bool) : Option MapReport :=
  (unfinishedOf rec ids).map fun unfinished =>
    let status := reportStatus rec cancelled
    ⟨status,(rec.finish host status).ledger,unfinished,peak,budgetExhausted⟩

/-- A spawned body that was not joined yet. -/
structure MapBody where
  /-- Identifier in the join set. -/
  joinId : ℕ
  /-- The task. -/
  task : TaskId
  /-- How it ended, once it has. -/
  ended : Option BodyEnd

/-- Where the coordinator stands. -/
inductive MapPc where
  /-- Before the deadline check of the loop head. -/
  | loopHead
  /-- Before the token checks of the loop head. -/
  | cancelCheck
  /-- In the start pass, before the next of the remaining tasks. -/
  | startPass (rest : List TaskId)
  /-- Before taking a permit for a task. -/
  | acquire (id : TaskId) (rest : List TaskId)
  /-- Holding the permit of a task that is about to be spawned. -/
  | launch (id : TaskId) (rest : List TaskId)
  /-- After the start pass. -/
  | liveCheck
  /-- Waiting for a cancel, the deadline or a finished body. -/
  | select
  /-- After the loop. -/
  | exit
  /-- The run returned. -/
  | returned (report : MapReport)
  /-- A lookup or an `expect` failed. -/
  | panicked

/-- A run in progress. -/
structure MapState where
  /-- Where the coordinator stands. -/
  pc : MapPc
  /-- The recorder. -/
  recorder : MapRecorder
  /-- The join set. -/
  bodies : List MapBody
  /-- Tasks by join identifier. -/
  byJoinId : List (ℕ×TaskId)
  /-- Bodies spawned and not joined. -/
  live : ℕ
  /-- Most permits seen in use. -/
  peak : ℕ
  /-- Permits not taken. -/
  available : ℕ
  /-- Flag of the caller's token. -/
  callerCancelled : Bool
  /-- Flag of the run's own token. -/
  runCancelled : Bool
  /-- Whether the deadline has passed. -/
  expired : Bool
  /-- Whether the loop head has seen the run token. -/
  cancelSeen : Bool
  /-- Whether the coordinator has seen the deadline pass. -/
  budgetExhausted : Bool
  /-- Identifier of the next spawned body. -/
  nextJoin : ℕ

/-- What can happen next. -/
inductive MapAction where
  /-- The caller's token is cancelled. -/
  | cancelCaller
  /-- A body, or something it handed its context to, cancels the run token. -/
  | tripRunToken
  /-- The deadline passes. -/
  | deadlinePasses
  /-- The body of a task ends and drops its permit. -/
  | bodyEnds (id : TaskId) (e : BodyEnd)
  /-- The coordinator takes its next step. -/
  | advance
  /-- The wait ends with the caller's cancel. -/
  | wakeCancel
  /-- The wait ends with the deadline. -/
  | wakeDeadline
  /-- The wait ends with a finished body. -/
  | wakeJoin (joinId : ℕ)
  /-- The wait ends with an empty join set. -/
  | wakeEmpty

section Machine

variable (host : Host) (ex : WorkflowExecutor) (tasks : List TaskNode)

/-- The state in which `run` enters its loop. -/
def mapInitial : MapState :=
  ⟨.loopHead,MapRecorder.start (tasks.map TaskNode.id) ex.hasBus ex.config.runId ex.config.sessionId,
    [],[],0,0,ex.config.maxParallel,false,false,false,false,false,0⟩

/-- Goes on with the result of a lookup, or panics. -/
def orPanic {β : Type} (s : MapState) (found : Option β) (next : β → MapState) : MapState :=
  match found with
  | some v => next v
  | none => {s with pc := .panicked}

/-- Ends that need the run token or the per-task timeout. -/
def endPossible (s : MapState) : BodyEnd → Bool
  | .finish .interrupted => s.runCancelled
  | .finish .timedOut => ex.config.perTaskTimeout.isSome
  | _ => true

/-- Stores how the running body of a task ended. -/
def endBody (id : TaskId) (e : BodyEnd) (b : MapBody) : MapBody :=
  if b.task=id ∧ b.ended.isNone=true then {b with ended := some e} else b

/-- Deadline first: no task may start once the budget is spent. -/
def headStep (s : MapState) : MapState :=
  if !s.budgetExhausted && s.expired then
    {s with pc := .cancelCheck,budgetExhausted := true,runCancelled := true}
  else {s with pc := .cancelCheck}

/-- The token checks of the loop head. -/
def checkStep (s : MapState) : MapState :=
  let s := if s.callerCancelled then {s with runCancelled := true} else s
  if !s.cancelSeen && s.runCancelled then
    orPanic s (cancelOpen host ex tasks s.recorder) fun rec =>
      {s with pc := .liveCheck,cancelSeen := true,recorder := rec}
  else if !s.cancelSeen then
    orPanic s (propagate host ex tasks s.recorder) fun rec =>
      {s with pc := .startPass (tasks.map TaskNode.id),recorder := rec}
  else {s with pc := .liveCheck}

/-- The start pass looks its next task up and re-checks both tokens and the
deadline right before starting it. -/
def passStep (s : MapState) : List TaskId → MapState
  | [] => {s with pc := .liveCheck}
  | id::rest => orPanic s (s.recorder.stateOf id) fun state =>
    if state≠.ready then {s with pc := .startPass rest}
    else if s.callerCancelled || s.runCancelled || s.expired then {s with pc := .loopHead}
    else {s with pc := .acquire id rest}

/-- Takes a permit, or ends the pass when none is left. -/
def acquireStep (s : MapState) (id : TaskId) (rest : List TaskId) : MapState :=
  if s.available=0 then {s with pc := .liveCheck}
  else {s with pc := .launch id rest,available := s.available-1}

/-- Records the start, looks the node up and spawns its body. -/
def launchStep (s : MapState) (id : TaskId) (rest : List TaskId) : MapState :=
  orPanic s (nodeOf tasks id) fun _ => {s with
    pc := .startPass rest
    recorder := s.recorder.transition host id .running none
    live := s.live+1
    peak := max s.peak (ex.config.maxParallel-s.available)
    bodies := s.bodies++[⟨s.nextJoin,id,none⟩]
    byJoinId := s.byJoinId++[(s.nextJoin,id)]
    nextJoin := s.nextJoin+1}

/-- Settles what a late approval left open and reports. -/
def exitStep (s : MapState) : MapState :=
  orPanic s (if s.cancelSeen then cancelOpen host ex tasks s.recorder else some s.recorder) fun settled =>
    orPanic s (report host (tasks.map TaskNode.id) settled s.peak s.budgetExhausted s.cancelSeen)
      fun report => {s with pc := .returned report,recorder := settled}

/-- The next step of the coordinator, unless it waits or has returned. -/
def advanceStep (s : MapState) : Option MapState :=
  match s.pc with
  | .loopHead => some (headStep s)
  | .cancelCheck => some (checkStep host ex tasks s)
  | .startPass rest => some (passStep s rest)
  | .acquire id rest => some (acquireStep s id rest)
  | .launch id rest => some (launchStep host ex tasks s id rest)
  | .liveCheck => some {s with pc := if s.live=0 then .exit else .select}
  | .exit => some (exitStep host ex tasks s)
  | .select | .returned _ | .panicked => none

/-- Joins a finished body: its identifier must be tracked and its node known. -/
def joinStep (s : MapState) (joinId : ℕ) (e : BodyEnd) : MapState :=
  let s := {s with live := s.live-1,bodies := s.bodies.filter fun b => decide (b.joinId≠joinId)}
  orPanic s (s.byJoinId.lookup joinId) fun id =>
    orPanic s (nodeOf tasks id) fun node =>
      {s with
        pc := .loopHead
        byJoinId := s.byJoinId.filter fun entry => decide (entry.1≠joinId)
        recorder := settleJoined host ex s.recorder id node.runner.certaintyOnInterrupt e}

/-- Whether the coordinator waits. -/
def waits (s : MapState) : Bool :=
  match s.pc with
  | .select => true
  | _ => false

/-- One step. -/
def mapStep (s : MapState) : MapAction → Option MapState
  | .cancelCaller => some {s with callerCancelled := true}
  | .tripRunToken => if 0 < s.nextJoin then some {s with runCancelled := true} else none
  | .deadlinePasses => if ex.config.totalBudget.isSome then some {s with expired := true} else none
  | .bodyEnds id e =>
    if (s.bodies.any fun b => decide (b.task=id) && b.ended.isNone) && endPossible ex s e then
      some {s with bodies := s.bodies.map (endBody id e),available := s.available+1}
    else none
  | .advance => advanceStep host ex tasks s
  | .wakeCancel =>
    if waits s && !s.cancelSeen && s.callerCancelled then
      some {s with pc := .loopHead,runCancelled := true}
    else none
  | .wakeDeadline =>
    if waits s && !s.budgetExhausted && s.expired then
      some {s with pc := .loopHead,budgetExhausted := true,runCancelled := true}
    else none
  | .wakeJoin joinId =>
    if waits s then
      ((s.bodies.find? fun b => b.joinId=joinId).bind MapBody.ended).map
        (joinStep host ex tasks s joinId)
    else none
  | .wakeEmpty => if waits s && s.bodies.isEmpty then some {s with pc := .exit} else none

end Machine

end AegisRuntime.WorkflowMaps
