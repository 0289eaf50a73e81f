import AegisRuntime.LabelledRuns
import AegisRuntime.WorkflowLedger

/-!
# The workflow executor

The coordinator of a workflow run as a state machine: the checks of the loop
head, the start pass with its permit, the wait for a cancel, a deadline or a
finished body, and the report. Task bodies, the caller's token, the run token a
body can trip and the clock move between any two coordinator steps. Functions
that only touch the ledger are single steps, since nothing else writes it.
Permits, the join set and the tokens are counted as their documentation
describes them; what a body does is not modelled, only how it ends.
-/

namespace AegisRuntime.WorkflowCoordinator

open FailureRecords WorkflowGraph WorkflowLedger

/-- Tool name stamped on failure records produced by the workflow itself. -/
def WORKFLOW_TOOL_NAME : String := "workflow_task"

/-- Configuration of a run. -/
structure WorkflowConfig where
  /-- The run. -/
  runId : String
  /-- The session. -/
  sessionId : String
  /-- Upper bound on tasks running at once. -/
  maxParallel : ℕ
  /-- Time a single body may take. -/
  perTaskTimeout : Option ℕ := none
  /-- Time the whole workflow may take. -/
  totalBudget : Option ℕ := none
  deriving DecidableEq,Repr

/-- An executor can only be made for at least one permit. -/
structure WorkflowExecutor where
  /-- The configuration. -/
  config : WorkflowConfig
  /-- Checked by `new`. -/
  maxParallel_pos : 1 ≤ config.maxParallel
  /-- Whether an event bus is attached. -/
  hasBus : Bool

/-- Refuses a configuration without permits. -/
def WorkflowExecutor.new (config : WorkflowConfig) : Except WorkflowError WorkflowExecutor :=
  if h : config.maxParallel=0 then .error (.invalidConfig "max_parallel must be at least 1")
  else .ok ⟨config,Nat.one_le_iff_ne_zero.mpr h,false⟩

/-- Attaches an event bus. -/
def WorkflowExecutor.withEventBus (ex : WorkflowExecutor) : WorkflowExecutor := {ex with hasBus := true}

/-- How a body's future ended. -/
inductive Finish where
  /-- The body reported. -/
  | outcome (o : TaskOutcome)
  /-- The per-task timeout elapsed first. -/
  | timedOut
  /-- The run token fired first. -/
  | interrupted

/-- What the join set reports of a spawned body. -/
inductive BodyEnd where
  /-- The future ended. -/
  | finish (f : Finish)
  /-- The body panicked. -/
  | panicked

/-- Error text is cut to the cause limit before it is recorded. -/
def scrubMessage (message : String) : String := truncateBytes message MAX_CAUSE_MESSAGE_BYTES

variable {spec : WorkflowSpec}

/-- Ended without success. -/
def endedBadly : TaskState → Bool
  | .failed _ | .cancelled | .skipped _ => true
  | _ => false

section Recording

variable (host : Host) (ex : WorkflowExecutor)

/-- A failure record of the workflow itself. -/
def failure (rec : Recorder spec) (t : spec.Task) (cls : FailureClass)
    (certainty : EffectCertainty) (message : String) : FailureRecord :=
  let now := host.nowMillis rec.nextFailureSeq
  (FailureRecord.new rec.nextFailureSeq ex.config.runId 0 t.1.asStr none WORKFLOW_TOOL_NAME 1 cls
    certainty now now).pushCause host.sha256Hex "workflow" (scrubMessage message) none

/-- Notes a failure record, then enters the state. -/
def recordEnd (rec : Recorder spec) (t : spec.Task) (f : FailureRecord) (state : TaskState) :
    Recorder spec :=
  (rec.noteFailure t f).transition host t state none

/-- Why an open task is cancelled and with which certainty. Running and
terminal tasks are left alone. -/
def cancelReason (t : spec.Task) : TaskState → Option (String×EffectCertainty)
  | .pending | .ready => some ("workflow cancelled before start",.noEffect)
  | .waitingForApproval =>
    some ("workflow cancelled while waiting for approval",(spec.node t).runner.certaintyOnInterrupt)
  | _ => none

/-- The loop body of `cancel_open`. -/
def cancelVisit (rec : Recorder spec) (t : spec.Task) : Recorder spec :=
  match cancelReason t (rec.stateOf t) with
  | some (message,certainty) =>
    recordEnd host rec t (failure host ex rec t .cancelled certainty message) .cancelled
  | none => rec

/-- Moves every non-terminal, non-running task to Cancelled. -/
def cancelOpen (rec : Recorder spec) : Recorder spec := spec.ids.foldl (cancelVisit host ex) rec

/-- The loop body of `propagate`; the flag says whether the pass changed something. -/
def propagateVisit (pass : Recorder spec×Bool) (t : spec.Task) : Recorder spec×Bool :=
  if pass.1.stateOf t≠.pending then pass
  else
    match (spec.deps t).find? fun d => endedBadly (pass.1.stateOf d) with
    | some bad =>
      let f := failure host ex pass.1 t .rejected .noEffect ("prerequisite failed: "++bad.1.asStr)
      (recordEnd host pass.1 t f (.skipped bad.1),true)
    | none =>
      if (spec.deps t).all fun d => decide (pass.1.stateOf d=.completed) then
        (pass.1.transition host t .ready none,true)
      else pass

/-- One pass over the tasks. -/
def propagatePass (rec : Recorder spec) : Recorder spec×Bool :=
  spec.ids.foldl (propagateVisit host ex) (rec,false)

/-- Passes until one changes nothing. -/
def propagateLoop : ℕ → Recorder spec → Recorder spec
  | 0,rec => rec
  | fuel+1,rec =>
    let pass := propagatePass host ex rec
    if pass.2 then propagateLoop fuel pass.1 else pass.1

/-- Unblocks dependents whose predecessors all completed and skips dependents
of a predecessor that ended without success. A changed pass uses up a pending
task, so the number of tasks bounds the passes. -/
def propagate (rec : Recorder spec) : Recorder spec := propagateLoop host ex (spec.len+1) rec

/-- Records what a finished body reported. -/
def settle (rec : Recorder spec) (t : spec.Task) (finish : Finish) (interrupt : EffectCertainty) :
    Recorder spec :=
  match finish with
  | .outcome (.completed v) => rec.transition host t .completed (some ⟨payloadDigest host.sha256Hex v⟩)
  | .outcome (.failed fault) =>
    let f := failure host ex rec t fault.cls fault.certainty fault.message
    recordEnd host rec t f (.failed f)
  | .outcome .approvalPending => rec.transition host t .waitingForApproval none
  | .outcome .cancelled | .interrupted =>
    recordEnd host rec t (failure host ex rec t .cancelled interrupt "task cancelled while running")
      .cancelled
  | .timedOut =>
    let f := failure host ex rec t .timeout interrupt "per-task timeout elapsed"
    recordEnd host rec t f (.failed f)

/-- Records a join result. A panicking body may have had its effect. -/
def settleJoined (rec : Recorder spec) (t : spec.Task) : BodyEnd → Recorder spec
  | .finish f => settle host ex rec t f (spec.node t).runner.certaintyOnInterrupt
  | .panicked =>
    let f := failure host ex rec t .failed .uncertain "task body panicked"
    recordEnd host rec t f (.failed f)

end Recording

/-- Serializable view of the workflow state. -/
structure WorkflowSnapshot (spec : WorkflowSpec) where
  /-- The run. -/
  runId : String
  /-- Number of the last event. -/
  lastSeq : ℕ
  /-- State of every task. -/
  states : spec.Task → TaskState
  /-- Results of completed tasks. -/
  results : spec.Task → Option ResultHandle

/-- What a run returns. -/
structure WorkflowReport (spec : WorkflowSpec) where
  /-- Outcome of the workflow. -/
  status : WorkflowStatus
  /-- Final states and results. -/
  snapshot : WorkflowSnapshot spec
  /-- Failure records. -/
  failures : spec.Task → Option FailureRecord
  /-- Tasks left non-terminal. -/
  unfinished : List spec.Task
  /-- The event log. -/
  events : List WorkflowEvent
  /-- Most permits seen in use. -/
  peakConcurrency : ℕ
  /-- Whether the budget ran out. -/
  budgetExhausted : Bool

/-- Status of a run that ends with the given ledger. -/
def reportStatus (rec : Recorder spec) (cancelled : Bool) : WorkflowStatus :=
  if cancelled then .cancelled
  else if spec.ids.any fun t => decide (rec.stateOf t=.waitingForApproval) then .waitingForApproval
  else if spec.ids.all fun t => decide (rec.stateOf t=.completed) then .completed
  else .failed

/-- Ends the log and reads the report off the ledger. -/
def report (host : Host) (rec : Recorder spec) (peak : ℕ) (budgetExhausted cancelled : Bool) :
    Recorder spec×WorkflowReport spec :=
  let status := reportStatus rec cancelled
  let done := rec.finish host status
  (done,⟨status,⟨done.runId,done.ledger.seq,done.ledger.states,done.ledger.results⟩,
    done.ledger.failures,spec.ids.filter fun t => !(rec.stateOf t).isTerminal,done.ledger.events,peak,
    budgetExhausted⟩)

/-- A spawned body that was not joined yet. -/
structure Body (spec : WorkflowSpec) where
  /-- Identifier in the join set. -/
  joinId : ℕ
  /-- The task. -/
  task : spec.Task
  /-- How it ended, once it has. -/
  ended : Option BodyEnd

/-- Where the coordinator stands. -/
inductive Pc (spec : WorkflowSpec) where
  /-- Before the deadline check of the loop head. -/
  | loopHead
  /-- Before the token checks of the loop head. -/
  | cancelCheck
  /-- In the start pass, before the next of the remaining tasks. -/
  | startPass (rest : List spec.Task)
  /-- Before taking a permit for a task. -/
  | acquire (t : spec.Task) (rest : List spec.Task)
  /-- Holding the permit of a task that is about to be spawned. -/
  | launch (t : spec.Task) (rest : List spec.Task)
  /-- After the start pass. -/
  | liveCheck
  /-- Waiting for a cancel, the deadline or a finished body. -/
  | select
  /-- After the loop. -/
  | exit
  /-- The run returned; the report took over the recorder. -/
  | returned (done : Recorder spec) (report : WorkflowReport spec)
  /-- An `expect` failed. -/
  | panicked

/-- A run in progress. -/
structure State (spec : WorkflowSpec) where
  /-- Where the coordinator stands. -/
  pc : Pc spec
  /-- The recorder. -/
  recorder : Recorder spec
  /-- The join set. -/
  bodies : List (Body spec)
  /-- Tasks by join identifier. -/
  byJoinId : List (ℕ×spec.Task)
  /-- Bodies spawned and not joined. -/
  live : ℕ
  /-- Most permits seen in use. -/
  peak : ℕ
  /-- Permits not taken. -/
  available : ℕ
  /-- Flag of the caller's token. -/
  callerCancelled : Bool
  /-- Flag of the run's own token. -/
  runCancelled : Bool
  /-- Whether the deadline has passed. -/
  expired : Bool
  /-- Whether the loop head has seen the run token. -/
  cancelSeen : Bool
  /-- Whether the coordinator has seen the deadline pass. -/
  budgetExhausted : Bool
  /-- Identifier of the next spawned body. -/
  nextJoin : ℕ

/-- What can happen next. -/
inductive Action (spec : WorkflowSpec) where
  /-- The caller's token is cancelled. -/
  | cancelCaller
  /-- A body, or something it handed its context to, cancels the run token. -/
  | tripRunToken
  /-- The deadline passes. -/
  | deadlinePasses
  /-- The body of a task ends and drops its permit. -/
  | bodyEnds (t : spec.Task) (e : BodyEnd)
  /-- The coordinator takes its next step. -/
  | advance
  /-- The wait ends with the caller's cancel. -/
  | wakeCancel
  /-- The wait ends with the deadline. -/
  | wakeDeadline
  /-- The wait ends with a finished body. -/
  | wakeJoin (joinId : ℕ)
  /-- The wait ends with an empty join set. -/
  | wakeEmpty

section Machine

variable (host : Host) (ex : WorkflowExecutor)

/-- The state in which `run` enters its loop. -/
def initial (spec : WorkflowSpec) : State spec :=
  ⟨.loopHead,Recorder.start spec ex.hasBus ex.config.runId ex.config.sessionId,[],[],0,0,
    ex.config.maxParallel,false,false,false,false,false,0⟩

/-- Ends that need the run token or the per-task timeout. -/
def endPossible (s : State spec) : BodyEnd → Bool
  | .finish .interrupted => s.runCancelled
  | .finish .timedOut => ex.config.perTaskTimeout.isSome
  | _ => true

/-- Whether the body of a task is still running. -/
def bodyRuns (s : State spec) (t : spec.Task) : Bool :=
  s.bodies.any fun b => decide (b.task=t) && b.ended.isNone

/-- Stores how the running body of a task ended. -/
def endBody (t : spec.Task) (e : BodyEnd) (b : Body spec) : Body spec :=
  if b.task=t ∧ b.ended.isNone=true then {b with ended := some e} else b

/-- Deadline first: no task may start once the budget is spent. -/
def headStep (s : State spec) : State spec :=
  if !s.budgetExhausted && s.expired then
    {s with pc := .cancelCheck,budgetExhausted := true,runCancelled := true}
  else {s with pc := .cancelCheck}

/-- The token checks of the loop head, then either nothing to start or the
first step of the start pass. -/
def checkStep (s : State spec) : State spec :=
  let s := if s.callerCancelled then {s with runCancelled := true} else s
  let s := if !s.cancelSeen && s.runCancelled then
      {s with cancelSeen := true,recorder := cancelOpen host ex s.recorder}
    else s
  if !s.cancelSeen then
    {s with pc := .startPass spec.ids,recorder := propagate host ex s.recorder}
  else {s with pc := .liveCheck}

/-- The start pass looks at its next task and re-checks both tokens and the
deadline right before starting it. -/
def passStep (s : State spec) : List spec.Task → State spec
  | [] => {s with pc := .liveCheck}
  | t::rest =>
    if s.recorder.stateOf t≠.ready then {s with pc := .startPass rest}
    else if s.callerCancelled || s.runCancelled || s.expired then {s with pc := .loopHead}
    else {s with pc := .acquire t rest}

/-- Takes a permit, or ends the pass when none is left. -/
def acquireStep (s : State spec) (t : spec.Task) (rest : List spec.Task) : State spec :=
  if s.available=0 then {s with pc := .liveCheck}
  else {s with pc := .launch t rest,available := s.available-1}

/-- Records the start and spawns the body, which holds the permit. -/
def launchStep (s : State spec) (t : spec.Task) (rest : List spec.Task) : State spec :=
  {s with
    pc := .startPass rest
    recorder := s.recorder.transition host t .running none
    live := s.live+1
    peak := max s.peak (ex.config.maxParallel-s.available)
    bodies := s.bodies++[⟨s.nextJoin,t,none⟩]
    byJoinId := s.byJoinId++[(s.nextJoin,t)]
    nextJoin := s.nextJoin+1}

/-- Settles what a late approval left open and reports. -/
def exitStep (s : State spec) : State spec :=
  let settled := if s.cancelSeen then cancelOpen host ex s.recorder else s.recorder
  let done := report host settled s.peak s.budgetExhausted s.cancelSeen
  {s with pc := .returned done.1 done.2,recorder := settled}

/-- The next step of the coordinator, unless it waits or has returned. -/
def advanceStep (s : State spec) : Option (State spec) :=
  match s.pc with
  | .loopHead => some (headStep s)
  | .cancelCheck => some (checkStep host ex s)
  | .startPass rest => some (passStep s rest)
  | .acquire t rest => some (acquireStep s t rest)
  | .launch t rest => some (launchStep host ex s t rest)
  | .liveCheck => some {s with pc := if s.live=0 then .exit else .select}
  | .exit => some (exitStep host ex s)
  | .select | .returned _ _ | .panicked => none

/-- Joins a finished body and settles its task. -/
def joinStep (s : State spec) (joinId : ℕ) (e : BodyEnd) : State spec :=
  let s := {s with live := s.live-1,bodies := s.bodies.filter fun b => decide (b.joinId≠joinId)}
  match s.byJoinId.lookup joinId with
  | none => {s with pc := .panicked}
  | some t =>
    {s with
      pc := .loopHead
      byJoinId := s.byJoinId.filter fun entry => decide (entry.1≠joinId)
      recorder := settleJoined host ex s.recorder t e}

/-- How the body with the given identifier ended, if it has. -/
def joinable (s : State spec) (joinId : ℕ) : Option BodyEnd :=
  (s.bodies.find? fun b => b.joinId=joinId).bind Body.ended

/-- Whether the coordinator waits. -/
def waits (s : State spec) : Bool :=
  match s.pc with
  | .select => true
  | _ => false

/-- One step. Any branch of the wait that is ready may be the one taken: the
source polls them in order, which only rules some of these runs out. -/
def step (s : State spec) : Action spec → Option (State spec)
  | .cancelCaller => some {s with callerCancelled := true}
  | .tripRunToken => if 0 < s.nextJoin then some {s with runCancelled := true} else none
  | .deadlinePasses => if ex.config.totalBudget.isSome then some {s with expired := true} else none
  | .bodyEnds t e =>
    if bodyRuns s t && endPossible ex s e then
      some {s with bodies := s.bodies.map (endBody t e),available := s.available+1}
    else none
  | .advance => advanceStep host ex s
  | .wakeCancel =>
    if waits s && !s.cancelSeen && s.callerCancelled then
      some {s with pc := .loopHead,runCancelled := true}
    else none
  | .wakeDeadline =>
    if waits s && !s.budgetExhausted && s.expired then
      some {s with pc := .loopHead,budgetExhausted := true,runCancelled := true}
    else none
  | .wakeJoin joinId =>
    if waits s then (joinable s joinId).map (joinStep host ex s joinId) else none
  | .wakeEmpty => if waits s && s.bodies.isEmpty then some {s with pc := .exit} else none

end Machine

end AegisRuntime.WorkflowCoordinator
