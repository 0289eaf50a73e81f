import AegisRuntime.KeyedLogs
import AegisRuntime.WorkflowGraph

/-!
# Task states, the workflow ledger and its recorder

The states a task takes, the ledger that is the one place a state change is
recorded, and the recorder that numbers a change, stores it, logs it and
publishes it on an attached bus. A ledger covers exactly the tasks of its
specification, so looking a state up cannot fail. The clock and the identifiers
of published envelopes are parameters; subscribers of the bus are not modelled.
-/

namespace AegisRuntime.WorkflowLedger

open JsonValues FailureRecords WorkflowGraph

/-- State of a task. -/
inductive TaskState where
  /-- Not yet looked at. -/
  | pending
  /-- Every predecessor completed. -/
  | ready
  /-- The body was started. -/
  | running
  /-- The body asked for a human. -/
  | waitingForApproval
  /-- The body succeeded. -/
  | completed
  /-- The body ended without success. -/
  | failed (record : FailureRecord)
  /-- Interrupted, or never started. -/
  | cancelled
  /-- A predecessor ended without success. -/
  | skipped (prerequisite : TaskId)
  deriving DecidableEq,Repr

/-- A state without its payload. -/
inductive StateKind where
  /-- Not yet looked at. -/
  | pending
  /-- Every predecessor completed. -/
  | ready
  /-- The body was started. -/
  | running
  /-- The body asked for a human. -/
  | waitingForApproval
  /-- The body succeeded. -/
  | completed
  /-- The body ended without success. -/
  | failed
  /-- Interrupted, or never started. -/
  | cancelled
  /-- A predecessor ended without success. -/
  | skipped
  deriving DecidableEq,Repr

/-- The kind of a state. -/
def TaskState.kind : TaskState → StateKind
  | .pending => .pending
  | .ready => .ready
  | .running => .running
  | .waitingForApproval => .waitingForApproval
  | .completed => .completed
  | .failed _ => .failed
  | .cancelled => .cancelled
  | .skipped _ => .skipped

/-- Terminal means the task will never change state again. -/
def TaskState.isTerminal : TaskState → Bool
  | .completed | .failed _ | .cancelled | .skipped _ => true
  | _ => false

/-- Short stable name, used in events. -/
def TaskState.name : TaskState → String
  | .pending => "pending"
  | .ready => "ready"
  | .running => "running"
  | .waitingForApproval => "waiting_for_approval"
  | .completed => "completed"
  | .failed _ => "failed"
  | .cancelled => "cancelled"
  | .skipped _ => "skipped"

/-- The name shared by all states of a kind. -/
def StateKind.name : StateKind → String
  | .pending => "pending"
  | .ready => "ready"
  | .running => "running"
  | .waitingForApproval => "waiting_for_approval"
  | .completed => "completed"
  | .failed => "failed"
  | .cancelled => "cancelled"
  | .skipped => "skipped"

/-- A state has the name of its kind. -/
theorem TaskState.name_eq_kind_name (s : TaskState) : s.name=s.kind.name := by
  cases s <;> rfl

/-- Names tell kinds apart. -/
theorem StateKind.name_injective : Function.Injective StateKind.name := by
  intro x y h
  cases x <;> cases y <;> first | rfl | exact absurd h (by decide)

/-- What a task body reports. Approval pending is not success. -/
inductive TaskOutcome where
  /-- Success with a result value. -/
  | completed (value : JsonValue)
  /-- A classified fault. -/
  | failed (fault : ToolFault)
  /-- Waiting for a human. -/
  | approvalPending
  /-- The body stopped because it was told to. -/
  | cancelled

/-- Digest of a completed task's result. -/
structure ResultHandle where
  /-- The digest. -/
  digest : String
  deriving DecidableEq,Repr

/-- Outcome of a whole workflow. -/
inductive WorkflowStatus where
  /-- Every task completed. -/
  | completed
  /-- Some task failed, was skipped or cancelled, and nothing waits on a human. -/
  | failed
  /-- Cancelled by the operator or the budget. -/
  | cancelled
  /-- At least one task waits for approval. -/
  | waitingForApproval
  deriving DecidableEq,Repr

/-- The lower-cased debug form of a status. -/
def WorkflowStatus.text : WorkflowStatus → String
  | .completed => "completed"
  | .failed => "failed"
  | .cancelled => "cancelled"
  | .waitingForApproval => "waitingforapproval"

/-- One transition, in workflow order. -/
structure WorkflowEvent where
  /-- Number of the transition, from one. -/
  seq : ℕ
  /-- The task, or none for the end of the workflow. -/
  taskId : Option TaskId
  /-- Name of the state entered. -/
  state : String
  deriving DecidableEq,Repr

/-- The workflow events of the bus. -/
inductive AegisEvent where
  /-- A task became ready. -/
  | workflowTaskReady (runId : String) (workflowSeq : ℕ) (taskId : String)
  /-- A task was started. -/
  | workflowTaskStarted (runId : String) (workflowSeq : ℕ) (taskId : String)
  /-- A task completed. -/
  | workflowTaskCompleted (runId : String) (workflowSeq : ℕ) (taskId resultDigest : String)
  /-- A task waits for approval. -/
  | workflowTaskWaiting (runId : String) (workflowSeq : ℕ) (taskId : String)
  /-- A task failed. -/
  | workflowTaskFailed (runId : String) (workflowSeq : ℕ) (taskId : String) (failure : FailureRecord)
  /-- A task was cancelled. -/
  | workflowTaskCancelled (runId : String) (workflowSeq : ℕ) (taskId : String)
  /-- A task was skipped. -/
  | workflowTaskSkipped (runId : String) (workflowSeq : ℕ) (taskId prerequisite : String)
  /-- The workflow ended. -/
  | workflowFinished (runId : String) (workflowSeq : ℕ) (status : String)
  deriving DecidableEq,Repr

/-- The sequence number an event carries. -/
def AegisEvent.workflowSeq : AegisEvent → ℕ
  | .workflowTaskReady _ n _ | .workflowTaskStarted _ n _ | .workflowTaskCompleted _ n _ _
  | .workflowTaskWaiting _ n _ | .workflowTaskFailed _ n _ _ | .workflowTaskCancelled _ n _
  | .workflowTaskSkipped _ n _ _ | .workflowFinished _ n _ => n

/-- The task an event is about, if any. -/
def AegisEvent.taskId : AegisEvent → Option TaskId
  | .workflowTaskReady _ _ t | .workflowTaskStarted _ _ t | .workflowTaskCompleted _ _ t _
  | .workflowTaskWaiting _ _ t | .workflowTaskFailed _ _ t _ | .workflowTaskCancelled _ _ t
  | .workflowTaskSkipped _ _ t _ => some ⟨t⟩
  | .workflowFinished _ _ _ => none

/-- The name of the state an event announces. -/
def AegisEvent.stateName : AegisEvent → String
  | .workflowTaskReady _ _ _ => "ready"
  | .workflowTaskStarted _ _ _ => "running"
  | .workflowTaskCompleted _ _ _ _ => "completed"
  | .workflowTaskWaiting _ _ _ => "waiting_for_approval"
  | .workflowTaskFailed _ _ _ _ => "failed"
  | .workflowTaskCancelled _ _ _ => "cancelled"
  | .workflowTaskSkipped _ _ _ _ => "skipped"
  | .workflowFinished _ _ _ => "finished"

/-- An event with its addressing. -/
structure EventEnvelope where
  /-- Fresh identifier. -/
  eventId : String
  /-- The session, if any. -/
  sessionId : Option String
  /-- The run, if any. -/
  runId : Option String
  /-- Order of the event. -/
  sequence : ℕ
  /-- Time of publication. -/
  timestamp : ℤ
  /-- The event. -/
  event : AegisEvent
  deriving DecidableEq,Repr

/-- What a run reads from outside the repository, by sequence number: the clock
behind failure records, the clock and the identifier of a published envelope,
and the sha256 digest of a JSON value. -/
structure Host where
  /-- Clock read when the failure record with this number is made. -/
  nowMillis : ℕ → ℤ
  /-- Clock read when the envelope with this number is made. -/
  timestamp : ℕ → ℤ
  /-- Identifier of the envelope with this number. -/
  eventId : ℕ → String
  /-- Hexadecimal sha256 of the compact JSON form. -/
  sha256Hex : JsonValue → String

/-- The in-memory workflow state. -/
structure Ledger (spec : WorkflowSpec) where
  /-- Number of the last transition. -/
  seq : ℕ
  /-- State of every task. -/
  states : spec.Task → TaskState
  /-- Results of completed tasks. -/
  results : spec.Task → Option ResultHandle
  /-- Failure records. -/
  failures : spec.Task → Option FailureRecord
  /-- Every transition so far. -/
  events : List WorkflowEvent

/-- The one place a state change is recorded. -/
structure Recorder (spec : WorkflowSpec) where
  /-- The ledger. -/
  ledger : Ledger spec
  /-- Envelopes published so far, when a bus is attached. -/
  bus : Option (List EventEnvelope)
  /-- The run. -/
  runId : String
  /-- The session. -/
  sessionId : String

namespace Recorder

variable {spec : WorkflowSpec}

/-- The recorder before the first transition. -/
def start (spec : WorkflowSpec) (hasBus : Bool) (runId sessionId : String) : Recorder spec :=
  ⟨⟨0,fun _ => .pending,fun _ => none,fun _ => none,[]⟩,if hasBus then some [] else none,runId,
    sessionId⟩

/-- State of a task. -/
def stateOf (rec : Recorder spec) (t : spec.Task) : TaskState := rec.ledger.states t

/-- The number a failure record made now will carry. -/
def nextFailureSeq (rec : Recorder spec) : ℕ := rec.ledger.seq+1

/-- Stores a failure record. -/
def noteFailure (rec : Recorder spec) (t : spec.Task) (f : FailureRecord) : Recorder spec :=
  {rec with ledger := {rec.ledger with failures := Function.update rec.ledger.failures t (some f)}}

/-- The envelope of an event. -/
def envelope (host : Host) (rec : Recorder spec) (event : AegisEvent) (seq : ℕ) : EventEnvelope :=
  ⟨host.eventId seq,some rec.sessionId,some rec.runId,seq,host.timestamp seq,event⟩

/-- Publishes an event when a bus is attached. -/
def publish (host : Host) (rec : Recorder spec) (event : AegisEvent) (seq : ℕ) : Recorder spec :=
  {rec with bus := rec.bus.map (·++[rec.envelope host event seq])}

/-- The bus event of a transition. Pending is the initial state and has none. -/
def eventFor (rec : Recorder spec) (seq : ℕ) (t : spec.Task) (state : TaskState)
    (result : Option ResultHandle) : Option AegisEvent :=
  match state with
  | .pending => none
  | .ready => some (.workflowTaskReady rec.runId seq t.1.asStr)
  | .running => some (.workflowTaskStarted rec.runId seq t.1.asStr)
  | .completed =>
    some (.workflowTaskCompleted rec.runId seq t.1.asStr ((result.map ResultHandle.digest).getD ""))
  | .waitingForApproval => some (.workflowTaskWaiting rec.runId seq t.1.asStr)
  | .failed f => some (.workflowTaskFailed rec.runId seq t.1.asStr f)
  | .cancelled => some (.workflowTaskCancelled rec.runId seq t.1.asStr)
  | .skipped prerequisite => some (.workflowTaskSkipped rec.runId seq t.1.asStr prerequisite.asStr)

/-- Numbers, stores, logs and publishes one state change under one lock. -/
def transition (host : Host) (rec : Recorder spec) (t : spec.Task) (state : TaskState)
    (result : Option ResultHandle) : Recorder spec :=
  let seq := rec.ledger.seq+1
  let event := rec.eventFor seq t state result
  let results := match result with
    | some r => Function.update rec.ledger.results t (some r)
    | none => rec.ledger.results
  let stored : Recorder spec := {rec with ledger :=
    ⟨seq,Function.update rec.ledger.states t state,results,rec.ledger.failures,
      rec.ledger.events++[⟨seq,some t.1,state.name⟩]⟩}
  match event with
  | some e => stored.publish host e seq
  | none => stored

/-- Logs and publishes the end of the workflow. -/
def finish (host : Host) (rec : Recorder spec) (status : WorkflowStatus) : Recorder spec :=
  let seq := rec.ledger.seq+1
  let stored : Recorder spec := {rec with ledger :=
    {rec.ledger with seq := seq,events := rec.ledger.events++[⟨seq,none,"finished"⟩]}}
  stored.publish host (.workflowFinished rec.runId seq status.text) seq

section Fields

variable (host : Host) (rec : Recorder spec) (t : spec.Task) (state : TaskState)
  (result : Option ResultHandle) (f : FailureRecord)

/-- A transition takes the next number. -/
@[simp] theorem transition_seq : (rec.transition host t state result).ledger.seq=rec.ledger.seq+1 := by
  cases state <;> rfl

/-- It sets the state of its task. -/
@[simp] theorem transition_states : (rec.transition host t state result).ledger.states=
    Function.update rec.ledger.states t state := by
  cases state <;> rfl

/-- It leaves the failures. -/
@[simp] theorem transition_failures :
    (rec.transition host t state result).ledger.failures=rec.ledger.failures := by
  cases state <;> rfl

/-- It stores a result where there is one. -/
@[simp] theorem transition_results : (rec.transition host t state result).ledger.results=
    match result with
    | some r => Function.update rec.ledger.results t (some r)
    | none => rec.ledger.results := by
  cases state <;> rfl

/-- It logs one event. -/
@[simp] theorem transition_events : (rec.transition host t state result).ledger.events=
    rec.ledger.events++[⟨rec.ledger.seq+1,some t.1,state.name⟩] := by
  cases state <;> rfl

/-- Noting a failure sets the failure of its task. -/
@[simp] theorem noteFailure_failures : (rec.noteFailure t f).ledger.failures=
    Function.update rec.ledger.failures t (some f) := rfl

/-- It takes no number. -/
@[simp] theorem noteFailure_seq : (rec.noteFailure t f).ledger.seq=rec.ledger.seq := rfl

/-- It leaves the states. -/
@[simp] theorem noteFailure_states : (rec.noteFailure t f).ledger.states=rec.ledger.states := rfl

/-- It leaves the results. -/
@[simp] theorem noteFailure_results : (rec.noteFailure t f).ledger.results=rec.ledger.results := rfl

/-- It logs nothing. -/
@[simp] theorem noteFailure_events : (rec.noteFailure t f).ledger.events=rec.ledger.events := rfl

/-- It publishes nothing. -/
@[simp] theorem noteFailure_bus : (rec.noteFailure t f).bus=rec.bus := rfl

/-- A transition publishes at most one envelope, numbered, addressed and named
like the logged event. -/
theorem transition_bus (hstate : state≠.pending) : ∃ env : EventEnvelope,
    (rec.transition host t state result).bus=rec.bus.map (·++[env]) ∧
      env.sequence=rec.ledger.seq+1 ∧ env.event.workflowSeq=rec.ledger.seq+1 ∧
      env.event.taskId=some t.1 ∧ env.event.stateName=state.name := by
  cases state with
  | pending => exact absurd rfl hstate
  | _ => exact ⟨_,rfl,rfl,rfl,rfl,rfl⟩

end Fields

end Recorder

end AegisRuntime.WorkflowLedger
