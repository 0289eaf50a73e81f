import AegisRuntime.RowStores
import AegisRuntime.RunStore
import AegisRuntime.StoredValues

/-!
# The action store over text columns

`SqliteActionStore` with its columns as they are stored: the parameters of an
action and its receipt as JSON texts, the status as its text. A receipt carries
the decision of the doctrine, a tagged variant inside the record. The parameters are
any JSON value, and come back as the crate reads their text. The store answers from the
history of its successful calls: an update brings the status, the receipt and the end,
and nothing changes what an action is.
-/

namespace AegisRuntime.ActionRecords

open KeyedTables WriteHistories RowStores JsonValues JsonTexts SerdeRecords StoredValues
open RunStore (PersistenceError)

/-- How far an agent is contained. -/
inductive ContainmentLevel where
  | observe
  | restrict
  | isolateProcess
  | isolateWorkspace
  | suspendAgent
  | emergencyStop
  deriving DecidableEq,Repr

/-- The printed name of a level. -/
def ContainmentLevel.name : ContainmentLevel → String
  | .observe => "observe"
  | .restrict => "restrict"
  | .isolateProcess => "isolate_process"
  | .isolateWorkspace => "isolate_workspace"
  | .suspendAgent => "suspend_agent"
  | .emergencyStop => "emergency_stop"

/-- The level that a printed name stands for. -/
def ContainmentLevel.ofName (s : String) : Option ContainmentLevel :=
  if s="observe" then some .observe
  else if s="restrict" then some .restrict
  else if s="isolate_process" then some .isolateProcess
  else if s="isolate_workspace" then some .isolateWorkspace
  else if s="suspend_agent" then some .suspendAgent
  else if s="emergency_stop" then some .emergencyStop
  else none

/-- What the doctrine decides about an action. -/
inductive DoctrineDecision where
  /-- It may happen. -/
  | allow
  /-- It may happen within limits. -/
  | allowRestricted (limits : List String)
  /-- A human decides. -/
  | requireApproval
  /-- It must not happen. -/
  | deny (reason : String)
  /-- The agent is contained. -/
  | contain (level : ContainmentLevel)
  deriving DecidableEq,Repr

/-- An adjacently tagged variant: its name and, unless it is a unit, its details. -/
def taggedStatus (name : String) : Option JsonValue → List (String×JsonValue)
  | none => [("status",.string name)]
  | some details => [("status",.string name),("details",details)]

/-- The name and the details of a decision. -/
def DoctrineDecision.tag : DoctrineDecision → String×Option JsonValue
  | .allow => ("Allow",none)
  | .allowRestricted limits => ("AllowRestricted",some (.array (limits.map .string)))
  | .requireApproval => ("RequireApproval",none)
  | .deny reason => ("Deny",some (.string reason))
  | .contain level => ("Contain",some (.string level.name))

/-- A decision as it is printed. -/
def DoctrineDecision.toJson (decision : DoctrineDecision) : JsonValue :=
  .object (taggedStatus decision.tag.1 decision.tag.2)

/-- Reads a decision. -/
def DoctrineDecision.fromJson (v : JsonValue) : Option DoctrineDecision :=
  let bare := fun decision : DoctrineDecision =>
    if (v.get "details").isNone then some decision else none
  (field "status" JsonValue.asStr v).bind fun name =>
    if name="Allow" then bare .allow
    else if name="AllowRestricted" then
      (field "details" (sequence JsonValue.asStr) v).map .allowRestricted
    else if name="RequireApproval" then bare .requireApproval
    else if name="Deny" then (field "details" JsonValue.asStr v).map .deny
    else if name="Contain" then
      ((field "details" JsonValue.asStr v).bind ContainmentLevel.ofName).map .contain
    else none

/-- What is kept of an executed action. -/
structure ActionReceipt where
  /-- The action. -/
  actionId : String
  /-- Its session. -/
  sessionId : String
  /-- Its run. -/
  runId : String
  /-- The capability that it used. -/
  capability : String
  /-- What it was used on. -/
  target : String
  /-- What the doctrine decided. -/
  decision : DoctrineDecision
  /-- What came out. -/
  output : String
  /-- Whether it succeeded. -/
  success : Bool
  /-- How long it took. -/
  durationMs : UInt64
  deriving DecidableEq,Repr

/-- The members of a receipt; the value of its decision comes separately. -/
def ActionReceipt.members (decision : JsonValue) (r : ActionReceipt) : List (String×JsonValue) :=
  [("action_id",.string r.actionId),("session_id",.string r.sessionId),
    ("run_id",.string r.runId),("capability",.string r.capability),("target",.string r.target),
    ("decision",decision),("output",.string r.output),("success",.bool r.success),
    ("duration_ms",integer r.durationMs.toNat)]

/-- A receipt as it is printed. -/
def ActionReceipt.toJson (r : ActionReceipt) : JsonValue :=
  .object (ActionReceipt.members r.decision.toJson r)

/-- Reads a receipt. -/
def ActionReceipt.fromJson (v : JsonValue) : Option ActionReceipt :=
  (field "action_id" JsonValue.asStr v).bind fun actionId =>
    (field "session_id" JsonValue.asStr v).bind fun sessionId =>
      (field "run_id" JsonValue.asStr v).bind fun runId =>
        (field "capability" JsonValue.asStr v).bind fun capability =>
          (field "target" JsonValue.asStr v).bind fun target =>
            (field "decision" DoctrineDecision.fromJson v).bind fun decision =>
              (field "output" JsonValue.asStr v).bind fun output =>
                (field "success" asBool v).bind fun success =>
                  (field "duration_ms" asU64 v).map fun durationMs =>
                    ⟨actionId,sessionId,runId,capability,target,decision,output,success,durationMs⟩

@[simp] theorem ofName_name (level : ContainmentLevel) :
    ContainmentLevel.ofName level.name=some level := by
  cases level <;> rfl

/-- The details of a decision are printed and read as themselves. -/
theorem prints_details (decision : DoctrineDecision) {details : JsonValue}
    (h : decision.tag.2=some details) : Prints 125 details details := by
  cases decision with
  | allow => cases h
  | allowRestricted limits =>
    cases h
    refine Prints.array (List.forall₂_same.mpr fun v hv => ?_)
    obtain ⟨limit,-,rfl⟩ := List.mem_map.mp hv
    exact Prints.string limit
  | requireApproval => cases h
  | deny reason =>
    cases h
    exact Prints.string reason
  | contain level =>
    cases h
    exact Prints.string level.name

theorem sequence_strings (texts : List String) :
    sequence JsonValue.asStr (.array (texts.map .string))=some texts := by
  induction texts with
  | nil => rfl
  | cons text texts ih =>
    have hrest : (texts.map JsonValue.string).mapM JsonValue.asStr=some texts := ih
    change ((text::texts).map JsonValue.string).mapM JsonValue.asStr=some (text::texts)
    rw [List.map_cons,List.mapM_cons,hrest]
    rfl

/-- A decision is read as it was printed, whichever variant it is. -/
theorem decision_reads_back (decision : DoctrineDecision) :
    ∃ v, Prints 126 decision.toJson v ∧ DoctrineDecision.fromJson v=some decision := by
  have hnames : ((taggedStatus decision.tag.1 decision.tag.2).map Prod.fst).Nodup := by
    cases decision.tag.2 <;> simp [taggedStatus]
  have hmembers : ∀ m∈taggedStatus decision.tag.1 decision.tag.2, Prints 125 m.2 m.2 := by
    cases hdetails : decision.tag.2 with
    | none => simp [taggedStatus,Prints.string]
    | some details => simp [taggedStatus,Prints.string,prints_details decision hdetails]
  refine ⟨_,Prints.object hnames (List.forall₂_same.mpr fun m hm => ⟨rfl,hmembers m hm⟩),?_⟩
  rw [DoctrineDecision.fromJson,field_collect hnames,field_collect hnames,field_collect hnames,
    get_collect hnames]
  cases decision with
  | allow => rfl
  | allowRestricted limits =>
    have hlimits : field "details" (sequence JsonValue.asStr)
        (.object (taggedStatus "AllowRestricted" (some (.array (limits.map .string)))))=
          some limits := sequence_strings limits
    simp only [DoctrineDecision.tag,hlimits]
    rfl
  | requireApproval => rfl
  | deny reason => rfl
  | contain level => cases level <;> rfl

/-- The derived writer and reader of receipts. -/
def receiptRecord : Record ActionReceipt where
  toJson := ActionReceipt.toJson
  fromJson := ActionReceipt.fromJson
  reads_back := by
    intro r
    obtain ⟨read,hread,hdecision⟩ := decision_reads_back r.decision
    have hnames : ((ActionReceipt.members read r).map Prod.fst).Nodup := by
      simp [ActionReceipt.members]
    have hmembers : List.Forall₂ (fun a b => a.1=b.1 ∧ Prints 126 a.2 b.2)
        (ActionReceipt.members r.decision.toJson r) (ActionReceipt.members read r) :=
      .cons ⟨rfl,.string _⟩ (.cons ⟨rfl,.string _⟩ (.cons ⟨rfl,.string _⟩
        (.cons ⟨rfl,.string _⟩ (.cons ⟨rfl,.string _⟩ (.cons ⟨rfl,hread⟩
          (.cons ⟨rfl,.string _⟩ (.cons ⟨rfl,.bool _⟩ (.cons ⟨rfl,.u64 _⟩ .nil))))))))
    refine ⟨_,Prints.object hnames hmembers,?_⟩
    have hfield : field "decision" DoctrineDecision.fromJson
        (.object (ActionReceipt.members read r))=some r.decision := hdecision
    simp only [ActionReceipt.fromJson,field_collect hnames,hfield]
    simp [ActionReceipt.members,field,JsonValue.get,JsonValue.asStr,asBool]

/-- Where an action stands. -/
inductive ActionStatus where
  | pending
  | approved
  | denied
  | executing
  | completed
  | failed
  deriving DecidableEq,Repr

/-- The stored text of a status. -/
def ActionStatus.asStr : ActionStatus → String
  | .pending => "pending"
  | .approved => "approved"
  | .denied => "denied"
  | .executing => "executing"
  | .completed => "completed"
  | .failed => "failed"

/-- The status that a stored text stands for. -/
def ActionStatus.fromStr (s : String) : Option ActionStatus :=
  if s="pending" then some .pending
  else if s="approved" then some .approved
  else if s="denied" then some .denied
  else if s="executing" then some .executing
  else if s="completed" then some .completed
  else if s="failed" then some .failed
  else none

/-- An action as clients hold it. -/
structure Action where
  /-- Identifier. -/
  id : String
  /-- The run it belongs to. -/
  runId : String
  /-- The session it belongs to. -/
  sessionId : String
  /-- The capability that it uses. -/
  capability : String
  /-- What it is for. -/
  intent : String
  /-- Its parameters. -/
  params : JsonValue
  /-- Where it stands. -/
  status : ActionStatus
  /-- What is kept of its execution. -/
  receipt : Option ActionReceipt
  /-- Creation, seconds since the Unix epoch. -/
  createdAt : ℤ
  /-- End, seconds since the Unix epoch. -/
  completedAt : Option ℤ

/-- A new action; the identifier and the time come from outside. -/
def Action.new (id runId sessionId capability intent : String) (params : JsonValue)
    (now : ℤ) : Action where
  id := id
  runId := runId
  sessionId := sessionId
  capability := capability
  intent := intent
  params := params
  status := .pending
  receipt := none
  createdAt := now
  completedAt := none

/-- A row of the `actions` table, as it is stored. -/
structure ActionText where
  /-- Primary key. -/
  id : String
  /-- Foreign key into the runs. -/
  runId : String
  /-- Foreign key into the sessions. -/
  sessionId : String
  /-- The capability column. -/
  capability : String
  /-- The intent column. -/
  intent : String
  /-- The parameters as JSON. -/
  paramsJson : String
  /-- The text of the status. -/
  status : String
  /-- The receipt as JSON. -/
  receiptJson : Option String
  /-- The creation column. -/
  createdAt : ℤ
  /-- The end column. -/
  completedAt : Option ℤ
  deriving DecidableEq,Repr

/-- The row that `INSERT` writes. -/
def encode (action : Action) : ActionText where
  id := action.id
  runId := action.runId
  sessionId := action.sessionId
  capability := action.capability
  intent := action.intent
  paramsJson := action.params.compact
  status := action.status.asStr
  receiptJson := action.receipt.map receiptRecord.toStr
  createdAt := action.createdAt
  completedAt := action.completedAt

/-- The row after `UPDATE`. -/
def ActionText.updated (row : ActionText) (action : Action) : ActionText :=
  { row with
    status := action.status.asStr
    receiptJson := action.receipt.map receiptRecord.toStr
    completedAt := action.completedAt }

/-- An action with the parts that an update brings. -/
def decided (action update : Action) : Action :=
  { action with
    status := update.status
    receipt := update.receipt
    completedAt := update.completedAt }

/-- Actions as rows of the table. -/
abbrev actionEncoding : Encoding Action ActionText String where
  key := Action.id
  rowKey := ActionText.id
  merge := decided
  encode := encode
  rewrite := fun action row => row.updated action
  rowKey_encode := fun _ => rfl
  key_merge := fun _ _ => rfl
  merge_merge := fun _ _ _ => rfl
  rowKey_rewrite := fun _ _ => rfl
  rewrite_encode := fun _ _ => rfl

/-- What the action store reports. -/
def actionErrors : Errors Action PersistenceError where
  refused := .sqlite
  taken := .sqlite "UNIQUE constraint failed: actions.id"
  dangling := .sqlite "FOREIGN KEY constraint failed"
  missing := fun action => .notFound action.id

/-- The table of actions. -/
abbrev ActionTable : Type := Table ActionText.id

/-- `ORDER BY created_at ASC`. -/
abbrev ActionOrder : Type := RowOrder ActionText.createdAt

/-- Reads a text, with the error of the store. -/
def parsed {α : Type} (serde : SerdeJson) (r : Record α) (text : String) :
    Except PersistenceError α :=
  (serde.fromStr r text).mapError .serialization

/-- Reads a text that may be missing. -/
def parsedOption {α : Type} (serde : SerdeJson) (r : Record α) :
    Option String → Except PersistenceError (Option α)
  | none => .ok none
  | some text => (parsed serde r text).map some

/-- Reads the text of a value, with the error of the store. -/
def parsedValue (values : ValueReader) (text : String) : Except PersistenceError JsonValue :=
  (values.fromStr text).mapError .serialization

/-- The action that a row stands for, the same in both reads. -/
def decode (serde : SerdeJson) (values : ValueReader) (row : ActionText) :
    Except PersistenceError Action := do
  let params ← parsedValue values row.paramsJson
  match ActionStatus.fromStr row.status with
  | none => .error (.serialization ("Invalid status: "++row.status))
  | some status => do
    let receipt ← parsedOption serde receiptRecord row.receiptJson
    return {
      id := row.id
      runId := row.runId
      sessionId := row.sessionId
      capability := row.capability
      intent := row.intent
      params := params
      status := status
      receipt := receipt
      createdAt := row.createdAt
      completedAt := row.completedAt }

/-- Creates an action; the flag says whether its run and its session are stored. -/
def create (refusal : Option String) (known : Bool) (t : ActionTable) (action : Action) :
    ActionTable×Except PersistenceError Unit :=
  insertRow actionEncoding actionErrors refusal known t action

/-- Reads an action. -/
def get (serde : SerdeJson) (values : ValueReader) (t : ActionTable) (id : String) :
    Except PersistenceError (Option Action) :=
  match t.find id with
  | some row => (decode serde values row).map some
  | none => .ok none

/-- Writes the status, the receipt and the end of an action. -/
def update (refusal : Option String) (t : ActionTable) (action : Action) :
    ActionTable×Except PersistenceError Unit :=
  updateRow actionEncoding actionErrors refusal t action

/-- Whether a row belongs to a run. -/
def ofRun (runId : String) (row : ActionText) : Bool := decide (row.runId=runId)

/-- Reads the actions of a run, the oldest first. -/
def listByRun (serde : SerdeJson) (values : ValueReader) (order : ActionOrder) (t : ActionTable)
    (runId : String) : Except PersistenceError (List Action) :=
  (order.arrange (t.rows.filter (ofRun runId))).mapM (decode serde values)

variable {serde : SerdeJson} {values : ValueReader} {order : ActionOrder} {t : ActionTable}
  {log : List (Write Action)}

@[simp] theorem fromStr_asStr (status : ActionStatus) :
    ActionStatus.fromStr status.asStr=some status := by
  cases status <;> rfl

@[simp] theorem parsed_toStr {α : Type} (r : Record α) (a : α) :
    parsed serde r (r.toStr a)=.ok a := by
  rw [parsed,SerdeJson.fromStr_toStr]
  rfl

@[simp] theorem parsedOption_toStr {α : Type} (r : Record α) (o : Option α) :
    parsedOption serde r (o.map r.toStr)=.ok o := by
  cases o with
  | none => rfl
  | some a =>
    rw [Option.map_some,parsedOption,parsed_toStr]
    rfl

/-- An action as it comes back, with its parameters as the crate reads their text. -/
def reread (values : ValueReader) (action : Action) : Except PersistenceError Action :=
  (parsedValue values action.params.compact).map fun params => { action with params := params }

/-- What a read by identifier makes of a stored action, if there is one. -/
def rereadOption (values : ValueReader) : Option Action → Except PersistenceError (Option Action)
  | some action => (reread values action).map some
  | none => .ok none

/-- An action comes back with the parameters that are read. -/
theorem reread_of_read {action : Action} {params : JsonValue}
    (h : values.fromStr action.params.compact=.ok params) :
    reread values action=.ok { action with params := params } := by
  rw [reread,parsedValue,h]
  rfl

/-- Storable parameters come back as they were written. -/
theorem reread_storable (values : ValueReader) {action : Action}
    (h : storable DEPTH_LIMIT action.params=true) : reread values action=.ok action :=
  reread_of_read (values.reads action.params h)

/-- What comes back differs in the parameters at most. -/
theorem reread_ok {action read : Action} (h : reread values action=.ok read) :
    read={ action with params := read.params } ∧
      values.fromStr action.params.compact=.ok read.params := by
  unfold reread parsedValue at h
  cases hread : values.fromStr action.params.compact with
  | error e =>
    rw [hread] at h
    cases h
  | ok params =>
    rw [hread] at h
    cases h
    exact ⟨rfl,rfl⟩

/-- The row of an action decodes to that action as it comes back, whatever its receipt. -/
theorem decode_encode (serde : SerdeJson) (values : ValueReader) (action : Action) :
    decode serde values (encode action)=reread values action := by
  simp only [decode,encode,fromStr_asStr,parsedOption_toStr,reread]
  cases parsedValue values action.params.compact <;> rfl

/-- The actions that a history has for a run. -/
def runActions (log : List (Write Action)) (runId : String) : List Action :=
  (RowStores.values actionEncoding log).filter fun action => decide (action.runId=runId)

/-- The store answers its two reads from a history. -/
structure AnswersFrom (serde : SerdeJson) (values : ValueReader) (order : ActionOrder)
    (t : ActionTable) (log : List (Write Action)) : Prop where
  /-- No identifier was created twice. -/
  created_once : ((created log).map Action.id).Nodup
  /-- A read by identifier returns the created action, as it comes back, with the status,
  the receipt and the end of its last update. -/
  get_eq : ∀ id, get serde values t id=rereadOption values (actionEncoding.expected log id)
  /-- A list reads the actions of its run, each once and the oldest first. -/
  listed : ∀ runId, ∃ actions : List Action, actions.Perm (runActions log runId) ∧
    (actions.Pairwise fun a b => a.createdAt ≤ b.createdAt) ∧
    listByRun serde values order t runId=actions.mapM (reread values)
  /-- The actions of a list that is answered are as they are got. -/
  listed_got : ∀ runId found, listByRun serde values order t runId=.ok found →
    ∀ action∈found, get serde values t action.id=.ok (some action)
  /-- Storable parameters come back as they were written. -/
  written : ∀ action, storable DEPTH_LIMIT action.params=true → reread values action=.ok action

/-- `get` answers as the history says. -/
theorem get_stored (h : actionEncoding.Stores t log) (id : String) :
    get serde values t id=rereadOption values (actionEncoding.expected log id) := by
  rw [get,h.find]
  cases actionEncoding.expected log id with
  | none => rfl
  | some action => exact congrArg (Except.map some) (decode_encode serde values action)

/-- What is got is what the history says, as it comes back. -/
theorem expected_of_get (h : actionEncoding.Stores t log) {id : String} {read : Action}
    (hget : get serde values t id=.ok (some read)) :
    ∃ action, actionEncoding.expected log id=some action ∧ reread values action=.ok read := by
  rw [get_stored h] at hget
  cases hexpected : actionEncoding.expected log id with
  | none =>
    rw [hexpected] at hget
    cases hget
  | some action =>
    rw [hexpected,rereadOption] at hget
    cases hread : reread values action with
    | error e =>
      rw [hread] at hget
      cases hget
    | ok read' =>
      rw [hread] at hget
      cases hget
      exact ⟨action,rfl,hread⟩

/-- What the history says is got as it comes back. -/
theorem get_of_expected (h : actionEncoding.Stores t log) {id : String} {action : Action}
    (hexpected : actionEncoding.expected log id=some action) :
    get serde values t id=(reread values action).map some := by
  rw [get_stored h,hexpected,rereadOption]

theorem answers_stored (serde : SerdeJson) (values : ValueReader) (order : ActionOrder)
    (h : actionEncoding.Stores t log) : AnswersFrom serde values order t log := by
  have hlisted : ∀ runId, ∃ actions : List Action, actions.Perm (runActions log runId) ∧
      (actions.Pairwise fun a b => a.createdAt ≤ b.createdAt) ∧
      listByRun serde values order t runId=actions.mapM (reread values) := by
    intro runId
    obtain ⟨actions,hrows,hperm,hsorted⟩ := select_rows h order (ofRun runId)
    refine ⟨actions,hperm,hsorted,?_⟩
    rw [listByRun,hrows,List.mapM_map]
    exact congrArg (actions.mapM ·) (funext fun action => decode_encode serde values action)
  refine ⟨h.nodup,get_stored h,hlisted,fun runId found hfound read hread => ?_,
    fun _ => reread_storable values⟩
  obtain ⟨actions,hperm,-,hlist⟩ := hlisted runId
  obtain ⟨action,haction,hback⟩ := exists_left (decodes_of_mapM (hlist.symm.trans hfound)) hread
  have hvalue := (List.mem_filter.mp (hperm.subset haction)).1
  have hid : read.id=action.id := by rw [(reread_ok hback).1]
  rw [hid,get_of_expected h (expected_value h hvalue),hback]
  rfl

/-- The table and the history of a sequence of calls. -/
abbrev actionHistory (calls : List (Call Action)) : History actionEncoding :=
  history actionEncoding actionErrors calls

/-- The action store refines a map: after any calls, failures included, its reads answer
from the calls that succeeded, and the history says which calls succeed next. -/
theorem action_store_refines_map (serde : SerdeJson) (values : ValueReader)
    (order : ActionOrder) (calls : List (Call Action)) :
    AnswersFrom serde values order (actionHistory calls).table (actionHistory calls).log ∧
      Writes actionEncoding actionErrors (actionHistory calls).table (actionHistory calls).log :=
  have hstores := stores_history actionEncoding actionErrors calls
  ⟨answers_stored serde values order hstores,writes_stored hstores actionErrors⟩

end AegisRuntime.ActionRecords
