import AegisRuntime.RowStores
import AegisRuntime.RunStore

/-!
# The approval store

`SqliteApprovalStore` with its columns as they are stored. A decision brings the
status, the time and the name of who decided; what is asked about which action
never changes. The list of pending approvals is exactly what the history leaves
undecided, the oldest request first.
-/

namespace AegisRuntime.ApprovalRecords

open KeyedTables WriteHistories RowStores
open RunStore (PersistenceError)

/-- Where an approval stands. -/
inductive ApprovalStatus where
  | pending
  | approved
  | rejected
  | expired
  deriving DecidableEq,Repr

/-- The stored text of a status. -/
def ApprovalStatus.asStr : ApprovalStatus → String
  | .pending => "pending"
  | .approved => "approved"
  | .rejected => "rejected"
  | .expired => "expired"

/-- The status that a stored text stands for. -/
def ApprovalStatus.fromStr (s : String) : Option ApprovalStatus :=
  if s="pending" then some .pending
  else if s="approved" then some .approved
  else if s="rejected" then some .rejected
  else if s="expired" then some .expired
  else none

/-- An approval as clients hold it. -/
structure Approval where
  /-- Identifier. -/
  id : String
  /-- The action that is asked about. -/
  actionId : String
  /-- Its run. -/
  runId : String
  /-- Its session. -/
  sessionId : String
  /-- The question. -/
  prompt : String
  /-- Where it stands. -/
  status : ApprovalStatus
  /-- When it was asked, seconds since the Unix epoch. -/
  requestedAt : ℤ
  /-- When it was decided, seconds since the Unix epoch. -/
  decidedAt : Option ℤ
  /-- Who decided. -/
  decidedBy : Option String
  deriving DecidableEq,Repr

/-- A new approval; the identifier and the time come from outside. -/
def Approval.new (id actionId runId sessionId prompt : String) (now : ℤ) : Approval where
  id := id
  actionId := actionId
  runId := runId
  sessionId := sessionId
  prompt := prompt
  status := .pending
  requestedAt := now
  decidedAt := none
  decidedBy := none

/-- A row of the `approvals` table, as it is stored. -/
structure ApprovalText where
  /-- Primary key. -/
  id : String
  /-- Foreign key into the actions. -/
  actionId : String
  /-- Foreign key into the runs. -/
  runId : String
  /-- Foreign key into the sessions. -/
  sessionId : String
  /-- The prompt column. -/
  prompt : String
  /-- The text of the status. -/
  status : String
  /-- The request column. -/
  requestedAt : ℤ
  /-- The decision column. -/
  decidedAt : Option ℤ
  /-- The column of who decided. -/
  decidedBy : Option String
  deriving DecidableEq,Repr

/-- The row that `INSERT` writes. -/
def encode (approval : Approval) : ApprovalText where
  id := approval.id
  actionId := approval.actionId
  runId := approval.runId
  sessionId := approval.sessionId
  prompt := approval.prompt
  status := approval.status.asStr
  requestedAt := approval.requestedAt
  decidedAt := approval.decidedAt
  decidedBy := approval.decidedBy

/-- The row after `UPDATE`. -/
def ApprovalText.updated (row : ApprovalText) (approval : Approval) : ApprovalText :=
  { row with
    status := approval.status.asStr
    decidedAt := approval.decidedAt
    decidedBy := approval.decidedBy }

/-- An approval with the parts that an update brings. -/
def decided (approval update : Approval) : Approval :=
  { approval with
    status := update.status
    decidedAt := update.decidedAt
    decidedBy := update.decidedBy }

/-- Approvals as rows of the table. -/
abbrev approvalEncoding : Encoding Approval ApprovalText String where
  key := Approval.id
  rowKey := ApprovalText.id
  merge := decided
  encode := encode
  rewrite := fun approval row => row.updated approval
  rowKey_encode := fun _ => rfl
  key_merge := fun _ _ => rfl
  merge_merge := fun _ _ _ => rfl
  rowKey_rewrite := fun _ _ => rfl
  rewrite_encode := fun _ _ => rfl

/-- What the approval store reports. -/
def approvalErrors : Errors Approval PersistenceError where
  refused := .sqlite
  taken := .sqlite "UNIQUE constraint failed: approvals.id"
  dangling := .sqlite "FOREIGN KEY constraint failed"
  missing := fun approval => .notFound approval.id

/-- The table of approvals. -/
abbrev ApprovalTable : Type := Table ApprovalText.id

/-- `ORDER BY requested_at ASC`. -/
abbrev ApprovalOrder : Type := RowOrder ApprovalText.requestedAt

/-- The approval that a row stands for, the same in both reads. -/
def decode (row : ApprovalText) : Except PersistenceError Approval :=
  match ApprovalStatus.fromStr row.status with
  | none => .error (.serialization ("Invalid status: "++row.status))
  | some status => .ok
      { id := row.id
        actionId := row.actionId
        runId := row.runId
        sessionId := row.sessionId
        prompt := row.prompt
        status := status
        requestedAt := row.requestedAt
        decidedAt := row.decidedAt
        decidedBy := row.decidedBy }

/-- Creates an approval; the flag says whether its action, run and session are stored. -/
def create (refusal : Option String) (known : Bool) (t : ApprovalTable) (approval : Approval) :
    ApprovalTable×Except PersistenceError Unit :=
  insertRow approvalEncoding approvalErrors refusal known t approval

/-- Reads an approval. -/
def get (t : ApprovalTable) (id : String) : Except PersistenceError (Option Approval) :=
  match t.find id with
  | some row => (decode row).map some
  | none => .ok none

/-- Writes the status, the time and the name of a decision. -/
def update (refusal : Option String) (t : ApprovalTable) (approval : Approval) :
    ApprovalTable×Except PersistenceError Unit :=
  updateRow approvalEncoding approvalErrors refusal t approval

/-- Whether the text of a status says pending. -/
def isPendingText (row : ApprovalText) : Bool := decide (row.status="pending")

/-- Reads the pending approvals, the oldest request first. -/
def listPending (order : ApprovalOrder) (t : ApprovalTable) :
    Except PersistenceError (List Approval) :=
  (order.arrange (t.rows.filter isPendingText)).mapM decode

variable {order : ApprovalOrder} {t : ApprovalTable} {log : List (Write Approval)}

/-- The row of an approval decodes to that approval. -/
theorem decode_encode (approval : Approval) : decode (encode approval)=.ok approval := by
  have hstatus : ∀ status : ApprovalStatus, ApprovalStatus.fromStr status.asStr=some status := by
    rintro (_|_|_|_) <;> rfl
  simp only [decode,encode,hstatus]

/-- A row says pending exactly for a pending approval. -/
theorem isPendingText_encode (approval : Approval) :
    isPendingText (encode approval)=decide (approval.status=.pending) := by
  rw [isPendingText,encode]
  cases approval.status <;> rfl

/-- The approvals that a history leaves undecided. -/
def undecided (log : List (Write Approval)) : List Approval :=
  (values approvalEncoding log).filter fun approval => decide (approval.status=.pending)

/-- The store answers its two reads from a history. -/
structure AnswersFrom (order : ApprovalOrder) (t : ApprovalTable) (log : List (Write Approval)) :
    Prop where
  /-- No identifier was created twice. -/
  created_once : ((created log).map Approval.id).Nodup
  /-- A read by identifier returns the created approval with its last decision. -/
  get_eq : ∀ id, get t id=.ok (approvalEncoding.expected log id)
  /-- The list has the undecided approvals, each once, as they are got and the oldest
  request first. -/
  listed : ∃ approvals, listPending order t=.ok approvals ∧ approvals.Perm (undecided log) ∧
    (approvals.Pairwise fun a b => a.requestedAt ≤ b.requestedAt) ∧
    ∀ approval, approval∈approvals ↔
      get t approval.id=.ok (some approval) ∧ approval.status=.pending

/-- `get` answers as the history says. -/
theorem get_stored (h : approvalEncoding.Stores t log) (id : String) :
    get t id=.ok (approvalEncoding.expected log id) := by
  rw [get,h.find]
  cases approvalEncoding.expected log id with
  | none => rfl
  | some approval => exact congrArg (Except.map some) (decode_encode approval)

/-- An approval is undecided exactly when it is got as pending. -/
theorem mem_undecided_iff (h : approvalEncoding.Stores t log) (approval : Approval) :
    approval∈undecided log ↔
      get t approval.id=.ok (some approval) ∧ approval.status=.pending := by
  rw [undecided,List.mem_filter,decide_eq_true_eq,get_stored h]
  refine and_congr_left fun _ => ⟨fun hvalue => ?_,fun hget => ?_⟩
  · exact congrArg Except.ok (expected_value h hvalue)
  · exact mem_values_of_expected (Except.ok.inj hget)

theorem answers_stored (order : ApprovalOrder) (h : approvalEncoding.Stores t log) :
    AnswersFrom order t log := by
  obtain ⟨approvals,hlist,hperm,hsorted⟩ := select_stored decode_encode h order isPendingText
  have hkept : (fun approval => isPendingText (encode approval))=
      fun approval => decide (approval.status=.pending) := funext isPendingText_encode
  rw [hkept,←undecided] at hperm
  refine ⟨h.nodup,get_stored h,approvals,hlist,hperm,hsorted,fun approval => ?_⟩
  rw [hperm.mem_iff,mem_undecided_iff h]

/-- The table and the history of a sequence of calls. -/
abbrev approvalHistory (calls : List (Call Approval)) : History approvalEncoding :=
  history approvalEncoding approvalErrors calls

/-- The approval store refines a map: after any calls, failures included, its reads answer
from the calls that succeeded, its list holds exactly what is still to be decided, and the
history says which calls succeed next. -/
theorem approval_store_refines_map (order : ApprovalOrder) (calls : List (Call Approval)) :
    AnswersFrom order (approvalHistory calls).table (approvalHistory calls).log ∧
      Writes approvalEncoding approvalErrors (approvalHistory calls).table
        (approvalHistory calls).log :=
  have hstores := stores_history approvalEncoding approvalErrors calls
  ⟨answers_stored order hstores,writes_stored hstores approvalErrors⟩

end AegisRuntime.ApprovalRecords
