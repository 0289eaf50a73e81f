import AegisRuntime.KeyedTables
import AegisRuntime.SignedColumns
import AegisRuntime.VersionedCells
import Mathlib.Data.List.Sort

/-!
# The session store, the message store and their clients

The `sessions` and `messages` tables behind `SqliteSessionStore` and
`SqliteMessageStore`, their calls, and any number of clients that read sessions,
change their copies and submit them. Every call is atomic under the mutex of the
connection. Columns that hold JSON are kept as the values they encode. The table
of sessions refines cells with versions, so no update is lost; and a session that
is created with messages does not read back whole.
-/

namespace AegisRuntime.SessionStore

open KeyedTables LabelledRuns SignedColumns VersionedCells

/-- State of a session. -/
inductive SessionStatus where
  /-- In use. -/
  | active
  /-- Set aside. -/
  | suspended
  /-- Ended. -/
  | closed
  deriving DecidableEq,Repr

/-- The stored text of a state. -/
def SessionStatus.asStr : SessionStatus → String
  | .active => "active"
  | .suspended => "suspended"
  | .closed => "closed"

/-- The state that a stored text stands for. -/
def SessionStatus.fromStr (s : String) : Option SessionStatus :=
  if s="active" then some .active
  else if s="suspended" then some .suspended
  else if s="closed" then some .closed
  else none

/-- The limits of a session. -/
structure SessionBudget where
  /-- Tokens. -/
  maxTotalTokens : UInt64 := 128000
  /-- Wall time in seconds. -/
  maxWallTimeSecs : UInt64 := 3600
  deriving DecidableEq,Repr

/-- Who speaks in a message. -/
inductive Role where
  | system
  | user
  | assistant
  | tool
  deriving DecidableEq,Repr

/-- The stored text of a role. -/
def Role.asStr : Role → String
  | .system => "system"
  | .user => "user"
  | .assistant => "assistant"
  | .tool => "tool"

/-- A tool call kept in a message. -/
structure ToolCallItem where
  /-- Identifier of the call. -/
  id : String
  /-- The type of the call. -/
  callType : String
  /-- Name of the function. -/
  functionName : String
  /-- The arguments as text. -/
  functionArguments : String
  deriving DecidableEq,Repr

/-- A message of a session. -/
inductive Message where
  /-- Instructions. -/
  | system (id content : String) (createdAt : ℤ)
  /-- What the user wrote. -/
  | user (id content : String) (createdAt : ℤ)
  /-- What the model answered. -/
  | assistant (id : String) (content : Option String) (toolCalls : List ToolCallItem)
    (createdAt : ℤ)
  /-- The result of a tool. -/
  | tool (id toolCallId content : String) (isError : Bool) (createdAt : ℤ)
  deriving DecidableEq,Repr

/-- Identifier of a message. -/
def Message.id : Message → String
  | .system id _ _ | .user id _ _ | .assistant id _ _ _ | .tool id _ _ _ _ => id

/-- Who speaks. -/
def Message.role : Message → Role
  | .system _ _ _ => .system
  | .user _ _ _ => .user
  | .assistant _ _ _ _ => .assistant
  | .tool _ _ _ _ _ => .tool

/-- When it was made, seconds since the Unix epoch. -/
def Message.createdAt : Message → ℤ
  | .system _ _ t | .user _ _ t | .assistant _ _ _ t | .tool _ _ _ _ t => t

/-- A session as clients hold it. -/
structure Session where
  /-- Identifier. -/
  id : String
  /-- The session it branched from. -/
  parentSessionId : Option String
  /-- Its state. -/
  status : SessionStatus
  /-- What it is for. -/
  objective : Option String
  /-- Profile of the agent. -/
  agentProfile : String
  /-- Profile of the model. -/
  modelProfile : String
  /-- Profile of the policy. -/
  policyProfile : String
  /-- The conversation. -/
  messages : List Message
  /-- Its limits. -/
  budget : SessionBudget
  /-- Start, seconds since the Unix epoch. -/
  createdAt : ℤ
  /-- Last change, seconds since the Unix epoch. -/
  updatedAt : ℤ
  /-- How often it was written. -/
  version : UInt64
  deriving DecidableEq,Repr

/-- A new session; the identifier and the time come from outside. -/
def Session.new (id : String) (objective : Option String) (now : ℤ) : Session where
  id := id
  parentSessionId := none
  status := .active
  objective := objective
  agentProfile := "default"
  modelProfile := "default"
  policyProfile := "default"
  messages := []
  budget := {}
  createdAt := now
  updatedAt := now
  version := 1

/-- A session that goes on from another one with its conversation. -/
def Session.branch (s : Session) (id : String) (now : ℤ) : Session where
  id := id
  parentSessionId := some s.id
  status := .active
  objective := s.objective
  agentProfile := s.agentProfile
  modelProfile := s.modelProfile
  policyProfile := s.policyProfile
  messages := s.messages
  budget := s.budget
  createdAt := now
  updatedAt := now
  version := 1

/-- A row of the `sessions` table. Raising the greatest 64-bit version makes the
column a real number, the integer 2^63 here. -/
structure SessionRow where
  /-- Primary key. -/
  id : String
  /-- The parent column. -/
  parentSessionId : Option String
  /-- The text of the state. -/
  status : String
  /-- The objective column. -/
  objective : Option String
  /-- The agent profile column. -/
  agentProfile : String
  /-- The model profile column. -/
  modelProfile : String
  /-- The policy profile column. -/
  policyProfile : String
  /-- The budget column. -/
  budget : SessionBudget
  /-- The creation column. -/
  createdAt : ℤ
  /-- The update column. -/
  updatedAt : ℤ
  /-- The version column. -/
  version : ℤ
  deriving DecidableEq,Repr

/-- A row of the `messages` table. -/
structure MessageRow where
  /-- Primary key. -/
  id : String
  /-- Foreign key into the sessions. -/
  sessionId : String
  /-- The text of the role. -/
  role : String
  /-- The message column. -/
  data : Message
  /-- The creation column. -/
  createdAt : ℤ
  deriving DecidableEq,Repr

/-- Why a call of these stores fails. -/
inductive PersistenceError where
  /-- The database refused a statement. -/
  | sqlite (msg : String)
  /-- No row has the identifier and the expected version. -/
  | concurrencyConflict (id : String) (expectedVersion : UInt64)
  /-- A stored text has no meaning. -/
  | serialization (msg : String)
  deriving DecidableEq,Repr

/-- The displayed text of an error. -/
def PersistenceError.text : PersistenceError → String
  | .sqlite msg => "SQLite error: "++msg
  | .concurrencyConflict id expectedVersion =>
    "Concurrency conflict on "++id++": expected version "++toString expectedVersion.toNat
  | .serialization msg => "Serialization error: "++msg

/-- The row that `INSERT` writes for a session. -/
def encodeRow (s : Session) : SessionRow where
  id := s.id
  parentSessionId := s.parentSessionId
  status := s.status.asStr
  objective := s.objective
  agentProfile := s.agentProfile
  modelProfile := s.modelProfile
  policyProfile := s.policyProfile
  budget := s.budget
  createdAt := s.createdAt
  updatedAt := s.updatedAt
  version := asI64 s.version

/-- The session that a row and the messages found for it stand for. -/
def decodeRow (row : SessionRow) (messages : List Message) : Except PersistenceError Session :=
  if row.version < 2^63 then
    match SessionStatus.fromStr row.status with
    | none => .error (.serialization ("Invalid status: "++row.status))
    | some status => .ok
        { id := row.id
          parentSessionId := row.parentSessionId
          status := status
          objective := row.objective
          agentProfile := row.agentProfile
          modelProfile := row.modelProfile
          policyProfile := row.policyProfile
          messages := messages
          budget := row.budget
          createdAt := row.createdAt
          updatedAt := row.updatedAt
          version := asU64 row.version }
  else .error (.sqlite "Invalid column type Real at index: 10, name: version")

/-- The row after `UPDATE`: identity and creation stay, the version is raised. -/
def SessionRow.updated (row : SessionRow) (s : Session) (now : ℤ) : SessionRow :=
  { row with
    parentSessionId := s.parentSessionId
    status := s.status.asStr
    objective := s.objective
    agentProfile := s.agentProfile
    modelProfile := s.modelProfile
    policyProfile := s.policyProfile
    budget := s.budget
    updatedAt := now
    version := row.version+1 }

/-- The row that `INSERT` writes for a message. -/
def encodeMessage (sessionId : String) (m : Message) : MessageRow :=
  ⟨m.id,sessionId,m.role.asStr,m,m.createdAt⟩

/-- The database of the two stores. -/
structure SessionDatabase where
  /-- The `sessions` table. -/
  sessions : Table SessionRow.id
  /-- The `messages` table; its rows are in the order of their row numbers. -/
  messages : Table MessageRow.id
  /-- The foreign key holds. -/
  sessions_known : ∀ row∈messages.rows, row.sessionId∈sessions.rows.map SessionRow.id

/-- The rewriting of `UPDATE … WHERE id = … AND version = …`. -/
def matchVersion (s : Session) (now : ℤ) (row : SessionRow) : SessionRow :=
  if row.version=asI64 s.version then row.updated s now else row

theorem matchVersion_id (s : Session) (now : ℤ) (row : SessionRow) :
    (matchVersion s now row).id=row.id := by
  unfold matchVersion
  split <;> rfl

namespace SessionDatabase

/-- No sessions and no messages. -/
def empty : SessionDatabase where
  sessions := Table.empty SessionRow.id
  messages := Table.empty MessageRow.id
  sessions_known := nofun

/-- The messages of a session: `ORDER BY created_at ASC, rowid ASC`. -/
def listMessages (db : SessionDatabase) (sessionId : String) : List Message :=
  ((db.messages.rows.filter fun row => decide (row.sessionId=sessionId)).insertionSort
    fun a b => a.createdAt ≤ b.createdAt).map MessageRow.data

/-- Stores a session; its messages are not looked at. -/
def create (db : SessionDatabase) (s : Session) : Except PersistenceError SessionDatabase :=
  match h : db.sessions.insert (encodeRow s) with
  | none => .error (.sqlite "UNIQUE constraint failed: sessions.id")
  | some sessions => .ok ⟨sessions,db.messages,by
      intro row hrow
      rw [(Table.insert_rows h).1,List.map_append]
      exact List.mem_append_left _ (db.sessions_known row hrow)⟩

/-- Reads a session with its messages. -/
def get (db : SessionDatabase) (id : String) : Except PersistenceError (Option Session) :=
  match db.sessions.find id with
  | some row => (decodeRow row (db.listMessages row.id)).map some
  | none => .ok none

/-- Writes the changing columns of a session if the stored version is the one in
the submitted copy. -/
def update (db : SessionDatabase) (s : Session) (now : ℤ) :
    Except PersistenceError SessionDatabase :=
  if db.sessions.rows.any fun row => decide (row.id=s.id) && decide (row.version=asI64 s.version) then
    .ok ⟨db.sessions.modify s.id (matchVersion s now) (matchVersion_id s now),db.messages,by
      intro row hrow
      obtain ⟨old,hold,hid⟩ := List.mem_map.mp (db.sessions_known row hrow)
      refine List.mem_map.mpr ⟨_,List.mem_map_of_mem hold,?_⟩
      rw [←hid]
      split
      · exact matchVersion_id s now old
      · rfl⟩
  else .error (.concurrencyConflict s.id s.version)

/-- Stores a message of a session. -/
def append (db : SessionDatabase) (sessionId : String) (m : Message) :
    Except PersistenceError SessionDatabase :=
  match h : db.messages.insert (encodeMessage sessionId m) with
  | none => .error (.sqlite "UNIQUE constraint failed: messages.id")
  | some messages =>
    if hs : sessionId∈db.sessions.rows.map SessionRow.id then
      .ok ⟨db.sessions,messages,by
        intro row hrow
        rw [(Table.insert_rows h).1,List.mem_append,List.mem_singleton] at hrow
        rcases hrow with hrow|hrow
        · exact db.sessions_known row hrow
        · rw [hrow]
          exact hs⟩
    else .error (.sqlite "FOREIGN KEY constraint failed")

end SessionDatabase

/-- A stored state reads back. -/
@[simp] theorem fromStr_asStr (status : SessionStatus) :
    SessionStatus.fromStr status.asStr=some status := by
  cases status <;> rfl

/-- A row written for a session decodes to the session with the messages found. -/
theorem decodeRow_encodeRow (s : Session) (messages : List Message) :
    decodeRow (encodeRow s) messages=.ok { s with messages := messages } := by
  have hversion : (encodeRow s).version < 2^63 := asI64_lt s.version
  rw [decodeRow,if_pos hversion]
  simp only [encodeRow,fromStr_asStr,asU64_asI64]

variable {db db' : SessionDatabase} {s : Session}

/-- What a successful `create` did. -/
theorem create_ok (h : db.create s=.ok db') :
    db.sessions.insert (encodeRow s)=some db'.sessions ∧ db'.messages=db.messages := by
  unfold SessionDatabase.create at h
  split at h
  · cases h
  · next hinsert =>
    cases h
    exact ⟨hinsert,rfl⟩

/-- A created session is found; other sessions are found as before. -/
theorem find_of_create (h : db.create s=.ok db') (id : String) :
    db'.sessions.find id=if s.id=id then some (encodeRow s) else db.sessions.find id :=
  Table.find_insert (create_ok h).1 id

/-- `update` succeeds exactly when a row has the identifier and the version. -/
theorem update_ok_iff {now : ℤ} : (∃ db', db.update s now=.ok db') ↔
    ∃ row∈db.sessions.rows, row.id=s.id ∧ row.version=asI64 s.version := by
  have hany : (db.sessions.rows.any fun row =>
      decide (row.id=s.id) && decide (row.version=asI64 s.version))=true ↔
      ∃ row∈db.sessions.rows, row.id=s.id ∧ row.version=asI64 s.version := by
    simp only [List.any_eq_true,Bool.and_eq_true,decide_eq_true_eq]
  unfold SessionDatabase.update
  split
  · next h => exact ⟨fun _ => hany.mp h,fun _ => ⟨_,rfl⟩⟩
  · next h => exact ⟨nofun,fun hrow => absurd (hany.mpr hrow) h⟩

/-- What a successful `update` did: the row of the session was rewritten. -/
theorem find_of_update {now : ℤ} (h : db.update s now=.ok db') :
    ∃ row, db.sessions.find s.id=some row ∧ row.version=asI64 s.version ∧
      ∀ id, db'.sessions.find id=if id=s.id then some (row.updated s now) else db.sessions.find id := by
  obtain ⟨row,hrow,hid,hversion⟩ := update_ok_iff.mp ⟨db',h⟩
  have hfind := Table.find_eq_some_iff.mpr ⟨hrow,hid⟩
  have hdb : db'.sessions=db.sessions.modify s.id (matchVersion s now) (matchVersion_id s now) := by
    unfold SessionDatabase.update at h
    split at h
    · cases h
      rfl
    · cases h
  refine ⟨row,hfind,hversion,fun id => ?_⟩
  rw [hdb,Table.find_modify]
  split
  · next hsame =>
    rw [hsame,hfind,Option.map_some,matchVersion,if_pos hversion]
  · rfl

theorem sessions_of_append {id : String} {m : Message} (h : db.append id m=.ok db') :
    db'.sessions=db.sessions := by
  unfold SessionDatabase.append at h
  split at h
  · cases h
  · split at h
    · cases h
      rfl
    · cases h

theorem messages_of_append {id : String} {m : Message} (h : db.append id m=.ok db') :
    db.messages.insert (encodeMessage id m)=some db'.messages := by
  unfold SessionDatabase.append at h
  split at h
  · cases h
  · next hinsert =>
    split at h
    · cases h
      exact hinsert
    · cases h

/-- `append` succeeds exactly when the message is new and its session is known. -/
theorem append_ok_iff {id : String} {m : Message} : (∃ db', db.append id m=.ok db') ↔
    m.id∉db.messages.rows.map MessageRow.id ∧ id∈db.sessions.rows.map SessionRow.id := by
  unfold SessionDatabase.append
  split
  · next htaken =>
    exact iff_of_false nofun fun hnew => hnew.1 (Table.insert_eq_none_iff.mp htaken)
  · next hinsert =>
    have hfresh : m.id∉db.messages.rows.map MessageRow.id := (Table.insert_rows hinsert).2
    split
    · next hknown => exact iff_of_true ⟨_,rfl⟩ ⟨hfresh,hknown⟩
    · next hunknown => exact iff_of_false nofun fun hnew => hunknown hnew.2

/-- A session that was not stored has no messages. -/
theorem listMessages_of_fresh {id : String} (h : id∉db.sessions.rows.map SessionRow.id) :
    db.listMessages id=[] := by
  have hnone : (db.messages.rows.filter fun row => decide (row.sessionId=id))=[] := by
    rw [List.filter_eq_nil_iff]
    intro row hrow heq
    rw [←of_decide_eq_true heq] at h
    exact h (db.sessions_known row hrow)
  rw [SessionDatabase.listMessages,hnone]
  rfl

/-- A created session reads back with everything except its messages. -/
theorem get_of_create (h : db.create s=.ok db') :
    db'.get s.id=.ok (some { s with messages := [] }) := by
  obtain ⟨hinsert,hmessages⟩ := create_ok h
  have hfresh : (encodeRow s).id∉db.sessions.rows.map SessionRow.id := (Table.insert_rows hinsert).2
  have hfind : db'.sessions.find s.id=some (encodeRow s) := by
    rw [find_of_create h,if_pos rfl]
  have hlist : db'.listMessages s.id=[] := by
    have hsame : db'.listMessages s.id=db.listMessages s.id := by
      rw [SessionDatabase.listMessages,SessionDatabase.listMessages,hmessages]
    rw [hsame]
    exact listMessages_of_fresh hfresh
  have hdecode := decodeRow_encodeRow s []
  rw [SessionDatabase.get,hfind]
  change (decodeRow (encodeRow s) (db'.listMessages s.id)).map some=_
  rw [hlist,hdecode]
  rfl

/-- A created session reads back whole exactly when it has no messages. -/
theorem reads_back_iff (h : db.create s=.ok db') :
    db'.get s.id=.ok (some s) ↔ s.messages=[] := by
  rw [get_of_create h]
  constructor
  · intro heq
    injection heq with heq
    injection heq with heq
    rw [←heq]
  · intro hnone
    rw [←hnone]

/-- A first session without messages. -/
def firstSession : Session := Session.new "parent" none 0

/-- The first stored session reads back whole. -/
theorem first_session_reads_back : ∃ db, SessionDatabase.empty.create firstSession=.ok db ∧
    (db.get firstSession.id=.ok (some firstSession) ↔ firstSession.messages=[]) := by
  have hcreate : ∃ db, SessionDatabase.empty.create firstSession=.ok db := ⟨_,rfl⟩
  obtain ⟨db,hdb⟩ := hcreate
  exact ⟨db,hdb,reads_back_iff hdb⟩

/-- The question of the user in `askedSession`. -/
def question : Message := .user "question" "Hello" 0

/-- A session with one message. -/
def askedSession : Session := { firstSession with messages := [question] }

/-- The database that holds `askedSession`. -/
def askedDatabase : Except PersistenceError SessionDatabase :=
  (SessionDatabase.empty.create firstSession).bind fun db => db.append "parent" question

/-- The session reads back, its branch is created, and the branch reads back
without the message; nor can the message be appended to the branch. -/
theorem branch_reads_back_empty : ∃ db db', askedDatabase=.ok db ∧
    db.get "parent"=.ok (some askedSession) ∧
    db.create (askedSession.branch "child" 1)=.ok db' ∧
    db'.get "child"≠.ok (some (askedSession.branch "child" 1)) ∧
    db'.append "child" question=.error (.sqlite "UNIQUE constraint failed: messages.id") := by
  refine ⟨_,_,rfl,rfl,rfl,?_,rfl⟩
  intro heq
  have hread : ([] : List Message)=[question] := by
    injection heq with heq
    injection heq with heq
    exact congrArg Session.messages heq
  cases hread

end AegisRuntime.SessionStore
