import AegisRuntime.SerdeRecords
import AegisRuntime.SessionStore
import AegisRuntime.StableSorts

/-!
# The message log over text columns

`SqliteMessageStore` with its rows as they are stored: a row number that the
engine gives, the role, the time and the whole message as JSON text. The list of
a session and the session itself read the messages by the same query, ordered by
time and row number. The result is that both return the messages that were
appended, in the order of a stable sort by time.
-/

namespace AegisRuntime.MessageLog

open KeyedTables JsonValues JsonTexts SerdeRecords SignedColumns StableSorts SessionStore

/-- The time of a message fits a signed word of 64 bits. -/
def Stamped (m : Message) : Prop := -2^63 ≤ m.createdAt ∧ m.createdAt < 2^63

instance (m : Message) : Decidable (Stamped m) :=
  inferInstanceAs (Decidable (-2^63 ≤ m.createdAt ∧ m.createdAt < 2^63))

/-- A message whose time fits its type. -/
abbrev StampedMessage : Type := {m : Message // Stamped m}

/-- The members of the function of a tool call. -/
def ToolCallFunction.members (item : ToolCallItem) : List (String×JsonValue) :=
  [("name",.string item.functionName),("arguments",.string item.functionArguments)]

/-- The members of a tool call; the value of its function comes separately. -/
def ToolCallItem.members (function : JsonValue) (item : ToolCallItem) : List (String×JsonValue) :=
  [("id",.string item.id),("type",.string item.callType),("function",function)]

/-- A tool call as it is printed. -/
def ToolCallItem.toJson (item : ToolCallItem) : JsonValue :=
  .object (ToolCallItem.members (.object (ToolCallFunction.members item)) item)

/-- Reads a tool call. -/
def ToolCallItem.fromJson (v : JsonValue) : Option ToolCallItem :=
  (field "id" JsonValue.asStr v).bind fun id =>
    (field "type" JsonValue.asStr v).bind fun callType =>
      (v.get "function").bind fun function =>
        (field "name" JsonValue.asStr function).bind fun name =>
          (field "arguments" JsonValue.asStr function).map fun arguments =>
            ⟨id,callType,name,arguments⟩

/-- The calls of a message. -/
def Message.toolCalls : Message → List ToolCallItem
  | .assistant _ _ toolCalls _ => toolCalls
  | _ => []

/-- A text that may be missing. -/
def textOrNull : Option String → JsonValue
  | none => .null
  | some text => .string text

/-- The members of a message, its role first; the value of its calls comes separately. -/
def Message.members (calls : JsonValue) : Message → List (String×JsonValue)
  | .system id content createdAt =>
    [("role",.string "system"),("id",.string id),("content",.string content),
      ("created_at",integer createdAt)]
  | .user id content createdAt =>
    [("role",.string "user"),("id",.string id),("content",.string content),
      ("created_at",integer createdAt)]
  | .assistant id content _ createdAt =>
    [("role",.string "assistant"),("id",.string id),("content",textOrNull content),
      ("tool_calls",calls),("created_at",integer createdAt)]
  | .tool id toolCallId content isError createdAt =>
    [("role",.string "tool"),("id",.string id),("tool_call_id",.string toolCallId),
      ("content",.string content),("is_error",.bool isError),("created_at",integer createdAt)]

/-- A message as it is printed. -/
def Message.toJson (m : Message) : JsonValue :=
  .object (Message.members (.array ((Message.toolCalls m).map ToolCallItem.toJson)) m)

/-- Reads a message whose time may be any integer. -/
def Message.fromJson (v : JsonValue) : Option Message :=
  (field "role" JsonValue.asStr v).bind fun role =>
    (field "id" JsonValue.asStr v).bind fun id =>
      (field "created_at" asInteger v).bind fun createdAt =>
        if role="system" then
          (field "content" JsonValue.asStr v).map fun content => .system id content createdAt
        else if role="user" then
          (field "content" JsonValue.asStr v).map fun content => .user id content createdAt
        else if role="assistant" then
          (optionalField "content" JsonValue.asStr v).bind fun content =>
            (field "tool_calls" (sequence ToolCallItem.fromJson) v).map fun toolCalls =>
              .assistant id content toolCalls createdAt
        else if role="tool" then
          (field "tool_call_id" JsonValue.asStr v).bind fun toolCallId =>
            (field "content" JsonValue.asStr v).bind fun content =>
              (field "is_error" asBool v).map fun isError =>
                .tool id toolCallId content isError createdAt
        else none

/-- Reads a message; its time must fit. -/
def readStamped (v : JsonValue) : Option StampedMessage :=
  (Message.fromJson v).bind fun m => if h : Stamped m then some ⟨m,h⟩ else none

theorem prints_textOrNull {n : ℕ} (text : Option String) :
    Prints n (textOrNull text) (textOrNull text) := by
  cases text with
  | none => exact Prints.null
  | some text => exact Prints.string text

/-- A tool call is read as it was printed. -/
theorem toolCall_reads_back (item : ToolCallItem) :
    ∃ v, Prints 125 (ToolCallItem.toJson item) v ∧ ToolCallItem.fromJson v=some item := by
  let function : JsonValue := .object (collect (ToolCallFunction.members item))
  have hfunction : ((ToolCallFunction.members item).map Prod.fst).Nodup := by
    simp [ToolCallFunction.members]
  have hnames : ((ToolCallItem.members function item).map Prod.fst).Nodup := by
    simp [ToolCallItem.members]
  have hinner : Prints 124 (.object (ToolCallFunction.members item)) function := by
    refine Prints.object hfunction (List.forall₂_same.mpr ?_)
    simp [ToolCallFunction.members,Prints.string]
  have houter : Prints 125 (ToolCallItem.toJson item)
      (.object (collect (ToolCallItem.members function item))) :=
    Prints.object hnames
      (.cons ⟨rfl,.string _⟩ (.cons ⟨rfl,.string _⟩ (.cons ⟨rfl,hinner⟩ .nil)))
  have hname : field "name" JsonValue.asStr function=some item.functionName :=
    field_collect hfunction "name"
  have harguments : field "arguments" JsonValue.asStr function=some item.functionArguments :=
    field_collect hfunction "arguments"
  have hid : field "id" JsonValue.asStr (.object (collect (ToolCallItem.members function item)))=
      some item.id := field_collect hnames "id"
  have htype : field "type" JsonValue.asStr
      (.object (collect (ToolCallItem.members function item)))=some item.callType :=
    field_collect hnames "type"
  have hget : (JsonValue.object (collect (ToolCallItem.members function item))).get "function"=
      some function := get_collect hnames "function"
  refine ⟨_,houter,?_⟩
  simp only [ToolCallItem.fromJson,hid,htype,hget,hname,harguments,Option.bind_some,
    Option.map_some]

/-- The members of a message are printed one by one. -/
theorem prints_members {n : ℕ} {calls read : JsonValue} (hcalls : Prints n calls read)
    (m : Message) (hm : Stamped m) : List.Forall₂ (fun a b => a.1=b.1 ∧ Prints n a.2 b.2)
      (Message.members calls m) (Message.members read m) := by
  have htime : Prints n (integer m.createdAt) (integer m.createdAt) :=
    Prints.integer hm.1 (by have := hm.2; omega)
  cases m with
  | system id content createdAt =>
    exact .cons ⟨rfl,.string _⟩ (.cons ⟨rfl,.string _⟩ (.cons ⟨rfl,.string _⟩
      (.cons ⟨rfl,htime⟩ .nil)))
  | user id content createdAt =>
    exact .cons ⟨rfl,.string _⟩ (.cons ⟨rfl,.string _⟩ (.cons ⟨rfl,.string _⟩
      (.cons ⟨rfl,htime⟩ .nil)))
  | assistant id content toolCalls createdAt =>
    exact .cons ⟨rfl,.string _⟩ (.cons ⟨rfl,.string _⟩ (.cons ⟨rfl,prints_textOrNull content⟩
      (.cons ⟨rfl,hcalls⟩ (.cons ⟨rfl,htime⟩ .nil))))
  | tool id toolCallId content isError createdAt =>
    exact .cons ⟨rfl,.string _⟩ (.cons ⟨rfl,.string _⟩ (.cons ⟨rfl,.string _⟩
      (.cons ⟨rfl,.string _⟩ (.cons ⟨rfl,.bool isError⟩ (.cons ⟨rfl,htime⟩ .nil)))))

/-- A message is read as it was printed, whichever variant it is. -/
theorem message_reads_back (m : Message) (hm : Stamped m) :
    ∃ v, Prints DEPTH_LIMIT (Message.toJson m) v ∧ Message.fromJson v=some m := by
  obtain ⟨read,hread,hcalls⟩ := sequence_printed toolCall_reads_back (Message.toolCalls m)
  have hnames : ∀ calls, ((Message.members calls m).map Prod.fst).Nodup := by
    intro calls
    cases m <;> simp [Message.members]
  refine ⟨_,Prints.object (hnames _) (prints_members hread m hm),?_⟩
  simp only [Message.fromJson,field_collect (hnames _),optionalField_collect (hnames _)]
  cases m with
  | system id content createdAt =>
    simp [Message.members,field,JsonValue.get,JsonValue.asStr]
  | user id content createdAt =>
    simp [Message.members,field,JsonValue.get,JsonValue.asStr]
  | assistant id content toolCalls createdAt =>
    have hcontent : optionalField "content" JsonValue.asStr
        (.object (Message.members read (.assistant id content toolCalls createdAt)))=
          some content := by
      cases content <;> rfl
    have htoolCalls : field "tool_calls" (sequence ToolCallItem.fromJson)
        (.object (Message.members read (.assistant id content toolCalls createdAt)))=
          some toolCalls := hcalls
    rw [hcontent,htoolCalls]
    simp [Message.members,field,JsonValue.get,JsonValue.asStr]
  | tool id toolCallId content isError createdAt =>
    simp [Message.members,field,JsonValue.get,JsonValue.asStr,asBool]

/-- The derived writer and reader of messages. -/
def messageRecord : Record StampedMessage where
  toJson := fun m => Message.toJson m.val
  fromJson := readStamped
  reads_back := by
    intro m
    obtain ⟨v,hprints,hread⟩ := message_reads_back m.val m.property
    refine ⟨v,hprints,?_⟩
    rw [readStamped,hread,Option.bind_some,dif_pos m.property]

example : (Message.toJson (.tool "m" "c" "ok" false 7)).compact=
    "\x7b\"role\":\"tool\",\"id\":\"m\",\"tool_call_id\":\"c\",\"content\":\"ok\","++
      "\"is_error\":false,\"created_at\":7\x7d" := by decide

/-- A row of the `messages` table, as it is stored. -/
structure MessageText where
  /-- The number that the engine gives to the row. -/
  rowid : ℕ
  /-- Primary key. -/
  id : String
  /-- Foreign key into the sessions. -/
  sessionId : String
  /-- The text of the role. -/
  role : String
  /-- The message as JSON. -/
  dataJson : String
  /-- The creation column. -/
  createdAt : ℤ
  deriving DecidableEq,Repr

/-- The row that `INSERT` writes, under a number. -/
def encode (rowid : ℕ) (sessionId : String) (m : StampedMessage) : MessageText where
  rowid := rowid
  id := m.val.id
  sessionId := sessionId
  role := m.val.role.asStr
  dataJson := messageRecord.toStr m
  createdAt := m.val.createdAt

/-- The number of a new row: one more than the greatest. -/
def nextRowid (rows : List MessageText) : ℕ := (rows.map MessageText.rowid).foldr max 0+1

/-- The two tables. -/
structure MessageDatabase where
  /-- The `sessions` table. -/
  sessions : Table SessionRow.id
  /-- The `messages` table. -/
  messages : Table MessageText.id

/-- No sessions and no messages. -/
def MessageDatabase.empty : MessageDatabase where
  sessions := Table.empty SessionRow.id
  messages := Table.empty MessageText.id

namespace MessageDatabase

/-- Stores a message of a session, unless the engine refuses the statement. -/
def append (refusal : Option String) (db : MessageDatabase) (sessionId : String)
    (m : StampedMessage) : MessageDatabase×Except PersistenceError Unit :=
  match refusal with
  | some msg => (db,.error (.sqlite msg))
  | none =>
    match db.messages.insert (encode (nextRowid db.messages.rows) sessionId m) with
    | none => (db,.error (.sqlite "UNIQUE constraint failed: messages.id"))
    | some messages =>
      if sessionId∈db.sessions.rows.map SessionRow.id then ({ db with messages := messages },.ok ())
      else (db,.error (.sqlite "FOREIGN KEY constraint failed"))

/-- `SELECT data_json … WHERE session_id = … ORDER BY created_at ASC, rowid ASC`. -/
def selectData (db : MessageDatabase) (sessionId : String) : List String :=
  ((db.messages.rows.filter fun row => decide (row.sessionId=sessionId)).insertionSort
    (NumberedLe MessageText.createdAt MessageText.rowid)).map MessageText.dataJson

/-- Reads the selected texts one after the other. -/
def parseAll (serde : SerdeJson) (texts : List String) : Except PersistenceError (List Message) :=
  texts.mapM fun text =>
    ((serde.fromStr messageRecord text).map Subtype.val).mapError .serialization

/-- The messages of a session, as the message store lists them. -/
def list (serde : SerdeJson) (db : MessageDatabase) (sessionId : String) :
    Except PersistenceError (List Message) :=
  parseAll serde (db.selectData sessionId)

/-- A session with its messages, as the session store reads it. -/
def get (serde : SerdeJson) (db : MessageDatabase) (id : String) :
    Except PersistenceError (Option Session) :=
  match db.sessions.find id with
  | none => .ok none
  | some row => do
    let session ← decodeRow row []
    let messages ← parseAll serde (db.selectData row.id)
    return some { session with messages := messages }

/-- Stores a session. -/
def createSession (db : MessageDatabase) (s : Session) :
    MessageDatabase×Except PersistenceError Unit :=
  match db.sessions.insert (encodeRow s) with
  | none => (db,.error (.sqlite "UNIQUE constraint failed: sessions.id"))
  | some sessions => ({ db with sessions := sessions },.ok ())

/-- Updates a session at a time if the stored version is the one in the submitted copy. -/
def updateSession (db : MessageDatabase) (s : Session) (now : ℤ) :
    MessageDatabase×Except PersistenceError Unit :=
  let written := db.sessions.modify s.id (matchVersion s now) (matchVersion_id s now)
  let rows := (db.sessions.rows.filter fun row =>
    decide (row.id=s.id) && decide (row.version=asI64 s.version)).length
  if rows=0 then ({ db with sessions := written },.error (.concurrencyConflict s.id s.version))
  else ({ db with sessions := written },.ok ())

end MessageDatabase

/-- A call that writes. -/
inductive LogCall where
  /-- Stores a session. -/
  | createSession (s : Session)
  /-- Updates a session. -/
  | updateSession (s : Session) (now : ℤ)
  /-- Stores a message of a session; the engine may refuse. -/
  | append (refusal : Option String) (sessionId : String) (m : StampedMessage)

/-- A message that was stored, with its session. -/
abbrev Entry : Type := String×StampedMessage

/-- The database and the messages whose `append` succeeded, in that order. -/
structure LogHistory where
  /-- The tables. -/
  db : MessageDatabase
  /-- The appended messages. -/
  log : List Entry

/-- The history after a call. -/
def LogHistory.after (h : LogHistory) : LogCall → LogHistory
  | .createSession s => { h with db := (h.db.createSession s).1 }
  | .updateSession s now => { h with db := (h.db.updateSession s now).1 }
  | .append refusal sessionId m =>
    let result := h.db.append refusal sessionId m
    match result.2 with
    | .ok _ => ⟨result.1,h.log++[(sessionId,m)]⟩
    | .error _ => ⟨result.1,h.log⟩

/-- The history of a sequence of calls on empty tables. -/
def history (calls : List LogCall) : LogHistory :=
  calls.foldl LogHistory.after ⟨MessageDatabase.empty,[]⟩

/-- The messages that were appended to a session, in that order. -/
def appendedTo (log : List Entry) (sessionId : String) : List Message :=
  (log.filter fun entry => decide (entry.1=sessionId)).map fun entry => entry.2.val

/-- The row of a numbered entry. -/
def rowOf (p : ℕ×Entry) : MessageText := encode p.1 p.2.1 p.2.2

/-- The rows are the entries of a log under numbers that increase. -/
def Holds (messages : Table MessageText.id) (log : List Entry) : Prop :=
  ∃ numbered : List (ℕ×Entry), messages.rows=numbered.map rowOf ∧ numbered.map Prod.snd=log ∧
    numbered.Pairwise fun a b => a.1 < b.1

variable {serde : SerdeJson} {db : MessageDatabase} {log : List Entry} {sessionId : String}
  {m : StampedMessage} {refusal : Option String}

/-- A new row has a greater number than the others. -/
theorem rowid_lt_next {rows : List MessageText} {row : MessageText} (h : row∈rows) :
    row.rowid < nextRowid rows := by
  rw [nextRowid,Nat.lt_succ_iff]
  induction rows with
  | nil => exact absurd h List.not_mem_nil
  | cons first rows ih =>
    rw [List.map_cons,List.foldr_cons]
    rcases List.mem_cons.mp h with rfl|h
    · exact le_max_left _ _
    · exact (ih h).trans (le_max_right _ _)

/-- An inserted message joins the log. -/
theorem Holds.insert {messages messages' : Table MessageText.id} (h : Holds messages log)
    (hinsert : messages.insert (encode (nextRowid messages.rows) sessionId m)=some messages') :
    Holds messages' (log++[(sessionId,m)]) := by
  obtain ⟨numbered,hrows,hlog,hincreasing⟩ := h
  obtain ⟨hrows',-⟩ := Table.insert_rows hinsert
  refine ⟨numbered++[(nextRowid messages.rows,sessionId,m)],?_,?_,?_⟩
  · rw [hrows',List.map_append,←hrows]
    rfl
  · rw [List.map_append,hlog]
    rfl
  · refine List.pairwise_append.mpr ⟨hincreasing,List.pairwise_singleton _ _,fun a ha b hb => ?_⟩
    rw [List.mem_singleton.mp hb]
    have hmem : rowOf a∈messages.rows := hrows ▸ List.mem_map_of_mem ha
    exact rowid_lt_next hmem

/-- An append fails and leaves the tables, or inserts the row of its message. When the
engine does not refuse, it fails for a taken identifier or an unknown session. -/
theorem append_cases (refusal : Option String) (db : MessageDatabase) (sessionId : String)
    (m : StampedMessage) :
    (∃ e, db.append refusal sessionId m=(db,.error e) ∧ (refusal=none →
      m.val.id∈db.messages.rows.map MessageText.id ∨
        sessionId∉db.sessions.rows.map SessionRow.id)) ∨
    ∃ messages, db.messages.insert (encode (nextRowid db.messages.rows) sessionId m)=
        some messages ∧ sessionId∈db.sessions.rows.map SessionRow.id ∧
      db.append refusal sessionId m=({ db with messages := messages },.ok ()) := by
  unfold MessageDatabase.append
  split
  · exact .inl ⟨_,rfl,nofun⟩
  · split
    · next htaken => exact .inl ⟨_,rfl,fun _ => .inl (Table.insert_eq_none_iff.mp htaken)⟩
    · next messages hinsert =>
      split
      · next hknown => exact .inr ⟨messages,hinsert,hknown,rfl⟩
      · next hunknown => exact .inl ⟨_,rfl,fun _ => .inr hunknown⟩

theorem parseAll_printed (serde : SerdeJson) (messages : List StampedMessage) :
    MessageDatabase.parseAll serde (messages.map messageRecord.toStr)=
      .ok (messages.map Subtype.val) := by
  induction messages with
  | nil => rfl
  | cons m messages ih =>
    rw [MessageDatabase.parseAll,List.map_cons,List.mapM_cons,serde.fromStr_toStr,
      ←MessageDatabase.parseAll,ih]
    rfl

/-- The selected texts are the messages of the session in the order of a stable sort. -/
theorem selectData_stored (h : Holds db.messages log) (sessionId : String) :
    ∃ sorted : List StampedMessage, db.selectData sessionId=sorted.map messageRecord.toStr ∧
      StableSort Message.createdAt (appendedTo log sessionId) (sorted.map Subtype.val) := by
  obtain ⟨numbered,hrows,rfl,hincreasing⟩ := h
  let own : List (ℕ×Entry) := numbered.filter fun p => decide (p.2.1=sessionId)
  let key : ℕ×Entry → ℤ := fun p => p.2.2.val.createdAt
  have hfilter : (db.messages.rows.filter fun row => decide (row.sessionId=sessionId))=
      own.map rowOf := by
    rw [hrows,List.filter_map]
    rfl
  have hsort : (own.map rowOf).insertionSort
      (NumberedLe MessageText.createdAt MessageText.rowid)=
        (own.insertionSort (NumberedLe key Prod.fst)).map rowOf :=
    (List.map_insertionSort _ _ rowOf own fun _ _ _ _ => Iff.rfl).symm
  have hstable : StableSort key own (own.insertionSort (NumberedLe key Prod.fst)) :=
    stableSort_numbered (hincreasing.filter _)
  refine ⟨(own.insertionSort (NumberedLe key Prod.fst)).map fun p => p.2.2,?_,?_⟩
  · rw [MessageDatabase.selectData,hfilter,hsort,List.map_map,List.map_map]
    rfl
  · have hown : appendedTo (numbered.map Prod.snd) sessionId=own.map fun p => p.2.2.val := by
      rw [appendedTo,List.filter_map,List.map_map]
      rfl
    rw [hown,List.map_map]
    exact StableSort.map (fun p : ℕ×Entry => p.2.2.val) hstable

/-- The list of a session is the stable sort of what was appended to it. -/
theorem list_stored (serde : SerdeJson) (h : Holds db.messages log) (sessionId : String) :
    ∃ ms, MessageDatabase.parseAll serde (db.selectData sessionId)=.ok ms ∧
      StableSort Message.createdAt (appendedTo log sessionId) ms := by
  obtain ⟨sorted,hdata,hstable⟩ := selectData_stored h sessionId
  exact ⟨_,by rw [hdata,parseAll_printed],hstable⟩

/-- A stored session is read with these messages, unless its own columns cannot be read. -/
theorem get_stored {row : SessionRow} {ms : List Message}
    (hrow : db.sessions.find sessionId=some row)
    (hms : MessageDatabase.parseAll serde (db.selectData sessionId)=.ok ms) :
    db.get serde sessionId=
      (decodeRow row []).map fun session => some { session with messages := ms } := by
  have hid := (Table.find_eq_some_iff.mp hrow).2
  rw [MessageDatabase.get,hrow]
  simp only [hid,hms]
  cases decodeRow row [] <;> rfl

/-- A session that is read has these messages. -/
theorem messages_of_get {session : Session} {ms : List Message}
    (hms : MessageDatabase.parseAll serde (db.selectData sessionId)=.ok ms)
    (hget : db.get serde sessionId=.ok (some session)) : session.messages=ms := by
  cases hrow : db.sessions.find sessionId with
  | none =>
    rw [MessageDatabase.get,hrow] at hget
    cases hget
  | some row =>
    rw [get_stored hrow hms] at hget
    cases hdecode : decodeRow row [] with
    | error e =>
      rw [hdecode] at hget
      cases hget
    | ok read =>
      rw [hdecode] at hget
      cases hget
      rfl

/-- Every call keeps the rows in line with the log. -/
theorem holds_after {h : LogHistory} (hholds : Holds h.db.messages h.log) (call : LogCall) :
    Holds (h.after call).db.messages (h.after call).log := by
  cases call with
  | createSession s =>
    have hsame : (h.db.createSession s).1.messages=h.db.messages := by
      unfold MessageDatabase.createSession
      split <;> rfl
    rw [LogHistory.after,hsame]
    exact hholds
  | updateSession s now =>
    have hsame : (h.db.updateSession s now).1.messages=h.db.messages := by
      unfold MessageDatabase.updateSession
      simp only
      split <;> rfl
    rw [LogHistory.after,hsame]
    exact hholds
  | append refusal sessionId m =>
    unfold LogHistory.after
    rcases append_cases refusal h.db sessionId m with ⟨e,he,-⟩|⟨messages,hinsert,-,hok⟩
    · simp only [he]
      exact hholds
    · simp only [hok]
      exact hholds.insert hinsert

/-- After any calls the rows are the appended messages. -/
theorem holds_history (calls : List LogCall) :
    Holds (history calls).db.messages (history calls).log := by
  induction calls using List.reverseRecOn with
  | nil => exact ⟨[],rfl,rfl,List.Pairwise.nil⟩
  | append_singleton calls call ih =>
    rw [history,List.foldl_append]
    exact holds_after ih call

/-- No identifier was appended twice. -/
theorem Holds.nodup {messages : Table MessageText.id} (h : Holds messages log) :
    (log.map fun entry => entry.2.val.id).Nodup := by
  obtain ⟨numbered,hrows,rfl,-⟩ := h
  have hkeys := messages.keys_nodup
  rw [hrows,List.map_map] at hkeys
  rw [List.map_map]
  exact hkeys

/-- Every stored status is the text of a status. -/
def StatusKnown (db : MessageDatabase) : Prop :=
  ∀ row∈db.sessions.rows, ∃ status : SessionStatus, row.status=status.asStr

/-- A row with a known status and a version that fits decodes. -/
theorem decodeRow_known {row : SessionRow} {status : SessionStatus} (h : row.status=status.asStr)
    (hversion : row.version < 2^63) : ∃ session, decodeRow row []=.ok session := by
  rw [decodeRow,if_pos hversion,h,fromStr_asStr]
  exact ⟨_,rfl⟩

theorem statusKnown_after {h : LogHistory} (hknown : StatusKnown h.db) (call : LogCall) :
    StatusKnown (h.after call).db := by
  cases call with
  | createSession s =>
    rw [LogHistory.after]
    unfold MessageDatabase.createSession
    split
    · exact hknown
    · next hinsert =>
      intro row hrow
      rw [(Table.insert_rows hinsert).1] at hrow
      rcases List.mem_append.mp hrow with hrow|hrow
      · exact hknown row hrow
      · rw [List.mem_singleton.mp hrow]
        exact ⟨s.status,rfl⟩
  | updateSession s now =>
    have hwritten : ∀ row∈(h.db.updateSession s now).1.sessions.rows,
        row∈(h.db.sessions.modify s.id (matchVersion s now) (matchVersion_id s now)).rows := by
      unfold MessageDatabase.updateSession
      simp only
      split <;> exact fun row hrow => hrow
    intro row hrow
    obtain ⟨old,hold,rfl⟩ := List.mem_map.mp (hwritten row hrow)
    split
    · unfold matchVersion
      split
      · exact ⟨s.status,rfl⟩
      · exact hknown old hold
    · exact hknown old hold
  | append refusal sessionId m =>
    unfold LogHistory.after
    rcases append_cases refusal h.db sessionId m with ⟨e,he,-⟩|⟨messages,-,-,hok⟩
    · simp only [he]
      exact hknown
    · simp only [hok]
      exact hknown

theorem statusKnown_history (calls : List LogCall) : StatusKnown (history calls).db := by
  induction calls using List.reverseRecOn with
  | nil => exact fun row hrow => absurd hrow List.not_mem_nil
  | append_singleton calls call ih =>
    rw [history,List.foldl_append]
    exact statusKnown_after ih call

/-- The log loses, duplicates and misfiles nothing: after any calls the list of a session
is the stable sort by time of the messages that were appended to it, the session itself
is read with the same messages, and an append that fails changes no list. -/
theorem message_log_faithful (serde : SerdeJson) (calls : List LogCall) :
    ((history calls).log.map fun entry => entry.2.val.id).Nodup ∧
    (∀ sessionId, ∃ ms, (history calls).db.list serde sessionId=.ok ms ∧
      ms.Perm (appendedTo (history calls).log sessionId) ∧
      StableSort Message.createdAt (appendedTo (history calls).log sessionId) ms ∧
      (∀ session, (history calls).db.get serde sessionId=.ok (some session) →
        session.messages=ms) ∧
      ∀ row, (history calls).db.sessions.find sessionId=some row → row.version < 2^63 →
        ∃ session, (history calls).db.get serde sessionId=.ok (some session)) ∧
    ∀ refusal sessionId m e,
      ((history calls).db.append refusal sessionId m).2=.error e →
      ∀ other, ((history calls).db.append refusal sessionId m).1.list serde other=
          (history calls).db.list serde other ∧
        ((history calls).db.append refusal sessionId m).1.get serde other=
          (history calls).db.get serde other := by
  have hholds := holds_history calls
  refine ⟨hholds.nodup,fun sessionId => ?_,fun refusal sessionId m e herror other => ?_⟩
  · obtain ⟨ms,hms,hstable⟩ := list_stored serde hholds sessionId
    refine ⟨ms,hms,hstable.perm,hstable,fun session hget => ?_,fun row hrow hversion => ?_⟩
    · exact messages_of_get hms hget
    · obtain ⟨status,hstatus⟩ :=
        statusKnown_history calls row (Table.find_eq_some_iff.mp hrow).1
      obtain ⟨session,hsession⟩ := decodeRow_known hstatus hversion
      rw [get_stored hrow hms,hsession]
      exact ⟨_,rfl⟩
  · rcases append_cases refusal (history calls).db sessionId m with ⟨e',he,-⟩|⟨messages,-,-,hok⟩
    · rw [he]
      exact ⟨rfl,rfl⟩
    · rw [hok] at herror
      cases herror

/-- A database that keeps its columns as values and has the same entries. -/
structure Reflects (db : MessageDatabase) (values : SessionDatabase) (log : List Entry) : Prop where
  sessions : values.sessions=db.sessions
  rows : values.messages.rows=log.map fun entry => encodeMessage entry.1 entry.2.val
  holds : Holds db.messages log

variable {values : SessionDatabase}

/-- Both databases list the same messages: a list has one stable sort. -/
theorem Reflects.list (h : Reflects db values log) (serde : SerdeJson) (sessionId : String) :
    db.list serde sessionId=.ok (values.listMessages sessionId) := by
  obtain ⟨ms,hms,hstable⟩ := list_stored serde h.holds sessionId
  let own : List Entry := log.filter fun entry => decide (entry.1=sessionId)
  let key : Entry → ℤ := fun entry => entry.2.val.createdAt
  let row : Entry → MessageRow := fun entry => encodeMessage entry.1 entry.2.val
  have hfilter : (values.messages.rows.filter fun row => decide (row.sessionId=sessionId))=
      own.map row := by
    rw [h.rows,List.filter_map]
    rfl
  have hsort : (own.map row).insertionSort (fun a b => a.createdAt ≤ b.createdAt)=
      (own.insertionSort fun a b => key a ≤ key b).map row :=
    (List.map_insertionSort _ _ row own fun _ _ _ _ => Iff.rfl).symm
  have hlist : values.listMessages sessionId=
      (own.insertionSort fun a b => key a ≤ key b).map fun entry => entry.2.val := by
    rw [SessionDatabase.listMessages,hfilter,hsort,List.map_map]
    rfl
  have hvalues : StableSort Message.createdAt (appendedTo log sessionId)
      (values.listMessages sessionId) := by
    rw [hlist]
    exact StableSort.map (fun entry : Entry => entry.2.val) (stableSort_insertionSort key own)
  rw [MessageDatabase.list,hms,hstable.unique hvalues]

/-- Both databases read the same session, with the same messages. -/
theorem Reflects.get (h : Reflects db values log) (serde : SerdeJson) (id : String) :
    db.get serde id=values.get id := by
  rw [SessionDatabase.get,h.sessions]
  cases hrow : db.sessions.find id with
  | none => rw [MessageDatabase.get,hrow]
  | some row =>
    have hid := (Table.find_eq_some_iff.mp hrow).2
    rw [get_stored hrow (h.list serde id)]
    simp only [decodeRow,hid]
    split
    · cases SessionStatus.fromStr row.status <;> rfl
    · rfl

/-- Both databases store a message, or neither does. -/
theorem Reflects.append (h : Reflects db values log) (sessionId : String) (m : StampedMessage) :
    (∃ e e', db.append none sessionId m=(db,.error e) ∧
      values.append sessionId m.val=.error e') ∨
    ∃ db' values', db.append none sessionId m=(db',.ok ()) ∧
      values.append sessionId m.val=.ok values' ∧ Reflects db' values' (log++[(sessionId,m)]) := by
  have hids : values.messages.rows.map MessageRow.id=db.messages.rows.map MessageText.id := by
    obtain ⟨numbered,hrows,hlog,-⟩ := h.holds
    rw [hrows,h.rows,←hlog,List.map_map,List.map_map,List.map_map]
    rfl
  have haccepts : (∃ values', values.append sessionId m.val=.ok values') ↔
      m.val.id∉db.messages.rows.map MessageText.id ∧
        sessionId∈db.sessions.rows.map SessionRow.id := by
    rw [←hids,←h.sessions]
    exact append_ok_iff
  rcases append_cases none db sessionId m with ⟨e,he,hwhy⟩|⟨messages,hinsert,hknown,hok⟩
  · cases hvalues : values.append sessionId m.val with
    | error e' => exact .inl ⟨e,e',he,rfl⟩
    | ok values' =>
      obtain ⟨hfresh,hsession⟩ := haccepts.mp ⟨values',hvalues⟩
      rcases hwhy rfl with htaken|hunknown
      · exact absurd htaken hfresh
      · exact absurd hsession hunknown
  · obtain ⟨values',hvalues⟩ := haccepts.mpr ⟨(Table.insert_rows hinsert).2,hknown⟩
    refine .inr ⟨_,values',hok,hvalues,?_,?_,h.holds.insert hinsert⟩
    · rw [sessions_of_append hvalues]
      exact h.sessions
    · rw [(Table.insert_rows (messages_of_append hvalues)).1,h.rows,List.map_append]
      rfl

end AegisRuntime.MessageLog
