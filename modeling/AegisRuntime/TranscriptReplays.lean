import AegisRuntime.HeartbeatPulses
import AegisRuntime.JsonLines
import AegisRuntime.RowPages

/-!
# The transcript of the database

`Database` as the gateway uses it, with the file `transcript.jsonl` beside it. Every
writing call but the claim of a task appends a line once its statement has succeeded,
under the lock of the connection, and says nothing when the file takes a part of the line
or none of it. The lines are read back as the calls they tell of, as long as none was
appended to a torn one, and replaying them rebuilds what the tables answer.
-/

namespace AegisRuntime.TranscriptReplays

open KeyedTables SignedColumns JsonValues JsonTexts SerdeRecords JsonLines RowPages
open HeartbeatPulses (PulseReceipt TaskRecord HeartbeatRow CrumbRecord heartbeatRow)

/-- A row of the `turns` table. -/
structure TurnRow where
  /-- Primary key, counted by the database. -/
  id : ℕ
  /-- The session column. -/
  sessionId : String
  /-- The role column. -/
  role : String
  /-- The prompt column. -/
  prompt : String
  /-- The response column. -/
  response : String
  /-- The duration column. -/
  durationMs : ℤ
  /-- When it was recorded. -/
  createdAt : String

/-- A turn as it is answered. -/
structure TurnRecord where
  /-- Primary key. -/
  id : ℕ
  /-- The session. -/
  sessionId : String
  /-- Who asked. -/
  role : String
  /-- The prompt. -/
  prompt : String
  /-- The response. -/
  response : String
  /-- How long it took. -/
  durationMs : UInt64
  /-- When it was recorded. -/
  createdAt : String

/-- Reads a row. -/
def TurnRow.record (row : TurnRow) : TurnRecord :=
  ⟨row.id,row.sessionId,row.role,row.prompt,row.response,SignedColumns.asU64 row.durationMs,row.createdAt⟩

/-- The database and the text of its transcript. -/
structure Database where
  /-- The tables that pulses use. -/
  tables : HeartbeatPulses.Database
  /-- The `turns` table, in the order of its primary key. -/
  turns : List TurnRow
  /-- The transcript. -/
  transcript : List Char

/-- What a call meets. -/
structure Conditions where
  /-- The database refuses the statement. -/
  refused : Bool
  /-- The time that the row gets. -/
  now : String
  /-- The time that the line gets. -/
  logged : String
  /-- How many bytes of the line reach the file. -/
  reached : ℕ

/-- The data of a turn. -/
def chatTurnData (role prompt response : String) (durationMs : UInt64) : JsonValue :=
  .object [("duration_ms",integer durationMs.toNat),("prompt",.string prompt),
    ("response",.string response),("role",.string role)]

/-- The data of a receipt. -/
def heartbeatTickData (receipt : PulseReceipt) : JsonValue :=
  .object [("actions_dispatched",integer receipt.actionsDispatched),
    ("notes",.string receipt.notes),("status",.string receipt.status),
    ("tasks_scanned",integer receipt.tasksScanned),("tick_id",integer receipt.tickId.toNat),
    ("timestamp",.string receipt.timestamp)]

/-- The data of a queued task. -/
def taskCreatedData (id taskType payload : String) : JsonValue :=
  .object [("id",.string id),("payload",.string payload),("task_type",.string taskType)]

/-- The data of a completed task. -/
def taskCompletedData (id result completedAt : String) : JsonValue :=
  .object [("completed_at",.string completedAt),("id",.string id),("result",.string result)]

/-- The data of a crumb. -/
def memoryCrumbData (key value group : String) : JsonValue :=
  .object [("key",.string key),("namespace",.string group),("value",.string value)]

/-- The value of a line. -/
def transcriptEvent (timestamp eventType : String) (data : JsonValue) : JsonValue :=
  .object [("data",data),("event_type",.string eventType),("timestamp",.string timestamp)]

namespace Database

/-- An empty database with an empty transcript. -/
def empty : Database := ⟨HeartbeatPulses.Database.empty,[],[]⟩

/-- Appends a line to the transcript, as far as the file takes it. -/
def recordTranscript (db : Database) (c : Conditions) (eventType : String) (data : JsonValue) :
    Database :=
  { db with
    transcript :=
      db.transcript++written (line (transcriptEvent c.logged eventType data)) c.reached }

/-- Stores a turn. -/
def recordTurn (db : Database) (c : Conditions) (role prompt response : String)
    (durationMs : UInt64) : Option Database :=
  if c.refused then none
  else
    let row : TurnRow :=
      ⟨db.turns.length+1,"default",role,prompt,response,asI64 durationMs,c.now⟩
    some (recordTranscript { db with turns := db.turns++[row] } c "chat_turn"
      (chatTurnData role prompt response durationMs))

/-- The last turns, the newest first. -/
def listRecentTurns (db : Database) (limit : UInt64) : List TurnRecord :=
  (limited (asI64 limit) 0 db.turns.reverse).map TurnRow.record

/-- Stores a receipt, in place of the one of its tick. -/
def recordHeartbeatTick (db : Database) (c : Conditions) (receipt : PulseReceipt) :
    Option Database :=
  if c.refused then none
  else some (recordTranscript { db with tables := db.tables.recordHeartbeatTick receipt } c
    "heartbeat_tick" (heartbeatTickData receipt))

/-- Queues a task. -/
def createTask (db : Database) (c : Conditions) (id taskType payload : String) : Option Database :=
  if c.refused then none
  else (db.tables.createTask id taskType payload c.now).map fun tables =>
    recordTranscript { db with tables := tables } c "task_created"
      (taskCreatedData id taskType payload)

/-- Moves a pending task to running, and whether it did. -/
def claimTask (db : Database) (c : Conditions) (id : String) : Option (Database×Bool) :=
  if c.refused then none
  else some ({ db with tables := (db.tables.claimTask id).1 },(db.tables.claimTask id).2)

/-- Stores the result of a task. -/
def completeTask (db : Database) (c : Conditions) (id result : String) : Option Database :=
  if c.refused then none
  else some (recordTranscript { db with tables := db.tables.completeTask id result c.now } c
    "task_completed" (taskCompletedData id result c.now))

/-- Stores a crumb, in place of the one of its key. -/
def storeCrumb (db : Database) (c : Conditions) (key value group : String) : Option Database :=
  if c.refused then none
  else some (recordTranscript { db with tables := db.tables.storeCrumb key value group c.now } c
    "memory_crumb" (memoryCrumbData key value group))

/-- What `get_recent_crumbs` may answer: the crumbs of a namespace, the newest first and
in any order among those of one time. -/
def RecentCrumbs (db : Database) (group : String) (limit : UInt64) (answer : List CrumbRecord) :
    Prop :=
  ∃ rows : List CrumbRecord,
    rows.Perm (db.tables.crumbs.rows.filter fun crumb => decide (crumb.group=group)) ∧
      rows.Pairwise (fun a b => b.createdAt ≤ a.createdAt) ∧ answer=limited (asI64 limit) 0 rows

end Database

/-- The writing calls. -/
inductive Call where
  | recordTurn (role prompt response : String) (durationMs : UInt64)
  | recordHeartbeatTick (receipt : PulseReceipt)
  | createTask (id taskType payload : String)
  | claimTask (id : String)
  | completeTask (id result : String)
  | storeCrumb (key value group : String)

/-- The database after a call that succeeds. -/
def perform (db : Database) (c : Conditions) : Call → Option Database
  | .recordTurn role prompt response durationMs => db.recordTurn c role prompt response durationMs
  | .recordHeartbeatTick receipt => db.recordHeartbeatTick c receipt
  | .createTask id taskType payload => db.createTask c id taskType payload
  | .claimTask id => (db.claimTask c id).map Prod.fst
  | .completeTask id result => db.completeTask c id result
  | .storeCrumb key value group => db.storeCrumb c key value group

/-- What a line tells of. -/
inductive TranscriptEvent where
  /-- A turn was recorded. -/
  | chatTurn (role prompt response : String) (durationMs : UInt64)
  /-- A receipt was recorded. -/
  | heartbeatTick (receipt : PulseReceipt)
  /-- A task was queued. -/
  | taskCreated (id taskType payload : String)
  /-- A task was completed. -/
  | taskCompleted (id result completedAt : String)
  /-- A crumb was stored. -/
  | memoryCrumb (key value group : String)

/-- The kind of an event, as its line names it. -/
def TranscriptEvent.eventType : TranscriptEvent → String
  | .chatTurn _ _ _ _ => "chat_turn"
  | .heartbeatTick _ => "heartbeat_tick"
  | .taskCreated _ _ _ => "task_created"
  | .taskCompleted _ _ _ => "task_completed"
  | .memoryCrumb _ _ _ => "memory_crumb"

/-- The data of an event, as its line holds it. -/
def TranscriptEvent.data : TranscriptEvent → JsonValue
  | .chatTurn role prompt response durationMs => chatTurnData role prompt response durationMs
  | .heartbeatTick receipt => heartbeatTickData receipt
  | .taskCreated id taskType payload => taskCreatedData id taskType payload
  | .taskCompleted id result completedAt => taskCompletedData id result completedAt
  | .memoryCrumb key value group => memoryCrumbData key value group

/-- The event that a call leaves, if it leaves one. -/
def eventOf (c : Conditions) : Call → Option TranscriptEvent
  | .recordTurn role prompt response durationMs => some (.chatTurn role prompt response durationMs)
  | .recordHeartbeatTick receipt => some (.heartbeatTick receipt)
  | .createTask id taskType payload => some (.taskCreated id taskType payload)
  | .claimTask _ => none
  | .completeTask id result => some (.taskCompleted id result c.now)
  | .storeCrumb key value group => some (.memoryCrumb key value group)

/-- A natural number. -/
def asNatural (v : JsonValue) : Option ℕ :=
  (asInteger v).bind fun z => if 0 ≤ z then some z.toNat else none

/-- Reads the data of an event of a kind. -/
def readData (eventType : String) (data : JsonValue) : Option TranscriptEvent :=
  if eventType="chat_turn" then do
    let role ← field "role" JsonValue.asStr data
    let prompt ← field "prompt" JsonValue.asStr data
    let response ← field "response" JsonValue.asStr data
    let durationMs ← field "duration_ms" SerdeRecords.asU64 data
    return .chatTurn role prompt response durationMs
  else if eventType="heartbeat_tick" then do
    let tickId ← field "tick_id" SerdeRecords.asU64 data
    let timestamp ← field "timestamp" JsonValue.asStr data
    let status ← field "status" JsonValue.asStr data
    let tasksScanned ← field "tasks_scanned" asNatural data
    let actionsDispatched ← field "actions_dispatched" asNatural data
    let notes ← field "notes" JsonValue.asStr data
    return .heartbeatTick ⟨tickId,timestamp,status,tasksScanned,actionsDispatched,notes⟩
  else if eventType="task_created" then do
    let id ← field "id" JsonValue.asStr data
    let taskType ← field "task_type" JsonValue.asStr data
    let payload ← field "payload" JsonValue.asStr data
    return .taskCreated id taskType payload
  else if eventType="task_completed" then do
    let id ← field "id" JsonValue.asStr data
    let result ← field "result" JsonValue.asStr data
    let completedAt ← field "completed_at" JsonValue.asStr data
    return .taskCompleted id result completedAt
  else if eventType="memory_crumb" then do
    let key ← field "key" JsonValue.asStr data
    let value ← field "value" JsonValue.asStr data
    let group ← field "namespace" JsonValue.asStr data
    return .memoryCrumb key value group
  else none

/-- Reads the value of a line: its time and its event. -/
def readEvent (v : JsonValue) : Option (String×TranscriptEvent) := do
  let timestamp ← field "timestamp" JsonValue.asStr v
  let eventType ← field "event_type" JsonValue.asStr v
  let data ← v.get "data"
  let event ← readData eventType data
  return (timestamp,event)

/-- Reads a transcript. -/
def readTranscript (text : List Char) : Option (List (String×TranscriptEvent)) :=
  (readLines text).bind fun vs => vs.mapM readEvent

/-- What a replay knows of a task. -/
structure ReplayedTask where
  /-- What kind of task. -/
  taskType : String
  /-- Its argument. -/
  payload : String
  /-- Its last result, and when it was stored. -/
  outcome : Option (String×String)

/-- What a replay rebuilds. -/
structure Replayed where
  /-- The turns, oldest first. -/
  turns : List (String×String×String×UInt64)
  /-- The heartbeat rows by tick. -/
  ticks : ℤ → Option HeartbeatRow
  /-- The crumbs by key: value and namespace. -/
  crumbs : String → Option (String×String)
  /-- The tasks by identifier. -/
  tasks : String → Option ReplayedTask

/-- Nothing. -/
def Replayed.empty : Replayed := ⟨[],fun _ => none,fun _ => none,fun _ => none⟩

/-- One more event. -/
def Replayed.apply (r : Replayed) : TranscriptEvent → Replayed
  | .chatTurn role prompt response durationMs =>
    { r with turns := r.turns++[(role,prompt,response,durationMs)] }
  | .heartbeatTick receipt =>
    { r with
      ticks := Function.update r.ticks (asI64 receipt.tickId) (some (heartbeatRow receipt)) }
  | .taskCreated id taskType payload =>
    { r with tasks := Function.update r.tasks id (some ⟨taskType,payload,none⟩) }
  | .taskCompleted id result completedAt =>
    { r with
      tasks := Function.update r.tasks id
        ((r.tasks id).map fun task => { task with outcome := some (result,completedAt) }) }
  | .memoryCrumb key value group =>
    { r with crumbs := Function.update r.crumbs key (some (value,group)) }

/-- Replays events. -/
def replay (events : List TranscriptEvent) : Replayed := events.foldl Replayed.apply Replayed.empty

/-- The database after a call, whether it succeeded or not. -/
def after (db : Database) (x : Conditions×Call) : Database := (perform db x.1 x.2).getD db

/-- The database after calls. -/
def afterAll (db : Database) (calls : List (Conditions×Call)) : Database := calls.foldl after db

/-- The calls that succeed, one after the other. -/
def performed (db : Database) : List (Conditions×Call) → List (Conditions×Call)
  | [] => []
  | x::calls =>
    match perform db x.1 x.2 with
    | some db' => x::performed db' calls
    | none => performed db calls

/-- The text of a line. -/
def lineOf (entry : String×TranscriptEvent) : List Char :=
  line (transcriptEvent entry.1 entry.2.eventType entry.2.data)

/-- The line that a call appends, if it appends one. -/
def entryOf (x : Conditions×Call) : Option (String×TranscriptEvent) :=
  (eventOf x.1 x.2).map fun e => (x.1.logged,e)

/-- What of it a reader finds in the file. -/
def writtenBy (x : Conditions×Call) : List Char :=
  (entryOf x).toList.flatMap fun entry => written (lineOf entry) x.1.reached

/-- The line, if all of it reaches the file. -/
def landed (x : Conditions×Call) : Option (String×TranscriptEvent) :=
  (entryOf x).filter fun entry => decide (byteCount (lineOf entry) ≤ x.1.reached)

/-- The whole lines that calls leave in the file. -/
def entries (db : Database) (calls : List (Conditions×Call)) : List (String×TranscriptEvent) :=
  (performed db calls).filterMap landed

/-- A part of the line stands in the file. -/
def Torn (x : Conditions×Call) : Prop := landed x=none ∧ writtenBy x≠[]

/-- No whole line is appended after a part of one. -/
def TornLast (db : Database) (calls : List (Conditions×Call)) : Prop :=
  (performed db calls).Pairwise fun x y => Torn x → landed y=none

/-- The file takes all of the line, if there is one. -/
def Whole (x : Conditions×Call) : Prop := landed x=entryOf x

/-- The value of a line is tidy. -/
theorem tidy_event (timestamp : String) (e : TranscriptEvent) :
    Tidy (transcriptEvent timestamp e.eventType e.data) := by
  have hdata : Tidy e.data := by
    cases e with
    | chatTurn role prompt response durationMs =>
      refine .object (List.pairwise_map.mp (by decide :
        ["duration_ms","prompt","response","role"].Pairwise (· < ·))) ?_
      simpa using ⟨.integer,.string,.string,.string⟩
    | heartbeatTick receipt =>
      refine .object (List.pairwise_map.mp (by decide :
        ["actions_dispatched","notes","status","tasks_scanned","tick_id","timestamp"].Pairwise
          (· < ·))) ?_
      simpa using ⟨.integer,.string,.string,.integer,.integer,.string⟩
    | taskCreated id taskType payload =>
      refine .object (List.pairwise_map.mp (by decide :
        ["id","payload","task_type"].Pairwise (· < ·))) ?_
      simpa using ⟨.string,.string,.string⟩
    | taskCompleted id result completedAt =>
      refine .object (List.pairwise_map.mp (by decide :
        ["completed_at","id","result"].Pairwise (· < ·))) ?_
      simpa using ⟨.string,.string,.string⟩
    | memoryCrumb key value group =>
      refine .object (List.pairwise_map.mp (by decide :
        ["key","namespace","value"].Pairwise (· < ·))) ?_
      simpa using ⟨.string,.string,.string⟩
  refine .object (List.pairwise_map.mp (by decide :
    ["data","event_type","timestamp"].Pairwise (· < ·))) ?_
  simpa using ⟨hdata,.string,.string⟩

@[simp] theorem asNatural_integer (n : ℕ) : asNatural (integer n)=some n := by
  rw [asNatural,asInteger_integer,Option.bind_some,if_pos (Int.natCast_nonneg n),Int.toNat_natCast]

/-- The value of a line is read as its event. -/
theorem readEvent_value (timestamp : String) (e : TranscriptEvent) :
    readEvent (transcriptEvent timestamp e.eventType e.data)=some (timestamp,e) := by
  have hdata : readData e.eventType e.data=some e := by
    cases e <;> simp [readData,TranscriptEvent.eventType,TranscriptEvent.data,chatTurnData,
      heartbeatTickData,taskCreatedData,taskCompletedData,memoryCrumbData,field,JsonValue.get,
      JsonValue.asStr]
  simp [readEvent,transcriptEvent,field,JsonValue.get,JsonValue.asStr,hdata]

/-- The lines of a transcript are read as its events; a torn line at the end is left out. -/
theorem readTranscript_lines (entries : List (String×TranscriptEvent)) {tail : List Char}
    (htail : '\n'∉tail) : readTranscript (entries.flatMap lineOf++tail)=some entries := by
  have hvalues : entries.flatMap lineOf=
      (entries.map fun x => transcriptEvent x.1 x.2.eventType x.2.data).flatMap line := by
    rw [List.flatMap_map]
    rfl
  have htidy : ∀ v∈entries.map fun x => transcriptEvent x.1 x.2.eventType x.2.data, Tidy v := by
    intro v hv
    obtain ⟨x,-,rfl⟩ := List.mem_map.mp hv
    exact tidy_event x.1 x.2
  rw [readTranscript,hvalues,readLines_written htidy htail,Option.bind_some]
  clear hvalues htidy
  induction entries with
  | nil => rfl
  | cons x entries ih =>
    rw [List.map_cons,List.mapM_cons,readEvent_value,ih]
    rfl

/-- A turn as a replay knows it. -/
def TurnRow.turn (row : TurnRow) : String×String×String×UInt64 :=
  (row.role,row.prompt,row.response,SignedColumns.asU64 row.durationMs)

/-- A task as a replay knows it. -/
def shownTask (task : TaskRecord) : ReplayedTask where
  taskType := task.taskType
  payload := task.payload
  outcome := task.result.bind fun result => task.completedAt.map fun time => (result,time)

/-- What the tables hold of what a replay rebuilds. -/
def Database.shown (db : Database) : Replayed where
  turns := db.turns.map TurnRow.turn
  ticks := db.tables.heartbeats.find
  crumbs := fun key => (db.tables.crumbs.find key).map fun crumb => (crumb.value,crumb.group)
  tasks := fun id => (db.tables.tasks.find id).map shownTask

variable {db db' : Database} {c : Conditions} {call : Call}

/-- A line changes no table. -/
theorem shown_recordTranscript (eventType : String) (data : JsonValue) :
    (db.recordTranscript c eventType data).shown=db.shown := rfl

/-- A queued task is shown as a new one. -/
theorem shown_createTask {tables : HeartbeatPulses.Database} {id taskType payload now : String}
    (h : db.tables.createTask id taskType payload now=some tables) :
    ({ db with tables := tables } : Database).shown=
      db.shown.apply (.taskCreated id taskType payload) := by
  obtain ⟨tasks,hinsert,rfl⟩ := Option.map_eq_some_iff.mp h
  have htasks : ∀ id', (tasks.find id').map shownTask=
      Function.update (fun id' => (db.tables.tasks.find id').map shownTask) id
        (some ⟨taskType,payload,none⟩) id' := by
    intro id'
    rw [Table.find_insert hinsert,Function.update_apply]
    by_cases hid : id=id'
    · rw [if_pos hid,if_pos hid.symm]
      rfl
    · rw [if_neg hid,if_neg (Ne.symm hid)]
  exact congrArg (fun tasks => (⟨_,_,_,tasks⟩ : Replayed)) (funext htasks)

/-- A claim is not shown. -/
theorem shown_claimTask (id : String) :
    ({ db with tables := (db.tables.claimTask id).1 } : Database).shown=db.shown := by
  have htasks : ∀ id', ((db.tables.tasks.modify id TaskRecord.claimed TaskRecord.claimed_id).find
      id').map shownTask=(db.tables.tasks.find id').map shownTask := by
    intro id'
    rw [Table.find_modify]
    split
    · rw [Option.map_map]
      congr 1
      funext task
      rw [Function.comp_apply,HeartbeatPulses.TaskRecord.claimed]
      split <;> rfl
    · rfl
  exact congrArg (fun tasks => (⟨_,_,_,tasks⟩ : Replayed)) (funext htasks)

/-- A completed task is shown with its result. -/
theorem shown_completeTask (id result now : String) :
    ({ db with tables := db.tables.completeTask id result now } : Database).shown=
      db.shown.apply (.taskCompleted id result now) := by
  have htasks : ∀ id', ((db.tables.tasks.modify id (TaskRecord.finished result now)
      (TaskRecord.finished_id result now)).find id').map shownTask=
      Function.update (fun id' => (db.tables.tasks.find id').map shownTask) id
        (((db.tables.tasks.find id).map shownTask).map fun task =>
          { task with outcome := some (result,now) }) id' := by
    intro id'
    rw [Table.find_modify,Function.update_apply]
    by_cases hid : id'=id
    · rw [if_pos hid,if_pos hid,hid,Option.map_map,Option.map_map]
      rfl
    · rw [if_neg hid,if_neg hid]
  exact congrArg (fun tasks => (⟨_,_,_,tasks⟩ : Replayed)) (funext htasks)

/-- A stored crumb is shown in place of the one of its key, whatever its namespace was. -/
theorem shown_storeCrumb (key value group now : String) :
    ({ db with tables := db.tables.storeCrumb key value group now } : Database).shown=
      db.shown.apply (.memoryCrumb key value group) := by
  have hcrumbs : ∀ key', (((db.tables.crumbs.replace ⟨key,value,group,now⟩).find key').map
      fun crumb => (crumb.value,crumb.group))=
      Function.update (fun key' => (db.tables.crumbs.find key').map fun crumb =>
        (crumb.value,crumb.group)) key (some (value,group)) key' := by
    intro key'
    rw [Table.find_replace,Function.update_apply]
    by_cases hkey : key=key'
    · rw [if_pos hkey,if_pos hkey.symm]
      rfl
    · rw [if_neg hkey,if_neg (Ne.symm hkey)]
  exact congrArg (fun crumbs => (⟨_,_,crumbs,_⟩ : Replayed)) (funext hcrumbs)

/-- A receipt is shown in place of the one of its tick. -/
theorem shown_recordHeartbeatTick (receipt : PulseReceipt) :
    ({ db with tables := db.tables.recordHeartbeatTick receipt } : Database).shown=
      db.shown.apply (.heartbeatTick receipt) := by
  have hticks : ∀ tick, (db.tables.heartbeats.replace (heartbeatRow receipt)).find tick=
      Function.update db.tables.heartbeats.find (asI64 receipt.tickId)
        (some (heartbeatRow receipt)) tick := by
    intro tick
    rw [Table.find_replace,Function.update_apply]
    by_cases htick : asI64 receipt.tickId=tick
    · rw [if_pos htick.symm]
      exact if_pos htick
    · rw [if_neg (Ne.symm htick)]
      exact if_neg htick
  exact congrArg (fun ticks => (⟨_,ticks,_,_⟩ : Replayed)) (funext hticks)

/-- A recorded turn is shown last. -/
theorem shown_recordTurn {row : TurnRow} {durationMs : UInt64}
    (hduration : row.durationMs=asI64 durationMs) :
    ({ db with turns := db.turns++[row] } : Database).shown=
      db.shown.apply (.chatTurn row.role row.prompt row.response durationMs) := by
  have hturn : row.turn=(row.role,row.prompt,row.response,durationMs) := by
    rw [TurnRow.turn,hduration,asU64_asI64]
  have hturns : (db.turns++[row]).map TurnRow.turn=
      db.turns.map TurnRow.turn++[(row.role,row.prompt,row.response,durationMs)] := by
    rw [List.map_append,List.map_singleton,hturn]
  exact congrArg (fun turns => (⟨turns,_,_,_⟩ : Replayed)) hturns

/-- What a call with an event leaves in the file. -/
theorem writtenBy_eq {e : TranscriptEvent} (h : eventOf c call=some e) :
    writtenBy (c,call)=written (lineOf (c.logged,e)) c.reached := by
  rw [writtenBy,entryOf,h]
  exact List.append_nil _

/-- What a call that succeeds does: it appends of its line what the file takes, and the
tables then show its event. -/
structure Performed (db db' : Database) (c : Conditions) (call : Call) : Prop where
  /-- The transcript has what was taken of the line. -/
  transcript : db'.transcript=db.transcript++writtenBy (c,call)
  /-- The tables show the event. -/
  shown : db'.shown=(eventOf c call).elim db.shown db.shown.apply

/-- A statement and its line. -/
theorem performed_of_event {mid : Database} {e : TranscriptEvent}
    (hevent : eventOf c call=some e) (htranscript : mid.transcript=db.transcript)
    (hshown : mid.shown=db.shown.apply e) :
    Performed db (mid.recordTranscript c e.eventType e.data) c call := by
  refine ⟨?_,?_⟩
  · rw [Database.recordTranscript,htranscript,writtenBy_eq hevent]
    rfl
  · rw [shown_recordTranscript,hshown,hevent]
    rfl

/-- A value behind a refusal. -/
theorem not_refused {α : Type} {refused : Bool} {value : Option α} {a : α}
    (h : (if refused then none else value)=some a) : value=some a := by
  cases refused with
  | false => exact h
  | true => cases h

/-- What every call does. -/
theorem perform_ok (h : perform db c call=some db') : Performed db db' c call := by
  cases call with
  | recordTurn role prompt response durationMs =>
    cases not_refused h
    exact performed_of_event (e:=.chatTurn role prompt response durationMs) rfl rfl
      (shown_recordTurn rfl)
  | recordHeartbeatTick receipt =>
    cases not_refused h
    exact performed_of_event (e:=.heartbeatTick receipt) rfl rfl (shown_recordHeartbeatTick receipt)
  | createTask id taskType payload =>
    obtain ⟨tables,hcreate,rfl⟩ := Option.map_eq_some_iff.mp (not_refused h)
    exact performed_of_event (e:=.taskCreated id taskType payload) rfl rfl (shown_createTask hcreate)
  | claimTask id =>
    obtain ⟨⟨claimed,did⟩,hclaim,rfl⟩ := Option.map_eq_some_iff.mp h
    cases not_refused hclaim
    have hnone : writtenBy (c,.claimTask id)=[] := rfl
    exact ⟨by rw [hnone,List.append_nil],shown_claimTask id⟩
  | completeTask id result =>
    cases not_refused h
    exact performed_of_event (e:=.taskCompleted id result c.now) rfl rfl
      (shown_completeTask id result c.now)
  | storeCrumb key value group =>
    cases not_refused h
    exact performed_of_event (e:=.memoryCrumb key value group) rfl rfl
      (shown_storeCrumb key value group c.now)

/-- After calls the transcript has what the file took of their lines. -/
theorem transcript_afterAll (db : Database) (calls : List (Conditions×Call)) :
    (afterAll db calls).transcript=db.transcript++(performed db calls).flatMap writtenBy := by
  induction calls generalizing db with
  | nil => exact (List.append_nil _).symm
  | cons x calls ih =>
    rw [afterAll,List.foldl_cons,←afterAll,ih,after,performed]
    cases hperform : perform db x.1 x.2 with
    | none => rfl
    | some db' =>
      rw [Option.getD_some,(perform_ok hperform).transcript,List.append_assoc,List.flatMap_cons]

/-- A whole line is found as it is. -/
theorem writtenBy_landed {x : Conditions×Call} {entry : String×TranscriptEvent}
    (h : landed x=some entry) : writtenBy x=lineOf entry := by
  obtain ⟨hentry,hreached⟩ := Option.filter_eq_some_iff.mp h
  rw [writtenBy,hentry,Option.toList_some,List.flatMap_singleton,
    written_all (of_decide_eq_true hreached)]

/-- What else is found has no line break. -/
theorem newline_notin_writtenBy {x : Conditions×Call} (h : landed x=none) :
    '\n'∉writtenBy x := by
  cases hentry : entryOf x with
  | none =>
    rw [writtenBy,hentry]
    exact List.not_mem_nil
  | some entry =>
    have hreached : ¬byteCount (lineOf entry) ≤ x.1.reached := by
      rw [landed,hentry,Option.filter_some] at h
      split at h
      · cases h
      · next hpart => exact of_decide_eq_false (Bool.eq_false_iff.mpr hpart)
    rw [writtenBy,hentry,Option.toList_some,List.flatMap_singleton]
    exact written_part (tidy_event entry.1 entry.2).printable.newline (Nat.lt_of_not_le hreached)

/-- Where no whole line comes after a part of one, the file has the whole lines and at its
end parts without a line break. -/
theorem writtenBy_split {xs : List (Conditions×Call)}
    (h : xs.Pairwise fun x y => Torn x → landed y=none) :
    ∃ tail, '\n'∉tail ∧ xs.flatMap writtenBy=(xs.filterMap landed).flatMap lineOf++tail := by
  induction h with
  | nil => exact ⟨[],List.not_mem_nil,rfl⟩
  | @cons x xs hx _ ih =>
    obtain ⟨tail,htail,hsplit⟩ := ih
    cases hlanded : landed x with
    | some entry =>
      refine ⟨tail,htail,?_⟩
      rw [List.flatMap_cons,writtenBy_landed hlanded,hsplit,List.filterMap_cons_some hlanded,
        List.flatMap_cons,List.append_assoc]
    | none =>
      rw [List.filterMap_cons_none hlanded,List.flatMap_cons]
      by_cases htorn : writtenBy x=[]
      · exact ⟨tail,htail,by rw [htorn,List.nil_append,hsplit]⟩
      · have hlater : xs.filterMap landed=[] :=
          List.filterMap_eq_nil_iff.mpr fun y hy => hx y hy ⟨hlanded,htorn⟩
        rw [hlater,List.flatMap_nil,List.nil_append] at hsplit
        rw [hlater,List.flatMap_nil,hsplit]
        refine ⟨writtenBy x++tail,fun hmem => ?_,rfl⟩
        rcases List.mem_append.mp hmem with hfirst|hrest
        · exact newline_notin_writtenBy hlanded hfirst
        · exact htail hrest

theorem performed_subset (db : Database) (calls : List (Conditions×Call)) :
    performed db calls⊆calls := by
  induction calls generalizing db with
  | nil => exact fun _ h => h
  | cons x calls ih =>
    rw [performed]
    split
    · exact List.cons_subset_cons x (ih _)
    · exact fun y hy => List.mem_cons_of_mem x (ih _ hy)

/-- Lines that are all whole are never torn. -/
theorem tornLast_of_whole {db : Database} {calls : List (Conditions×Call)}
    (h : ∀ x∈calls, Whole x) : TornLast db calls := by
  have hwhole : ∀ x∈performed db calls, Whole x := fun x hx => h x (performed_subset db calls hx)
  refine List.Pairwise.imp_of_mem (R:=fun _ _ => True) (fun {x y} hx _ _ htorn => ?_)
    (List.pairwise_of_forall fun _ _ => trivial)
  refine absurd ?_ htorn.2
  rw [writtenBy,←hwhole x hx,htorn.1]
  rfl

/-- After calls whose lines are all whole the tables show what a replay rebuilds. -/
theorem shown_afterAll (db : Database) (calls : List (Conditions×Call))
    (hwhole : ∀ x∈calls, Whole x) :
    (afterAll db calls).shown=((entries db calls).map Prod.snd).foldl Replayed.apply db.shown := by
  induction calls generalizing db with
  | nil => rfl
  | cons x calls ih =>
    obtain ⟨hx,hcalls⟩ := List.forall_mem_cons.mp hwhole
    rw [afterAll,List.foldl_cons,←afterAll,ih _ hcalls,after,entries,entries,performed]
    cases hperform : perform db x.1 x.2 with
    | none => rfl
    | some db' =>
      rw [Option.getD_some,(perform_ok hperform).shown]
      have hentry : landed x=(eventOf x.1 x.2).map fun e => (x.1.logged,e) := hx
      cases hevent : eventOf x.1 x.2 with
      | none =>
        rw [hevent] at hentry
        rw [List.filterMap_cons_none hentry]
        rfl
      | some e =>
        rw [hevent] at hentry
        rw [List.filterMap_cons_some hentry]
        rfl

/-- The answers that a replay gives. -/
structure Rebuilds (r : Replayed) (db : Database) : Prop where
  /-- The last turns, the newest first; from a limit of 63 bits on there is none. -/
  turns : ∀ limit, ((db.listRecentTurns limit).map fun turn =>
    (turn.role,turn.prompt,turn.response,turn.durationMs))=limited (asI64 limit) 0 r.turns.reverse
  /-- The heartbeat row of every tick. -/
  ticks : ∀ tick, db.tables.heartbeats.find tick=r.ticks tick
  /-- The crumbs of a namespace: no others, and all of them where the limit lets them through. -/
  crumbs : ∀ group limit answer, db.RecentCrumbs group limit answer →
    (∀ crumb∈answer, r.crumbs crumb.key=some (crumb.value,group)) ∧
      (db.tables.crumbs.rows.length ≤ limit.toNat → ∀ key value,
        r.crumbs key=some (value,group) → ∃ crumb∈answer, crumb.key=key ∧ crumb.value=value)
  /-- The kind, the payload and the last result of every task. -/
  tasks : ∀ id, (db.tables.tasks.find id).map shownTask=r.tasks id

/-- A limit that is long enough lets all the rows through. -/
theorem limited_of_le {α : Type} {rows : List α} {limit : UInt64} (h : rows.length ≤ limit.toNat) :
    limited (asI64 limit) 0 rows=rows := by
  refine limited_zero_of_le fun hpos => ?_
  have hlt : limit.toNat < 2^63 := by
    by_contra hge
    have hneg : asI64 limit=limit.toNat-2^64 := if_neg hge
    have hbound := limit.toNat_lt
    omega
  rwa [asI64_of_lt hlt,Int.toNat_natCast]

/-- What the tables show is what the calls answer. -/
theorem rebuilds_shown (db : Database) : Rebuilds db.shown db := by
  refine ⟨fun limit => ?_,fun _ => rfl,fun group limit answer hanswer => ?_,fun _ => rfl⟩
  · rw [Database.listRecentTurns,limited_map,limited_map,Database.shown,←List.map_reverse,
      List.map_map]
    rfl
  · obtain ⟨rows,hperm,-,rfl⟩ := hanswer
    have hmem : ∀ crumb, crumb∈rows ↔ crumb∈db.tables.crumbs.rows ∧ crumb.group=group := by
      intro crumb
      rw [hperm.mem_iff,List.mem_filter,decide_eq_true_eq]
    refine ⟨fun crumb hcrumb => ?_,fun hlength key value hshown => ?_⟩
    · obtain ⟨hrow,hgroup⟩ := (hmem crumb).mp ((limited_sublist _ _ _).subset hcrumb)
      have hfind : db.tables.crumbs.find crumb.key=some crumb :=
        Table.find_eq_some_iff.mpr ⟨hrow,rfl⟩
      rw [←hgroup]
      exact congrArg (Option.map fun crumb => (crumb.value,crumb.group)) hfind
    · obtain ⟨crumb,hfind,hpair⟩ := Option.map_eq_some_iff.mp hshown
      obtain ⟨hrow,hkey⟩ := Table.find_eq_some_iff.mp hfind
      have hall : rows.length ≤ limit.toNat :=
        (hperm.length_eq.trans_le (List.length_filter_le _ _)).trans hlength
      rw [limited_of_le hall]
      exact ⟨crumb,(hmem crumb).mpr ⟨hrow,congrArg Prod.snd hpair⟩,hkey,congrArg Prod.fst hpair⟩

/-- The same rows, whatever the transcripts are. -/
structure SameRows (db db' : Database) : Prop where
  /-- The tables that pulses use. -/
  tables : db.tables=db'.tables
  /-- The turns. -/
  turns : db.turns=db'.turns

/-- The same call, which the database meets alike, whatever becomes of its line. -/
structure SameCall (x y : Conditions×Call) : Prop where
  /-- The database refuses both or none. -/
  refused : x.1.refused=y.1.refused
  /-- The rows get the same time. -/
  now : x.1.now=y.1.now
  /-- The call. -/
  call : x.2=y.2

theorem SameRows.recordTranscript {c' : Conditions} {eventType eventType' : String}
    {data data' : JsonValue} (h : SameRows db db') :
    SameRows (db.recordTranscript c eventType data) (db'.recordTranscript c' eventType' data') := by
  exact ⟨h.tables,h.turns⟩

/-- A call does the same to the same rows, whatever stands in the transcript. -/
theorem SameRows.perform {c' : Conditions} (h : SameRows db db') (hrefused : c.refused=c'.refused)
    (hnow : c.now=c'.now) (call : Call) :
    Option.Rel SameRows (perform db c call) (perform db' c' call) := by
  obtain ⟨htables,hturns⟩ := h
  cases hdown : c.refused with
  | true =>
    have hdown' : c'.refused=true := hrefused.symm.trans hdown
    have hnone : ∀ {db : Database} {c : Conditions}, c.refused=true →
        TranscriptReplays.perform db c call=none := by
      intro db c hrefused
      cases call with
      | claimTask id => exact congrArg (Option.map Prod.fst) (if_pos hrefused)
      | _ => exact if_pos hrefused
    rw [hnone hdown,hnone hdown']
    exact .none
  | false =>
    have hup' : c'.refused=false := hrefused.symm.trans hdown
    cases call with
    | recordTurn role prompt response durationMs =>
      simp only [TranscriptReplays.perform,Database.recordTurn,hdown,hup',hturns,hnow]
      exact .some (SameRows.recordTranscript ⟨htables,rfl⟩)
    | recordHeartbeatTick receipt =>
      simp only [TranscriptReplays.perform,Database.recordHeartbeatTick,hdown,hup',htables]
      exact .some (SameRows.recordTranscript ⟨rfl,hturns⟩)
    | createTask id taskType payload =>
      simp only [TranscriptReplays.perform,Database.createTask,hdown,hup',htables,hnow]
      cases db'.tables.createTask id taskType payload c'.now with
      | none => exact .none
      | some tables => exact .some (SameRows.recordTranscript ⟨rfl,hturns⟩)
    | claimTask id =>
      simp only [TranscriptReplays.perform,Database.claimTask,hdown,hup',htables]
      exact .some ⟨rfl,hturns⟩
    | completeTask id result =>
      simp only [TranscriptReplays.perform,Database.completeTask,hdown,hup',htables,hnow]
      exact .some (SameRows.recordTranscript ⟨rfl,hturns⟩)
    | storeCrumb key value group =>
      simp only [TranscriptReplays.perform,Database.storeCrumb,hdown,hup',htables,hnow]
      exact .some (SameRows.recordTranscript ⟨rfl,hturns⟩)

/-- The same calls leave the same rows, whatever becomes of their lines. -/
theorem SameRows.afterAll {calls calls' : List (Conditions×Call)} (h : SameRows db db')
    (hcalls : List.Forall₂ SameCall calls calls') :
    SameRows (afterAll db calls) (afterAll db' calls') := by
  induction hcalls generalizing db db' with
  | nil => exact h
  | @cons x y calls calls' hxy _ ih =>
    refine ih ?_
    have hrel := h.perform hxy.refused hxy.now x.2
    rw [hxy.call] at hrel
    rw [after,after,hxy.call]
    generalize TranscriptReplays.perform db x.1 y.2=left at hrel ⊢
    generalize TranscriptReplays.perform db' y.1 y.2=right at hrel ⊢
    cases hrel with
    | none => exact h
    | some hsame => exact hsame

/-- Over any calls, refused ones included: as long as no whole line is appended to a part
of one, the transcript is read as the whole lines that it has, in their order; when it took
every line, replaying it rebuilds the turns, the heartbeats, the crumbs and what became of
the tasks; and the rows are the same whatever it took. -/
theorem transcript_replays (calls : List (Conditions×Call)) :
    (TornLast Database.empty calls →
        readTranscript (afterAll Database.empty calls).transcript=
          some (entries Database.empty calls)) ∧
      ((∀ x∈calls, Whole x) → ∀ events,
        readTranscript (afterAll Database.empty calls).transcript=some events →
        Rebuilds (replay (events.map Prod.snd)) (afterAll Database.empty calls)) ∧
      ∀ calls', List.Forall₂ SameCall calls calls' →
        SameRows (afterAll Database.empty calls) (afterAll Database.empty calls') := by
  have hread : TornLast Database.empty calls →
      readTranscript (afterAll Database.empty calls).transcript=
        some (entries Database.empty calls) := by
    intro htorn
    obtain ⟨tail,htail,hsplit⟩ := writtenBy_split htorn
    rw [transcript_afterAll,hsplit]
    exact readTranscript_lines _ htail
  refine ⟨hread,fun hwhole events hevents => ?_,fun calls' hcalls => ?_⟩
  · have hentries := hread (tornLast_of_whole hwhole)
    rw [hevents] at hentries
    cases hentries
    have hshown : replay ((entries Database.empty calls).map Prod.snd)=
        (afterAll Database.empty calls).shown :=
      (shown_afterAll Database.empty calls hwhole).symm
    rw [hshown]
    exact rebuilds_shown _
  · exact SameRows.afterAll ⟨rfl,rfl⟩ hcalls

end AegisRuntime.TranscriptReplays
