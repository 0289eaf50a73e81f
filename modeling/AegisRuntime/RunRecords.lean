import AegisRuntime.RunStore
import AegisRuntime.SerdeRecords
import AegisRuntime.StableSorts
import AegisRuntime.WriteHistories

/-!
# The run store over text columns

`SqliteRunStore` with the columns as they are stored: the state as its text, the
trigger, the budget and the reason of the end as JSON texts, the counters as
signed integers. The engine's choices of order and of one row, its refusals and
the JSON crate are parameters. The result is that the store answers from the
history of its successful calls, and that a call that fails changes no answer.
-/

namespace AegisRuntime.RunRecords

open KeyedTables WriteHistories StableSorts JsonValues JsonTexts SerdeRecords RunStore

/-- An adjacently tagged variant: its name and, unless it is a unit, its text. -/
def taggedMembers (name : String) : Option String → List (String×JsonValue)
  | none => [("type",.string name)]
  | some payload => [("type",.string name),("payload",.string payload)]

/-- The name and the payload of a trigger. -/
def Trigger.tag : Trigger → String×Option String
  | .userMessage id => ("UserMessage",some id)
  | .heartbeat => ("Heartbeat",none)
  | .scheduledTask name => ("ScheduledTask",some name)
  | .toolResult id => ("ToolResult",some id)
  | .externalEvent name => ("ExternalEvent",some name)
  | .resume => ("Resume",none)

/-- The members that stand for a trigger. -/
def Trigger.members (trigger : Trigger) : List (String×JsonValue) :=
  taggedMembers (Trigger.tag trigger).1 (Trigger.tag trigger).2

/-- Reads a trigger. -/
def Trigger.fromJson (v : JsonValue) : Option Trigger :=
  let payload := field "payload" JsonValue.asStr v
  let bare := fun trigger : Trigger => if (v.get "payload").isNone then some trigger else none
  (field "type" JsonValue.asStr v).bind fun name =>
    if name="UserMessage" then payload.map .userMessage
    else if name="Heartbeat" then bare .heartbeat
    else if name="ScheduledTask" then payload.map .scheduledTask
    else if name="ToolResult" then payload.map .toolResult
    else if name="ExternalEvent" then payload.map .externalEvent
    else if name="Resume" then bare .resume
    else none

/-- The members that stand for a budget. -/
def RunBudget.members (b : RunBudget) : List (String×JsonValue) :=
  [("max_steps",integer b.maxSteps.toNat),
    ("max_inference_calls",integer b.maxInferenceCalls.toNat),
    ("max_actions",integer b.maxActions.toNat),
    ("max_wall_time_secs",integer b.maxWallTimeSecs.toNat)]

/-- Reads a budget. -/
def RunBudget.fromJson (v : JsonValue) : Option RunBudget :=
  (field "max_steps" asU32 v).bind fun maxSteps =>
    (field "max_inference_calls" asU32 v).bind fun maxInferenceCalls =>
      (field "max_actions" asU32 v).bind fun maxActions =>
        (field "max_wall_time_secs" asU64 v).map fun maxWallTimeSecs =>
          ⟨maxSteps,maxInferenceCalls,maxActions,maxWallTimeSecs⟩

/-- An externally tagged variant: a string, or an object with one member. -/
def TerminationReason.toJson : TerminationReason → JsonValue
  | .completed => .string "completed"
  | .stepLimitExceeded => .string "step_limit_exceeded"
  | .inferenceLimitExceeded => .string "inference_limit_exceeded"
  | .timeLimitExceeded => .string "time_limit_exceeded"
  | .userCancelled => .string "user_cancelled"
  | .doctrineDenied => .string "doctrine_denied"
  | .approvalRequired => .string "approval_required"
  | .inferenceFailure reason => .object [("inference_failure",.string reason)]
  | .executionFailure reason => .object [("execution_failure",.string reason)]
  | .suspended => .string "suspended"

/-- Reads the reason of an end. -/
def TerminationReason.fromJson : JsonValue → Option TerminationReason
  | .string name =>
    if name="completed" then some .completed
    else if name="step_limit_exceeded" then some .stepLimitExceeded
    else if name="inference_limit_exceeded" then some .inferenceLimitExceeded
    else if name="time_limit_exceeded" then some .timeLimitExceeded
    else if name="user_cancelled" then some .userCancelled
    else if name="doctrine_denied" then some .doctrineDenied
    else if name="approval_required" then some .approvalRequired
    else if name="suspended" then some .suspended
    else none
  | .object [(name,.string reason)] =>
    if name="inference_failure" then some (.inferenceFailure reason)
    else if name="execution_failure" then some (.executionFailure reason)
    else none
  | _ => none

/-- A tagged variant is printed and read member by member. -/
theorem prints_members {ms : List (String×JsonValue)} (hnames : (ms.map Prod.fst).Nodup)
    (h : ∀ m∈ms, Prints 126 m.2 m.2) :
    Prints DEPTH_LIMIT (.object ms) (.object (collect ms)) :=
  Prints.object hnames (List.forall₂_same.mpr fun m hm => ⟨rfl,h m hm⟩)

/-- The derived writer and reader of triggers. -/
def triggerRecord : Record Trigger where
  toJson := fun trigger => .object (Trigger.members trigger)
  fromJson := Trigger.fromJson
  reads_back := by
    have htagged : ∀ name payload, ((taggedMembers name payload).map Prod.fst).Nodup ∧
        ∀ m∈taggedMembers name payload, Prints 126 m.2 m.2 := by
      rintro name (_|payload) <;> simp [taggedMembers,Prints.string]
    intro trigger
    obtain ⟨hnames,hmembers⟩ := htagged (Trigger.tag trigger).1 (Trigger.tag trigger).2
    rw [←Trigger.members] at hnames hmembers
    refine ⟨_,prints_members hnames hmembers,?_⟩
    rw [Trigger.fromJson,field_collect hnames,field_collect hnames,get_collect hnames]
    cases trigger <;> rfl

example : triggerRecord.toStr (.userMessage "msg_1")=
    "\x7b\"type\":\"UserMessage\",\"payload\":\"msg_1\"\x7d" := by decide

/-- The derived writer and reader of budgets. -/
def budgetRecord : Record RunBudget where
  toJson := fun b => .object (RunBudget.members b)
  fromJson := RunBudget.fromJson
  reads_back := by
    intro b
    have hnames : ((RunBudget.members b).map Prod.fst).Nodup := by simp [RunBudget.members]
    have hmembers : ∀ m∈RunBudget.members b, Prints 126 m.2 m.2 := by
      simp [RunBudget.members,Prints.u32,Prints.u64]
    refine ⟨_,prints_members hnames hmembers,?_⟩
    simp only [RunBudget.fromJson,field_collect hnames]
    simp [RunBudget.members,field,JsonValue.get]

/-- The derived writer and reader of the reasons of an end. -/
def terminationRecord : Record TerminationReason where
  toJson := TerminationReason.toJson
  fromJson := TerminationReason.fromJson
  reads_back := by
    have hobject : ∀ name reason : String, Prints DEPTH_LIMIT
        (.object [(name,.string reason)]) (.object [(name,.string reason)]) := fun name reason =>
      prints_members (List.nodup_singleton name) (List.forall_mem_singleton.mpr (.string reason))
    intro termination
    cases termination with
    | inferenceFailure reason => exact ⟨_,hobject _ reason,rfl⟩
    | executionFailure reason => exact ⟨_,hobject _ reason,rfl⟩
    | _ => exact ⟨_,Prints.string _,rfl⟩

/-- A row of the `runs` table, as it is stored. -/
structure RunText where
  /-- Primary key. -/
  id : String
  /-- Foreign key into the sessions. -/
  sessionId : String
  /-- The text of the state. -/
  state : String
  /-- The trigger as JSON. -/
  triggerJson : String
  /-- The steps column. -/
  stepsUsed : ℤ
  /-- The inference calls column. -/
  inferenceCallsUsed : ℤ
  /-- The actions column. -/
  actionsUsed : ℤ
  /-- The budget as JSON. -/
  budgetJson : String
  /-- The start column. -/
  startedAt : ℤ
  /-- The end column. -/
  completedAt : Option ℤ
  /-- The reason of the end as JSON. -/
  terminationJson : Option String
  deriving DecidableEq,Repr

/-- The row that `INSERT` writes. -/
def encode (run : Run) : RunText where
  id := run.id
  sessionId := run.sessionId
  state := run.state.asStr
  triggerJson := triggerRecord.toStr run.trigger
  stepsUsed := run.stepsUsed.toNat
  inferenceCallsUsed := run.inferenceCallsUsed.toNat
  actionsUsed := run.actionsUsed.toNat
  budgetJson := budgetRecord.toStr run.budget
  startedAt := run.startedAt
  completedAt := run.completedAt
  terminationJson := run.termination.map terminationRecord.toStr

/-- The row after `UPDATE`. -/
def RunText.updated (row : RunText) (run : Run) : RunText :=
  { row with
    state := run.state.asStr
    stepsUsed := run.stepsUsed.toNat
    inferenceCallsUsed := run.inferenceCallsUsed.toNat
    actionsUsed := run.actionsUsed.toNat
    budgetJson := budgetRecord.toStr run.budget
    completedAt := run.completedAt
    terminationJson := run.termination.map terminationRecord.toStr }

theorem RunText.updated_id (run : Run) (row : RunText) : (row.updated run).id=row.id := rfl

/-- A run with the parts that an update brings; session, trigger and start stay. -/
def replaced (run update : Run) : Run :=
  { run with
    state := update.state
    stepsUsed := update.stepsUsed
    inferenceCallsUsed := update.inferenceCallsUsed
    actionsUsed := update.actionsUsed
    budget := update.budget
    completedAt := update.completedAt
    termination := update.termination }

/-- Runs as rows of the table. -/
abbrev runEncoding : Encoding Run RunText String where
  key := Run.id
  rowKey := RunText.id
  merge := replaced
  encode := encode
  rewrite := fun run row => row.updated run
  rowKey_encode := fun _ => rfl
  key_merge := fun _ _ => rfl
  merge_merge := fun _ _ _ => rfl
  rowKey_rewrite := RunText.updated_id
  rewrite_encode := fun _ _ => rfl

/-- The database engine and the JSON crate, as far as the queries leave them a choice. -/
structure Engine where
  /-- The JSON crate. -/
  serde : SerdeJson
  /-- `ORDER BY started_at DESC`. -/
  newestFirst : List RunText → List RunText
  newestFirst_perm : ∀ rows, (newestFirst rows).Perm rows
  newestFirst_sorted : ∀ rows, (newestFirst rows).Pairwise fun a b => b.startedAt ≤ a.startedAt
  /-- `LIMIT 1`. -/
  limitOne : List RunText → Option RunText
  limitOne_mem : ∀ rows row, limitOne rows=some row → row∈rows
  limitOne_none : ∀ rows, limitOne rows=none → rows=[]

/-- The grammar's reader, insertion sort and the first row. -/
instance : Inhabited Engine where
  default :=
    { serde := grammarReader
      newestFirst := fun rows => rows.insertionSort fun a b => b.startedAt ≤ a.startedAt
      newestFirst_perm := fun rows => List.perm_insertionSort _ rows
      newestFirst_sorted := fun rows =>
        (stableSort_insertionSort (fun row => OrderDual.toDual row.startedAt) rows).ordered
      limitOne := List.head?
      limitOne_mem := fun _ _ hrow => List.mem_of_head? hrow
      limitOne_none := fun _ hnone => List.head?_eq_none_iff.mp hnone }

/-- What a call meets besides the table. -/
structure Moment where
  /-- Identifiers of the stored sessions. -/
  sessions : List String
  /-- Why the engine refuses a query, if it does. -/
  queryRefusal : Option String := none
  /-- Why the engine refuses a statement that writes, if it does. -/
  writeRefusal : Option String := none
  deriving DecidableEq,Repr

/-- The table of runs. -/
abbrev RunTable : Type := Table RunText.id

/-- Whether the text of a state counts as active. -/
def isActiveText (row : RunText) : Bool := ACTIVE_STATES.contains row.state

/-- Whether a run is active. -/
def isActiveRun (run : Run) : Bool := ACTIVE_STATES.contains run.state.asStr

/-- The rows of a session: `WHERE session_id = …`. -/
def sessionRows (t : RunTable) (sessionId : String) : List RunText :=
  t.rows.filter fun row => decide (row.sessionId=sessionId)

/-- The active rows of a session: `WHERE session_id = … AND state IN …`. -/
def activeRows (t : RunTable) (sessionId : String) : List RunText :=
  t.rows.filter fun row => decide (row.sessionId=sessionId) && isActiveText row

/-- Reads a text, with the error of the store. -/
def parsed {α : Type} (engine : Engine) (r : Record α) (text : String) :
    Except PersistenceError α :=
  (engine.serde.fromStr r text).mapError .serialization

/-- Reads a text that may be missing. -/
def parsedOption {α : Type} (engine : Engine) (r : Record α) :
    Option String → Except PersistenceError (Option α)
  | none => .ok none
  | some text => (parsed engine r text).map some

/-- The run that a row stands for, the same in all three reads. -/
def decode (engine : Engine) (row : RunText) : Except PersistenceError Run :=
  match RunState.fromStr row.state with
  | none => .error (.serialization ("Invalid state: "++row.state))
  | some state => do
    let trigger ← parsed engine triggerRecord row.triggerJson
    let budget ← parsed engine budgetRecord row.budgetJson
    let termination ← parsedOption engine terminationRecord row.terminationJson
    return {
      id := row.id
      sessionId := row.sessionId
      state := state
      trigger := trigger
      stepsUsed := UInt32.ofInt row.stepsUsed
      inferenceCallsUsed := UInt32.ofInt row.inferenceCallsUsed
      actionsUsed := UInt32.ofInt row.actionsUsed
      budget := budget
      startedAt := row.startedAt
      completedAt := row.completedAt
      termination := termination }

/-- Reads a run. -/
def get (engine : Engine) (t : RunTable) (id : String) : Except PersistenceError (Option Run) :=
  match t.find id with
  | some row => (decode engine row).map some
  | none => .ok none

/-- Reads the runs of a session, the newest first. -/
def listBySession (engine : Engine) (t : RunTable) (sessionId : String) :
    Except PersistenceError (List Run) :=
  (engine.newestFirst (sessionRows t sessionId)).mapM (decode engine)

/-- Reads an active run of a session. -/
def getActiveRun (engine : Engine) (t : RunTable) (sessionId : String) :
    Except PersistenceError (Option Run) :=
  match engine.limitOne (activeRows t sessionId) with
  | some row => (decode engine row).map some
  | none => .ok none

/-- Executes `INSERT`: the statement happens as a whole or not at all. -/
def insertRow (moment : Moment) (t : RunTable) (row : RunText) :
    RunTable×Except PersistenceError Unit :=
  match moment.writeRefusal with
  | some msg => (t,.error (.sqlite msg))
  | none =>
    match t.insert row with
    | none => (t,.error (.sqlite "UNIQUE constraint failed: runs.id"))
    | some t' =>
      if row.sessionId∈moment.sessions then (t',.ok ())
      else (t,.error (.sqlite "FOREIGN KEY constraint failed"))

/-- Creates a run, unless its session has an active one. -/
def create (engine : Engine) (moment : Moment) (t : RunTable) (run : Run) :
    RunTable×Except PersistenceError Unit :=
  match moment.queryRefusal with
  | some msg => (t,.error (.sqlite msg))
  | none =>
    let active := activeRows t run.sessionId
    if 0 < active.length then
      match engine.limitOne active with
      | some row => (t,.error (.activeRunConflict run.sessionId row.id))
      | none => (t,.error (.sqlite "Query returned no rows"))
    else insertRow moment t (encode run)

/-- Writes the changing columns of a run and counts the rows that were written. -/
def update (moment : Moment) (t : RunTable) (run : Run) :
    RunTable×Except PersistenceError Unit :=
  match moment.writeRefusal with
  | some msg => (t,.error (.sqlite msg))
  | none =>
    let written := t.modify run.id (fun row => row.updated run) (RunText.updated_id run)
    let rows := (t.rows.filter fun row => decide (row.id=run.id)).length
    if rows=0 then (written,.error (.notFound run.id)) else (written,.ok ())

/-- A call that writes. -/
inductive RunCall where
  /-- Creates a run. -/
  | create (moment : Moment) (run : Run)
  /-- Updates a run. -/
  | update (moment : Moment) (run : Run)

/-- What a call writes when it succeeds. -/
def RunCall.write : RunCall → Write Run
  | .create _ run => .created run
  | .update _ run => .updated run

/-- Makes a call. -/
def perform (engine : Engine) (t : RunTable) : RunCall → RunTable×Except PersistenceError Unit
  | .create moment run => create engine moment t run
  | .update moment run => update moment t run

/-- The table and the history of the calls that succeeded. -/
structure RunHistory where
  /-- The table. -/
  table : RunTable
  /-- The successful calls. -/
  log : List (Write Run)

/-- The history after a call. -/
def RunHistory.after (engine : Engine) (h : RunHistory) (call : RunCall) : RunHistory :=
  let result := perform engine h.table call
  match result.2 with
  | .ok _ => ⟨result.1,h.log++[call.write]⟩
  | .error _ => ⟨result.1,h.log⟩

/-- The history of a sequence of calls on an empty table. -/
def history (engine : Engine) (calls : List RunCall) : RunHistory :=
  calls.foldl (RunHistory.after engine) ⟨Table.empty RunText.id,[]⟩

variable {engine : Engine} {moment : Moment} {t : RunTable} {log : List (Write Run)} {run : Run}

@[simp] theorem parsed_toStr {α : Type} (r : Record α) (a : α) :
    parsed engine r (r.toStr a)=.ok a := by
  rw [parsed,SerdeJson.fromStr_toStr]
  rfl

@[simp] theorem parsedOption_toStr {α : Type} (r : Record α) (o : Option α) :
    parsedOption engine r (o.map r.toStr)=.ok o := by
  cases o with
  | none => rfl
  | some a =>
    rw [Option.map_some,parsedOption,parsed_toStr]
    rfl

/-- The row of a run decodes to that run, whatever its state, trigger and end. -/
theorem decode_encode (run : Run) : decode engine (encode run)=.ok run := by
  simp only [decode,encode,RunState.fromStr_asStr,parsed_toStr,parsedOption_toStr,ofInt_toNat]
  rfl

theorem encode_injective (engine : Engine) : Function.Injective encode := by
  intro a b h
  have hdecode : decode engine (encode a)=decode engine (encode b) := congrArg _ h
  rw [decode_encode,decode_encode] at hdecode
  exact Except.ok.inj hdecode

/-- A creation fails and leaves the table, or inserts the row of its run. When the engine
refuses nothing, it fails for an active run, a taken identifier or an unknown session. -/
theorem create_cases (engine : Engine) (moment : Moment) (t : RunTable) (run : Run) :
    (∃ e, create engine moment t run=(t,.error e) ∧
      (moment.queryRefusal=none → moment.writeRefusal=none →
        activeRows t run.sessionId≠[] ∨ run.id∈t.rows.map RunText.id ∨
          run.sessionId∉moment.sessions)) ∨
    ∃ t', activeRows t run.sessionId=[] ∧ t.insert (encode run)=some t' ∧
      run.sessionId∈moment.sessions ∧ create engine moment t run=(t',.ok ()) := by
  unfold create
  split
  · next hrefused =>
    refine .inl ⟨_,rfl,fun hquery => ?_⟩
    rw [hquery] at hrefused
    cases hrefused
  · simp only
    split
    · next hactive =>
      have hne : activeRows t run.sessionId≠[] := List.ne_nil_of_length_pos hactive
      split
      · exact .inl ⟨_,rfl,fun _ _ => .inl hne⟩
      · exact .inl ⟨_,rfl,fun _ _ => .inl hne⟩
    · next hactive =>
      have hnil := List.eq_nil_of_length_eq_zero (Nat.eq_zero_of_not_pos hactive)
      unfold insertRow
      split
      · next hrefused =>
        refine .inl ⟨_,rfl,fun _ hwrite => ?_⟩
        rw [hwrite] at hrefused
        cases hrefused
      · split
        · next htaken =>
          exact .inl ⟨_,rfl,fun _ _ => .inr (.inl (Table.insert_eq_none_iff.mp htaken))⟩
        · next t' hinsert =>
          split
          · next hsession => exact .inr ⟨t',hnil,hinsert,hsession,rfl⟩
          · next hsession => exact .inl ⟨_,rfl,fun _ _ => .inr (.inr hsession)⟩

/-- An update fails and leaves the table, or rewrites the row of its run. When the engine
refuses nothing, it fails only for an unknown run. -/
theorem update_cases (moment : Moment) (t : RunTable) (run : Run) :
    (∃ e, update moment t run=(t,.error e) ∧
      (moment.writeRefusal=none → run.id∉t.rows.map RunText.id)) ∨
    run.id∈t.rows.map RunText.id ∧ update moment t run=
      (t.modify run.id (fun row => row.updated run) (RunText.updated_id run),.ok ()) := by
  unfold update
  split
  · next hrefused =>
    refine .inl ⟨_,rfl,fun hwrite => ?_⟩
    rw [hwrite] at hrefused
    cases hrefused
  · simp only
    split
    · next hrows =>
      have hfresh : run.id∉t.rows.map RunText.id := by
        rintro hmem
        obtain ⟨row,hrow,hid⟩ := List.mem_map.mp hmem
        have hnil := List.eq_nil_of_length_eq_zero hrows
        exact List.not_mem_nil (hnil ▸ List.mem_filter.mpr ⟨hrow,by simpa using hid⟩)
      rw [Table.modify_of_fresh hfresh]
      exact .inl ⟨_,rfl,fun _ => hfresh⟩
    · next hrows =>
      obtain ⟨row,hrow⟩ := List.exists_mem_of_length_pos (Nat.pos_of_ne_zero hrows)
      obtain ⟨hmem,hid⟩ := List.mem_filter.mp hrow
      exact .inr ⟨List.mem_map.mpr ⟨row,hmem,of_decide_eq_true hid⟩,rfl⟩

/-- A call that fails leaves the table as it was. -/
theorem perform_error {call : RunCall} {e : PersistenceError}
    (h : (perform engine t call).2=.error e) : (perform engine t call).1=t := by
  cases call with
  | create moment run =>
    rcases create_cases engine moment t run with ⟨e',he,-⟩|⟨t',-,-,-,hok⟩
    · rw [perform,he]
    · rw [perform,hok] at h
      cases h
  | update moment run =>
    rcases update_cases moment t run with ⟨e',he,-⟩|⟨-,hok⟩
    · rw [perform,he]
    · rw [perform,hok] at h
      cases h

/-- Every call keeps the table in line with the history. -/
theorem stores_after {h : RunHistory} (hstores : runEncoding.Stores h.table h.log)
    (call : RunCall) :
    runEncoding.Stores (h.after engine call).table (h.after engine call).log := by
  unfold RunHistory.after
  cases call with
  | create moment run =>
    rcases create_cases engine moment h.table run with ⟨e,he,-⟩|⟨t',-,hinsert,-,hok⟩
    · simp only [perform,he]
      exact hstores
    · simp only [perform,hok]
      exact hstores.insert hinsert
  | update moment run =>
    rcases update_cases moment h.table run with ⟨e,he,-⟩|⟨hmem,hok⟩
    · simp only [perform,he]
      exact hstores
    · simp only [perform,hok]
      exact hstores.modify hmem

/-- After any calls the rows are the created runs as the history has them. -/
theorem stores_history (engine : Engine) (calls : List RunCall) :
    runEncoding.Stores (history engine calls).table (history engine calls).log := by
  induction calls using List.reverseRecOn with
  | nil => exact Encoding.stores_empty
  | append_singleton calls call ih =>
    rw [history,List.foldl_append]
    exact stores_after ih call

theorem decode_all (runs : List Run) : (runs.map encode).mapM (decode engine)=.ok runs := by
  induction runs with
  | nil => rfl
  | cons run runs ih =>
    rw [List.map_cons,List.mapM_cons,decode_encode,ih]
    rfl

/-- Rows that stand for runs of the history are rows of runs. -/
theorem exists_runs {rows : List RunText} {runs : List Run}
    (h : ∀ row∈rows, row∈runs.map encode) : ∃ found : List Run, rows=found.map encode := by
  induction rows with
  | nil => exact ⟨[],rfl⟩
  | cons row rows ih =>
    obtain ⟨hrow,hrows⟩ := List.forall_mem_cons.mp h
    obtain ⟨run,-,rfl⟩ := List.mem_map.mp hrow
    obtain ⟨found,rfl⟩ := ih hrows
    exact ⟨run::found,rfl⟩

/-- The runs that a history has for a session. -/
def sessionRuns (log : List (Write Run)) (sessionId : String) : List Run :=
  ((created log).filter fun run => decide (run.sessionId=sessionId)).map (runEncoding.current log)

theorem sessionId_current (log : List (Write Run)) (run : Run) :
    (runEncoding.current log run).sessionId=run.sessionId := by
  unfold Encoding.current
  split <;> rfl

theorem sessionRows_stored (h : runEncoding.Stores t log) (sessionId : String) :
    sessionRows t sessionId=(sessionRuns log sessionId).map encode := by
  rw [sessionRows,h.rows,List.filter_map,sessionRuns,List.map_map]
  have hsession : ((fun row : RunText => decide (row.sessionId=sessionId))∘fun run =>
      encode (runEncoding.current log run))=fun run => decide (run.sessionId=sessionId) := by
    funext run
    rw [Function.comp_apply,encode,sessionId_current]
  rw [hsession]
  rfl

theorem activeRows_stored (h : runEncoding.Stores t log) (sessionId : String) :
    activeRows t sessionId=((sessionRuns log sessionId).filter isActiveRun).map encode := by
  have hsplit : activeRows t sessionId=(sessionRows t sessionId).filter isActiveText := by
    rw [activeRows,sessionRows,List.filter_filter]
    simp only [Bool.and_comm]
  rw [hsplit,sessionRows_stored h,List.filter_map]
  rfl

/-- `get` answers as the history says. -/
theorem get_stored (h : runEncoding.Stores t log) (id : String) :
    get engine t id=.ok (runEncoding.expected log id) := by
  rw [get,h.find]
  cases runEncoding.expected log id with
  | none => rfl
  | some run => exact congrArg (Except.map some) (decode_encode run)

/-- Every run of a session is got under its identifier. -/
theorem get_sessionRun (h : runEncoding.Stores t log) {sessionId : String}
    (hrun : run∈sessionRuns log sessionId) : get engine t run.id=.ok (some run) := by
  obtain ⟨first,hfirst,rfl⟩ := List.mem_map.mp hrun
  have hexpected := h.expected_created (List.mem_filter.mp hfirst).1
  have hid : (runEncoding.current log first).id=first.id := runEncoding.key_current log first
  rw [get_stored h,hid,hexpected]

/-- The list of a session holds its runs, each once and the newest first. -/
theorem listBySession_stored (engine : Engine) (h : runEncoding.Stores t log) (sessionId : String) :
    ∃ rs, listBySession engine t sessionId=.ok rs ∧ rs.Perm (sessionRuns log sessionId) ∧
      rs.Pairwise fun a b => b.startedAt ≤ a.startedAt := by
  have hperm := engine.newestFirst_perm (sessionRows t sessionId)
  rw [sessionRows_stored h] at hperm
  obtain ⟨rs,hrs⟩ := exists_runs fun row hrow => hperm.subset hrow
  have hsorted := engine.newestFirst_sorted (sessionRows t sessionId)
  rw [sessionRows_stored h,hrs,List.pairwise_map] at hsorted
  rw [hrs] at hperm
  refine ⟨rs,?_,(List.map_perm_map_iff (encode_injective engine)).mp hperm,hsorted⟩
  rw [listBySession,sessionRows_stored h,hrs,decode_all]

/-- The active run that is read is one of the session; none is read only if there is none. -/
theorem getActiveRun_stored (engine : Engine) (h : runEncoding.Stores t log) (sessionId : String) :
    ∃ active, getActiveRun engine t sessionId=.ok active ∧
      (∀ run, active=some run → run∈sessionRuns log sessionId ∧ isActiveRun run=true) ∧
      (active=none → ∀ run∈sessionRuns log sessionId, isActiveRun run=false) := by
  have hrows := activeRows_stored h sessionId
  cases hone : engine.limitOne (activeRows t sessionId) with
  | none =>
    refine ⟨none,by rw [getActiveRun,hone],?_,fun _ run hrun => ?_⟩
    · intro run hrun
      cases hrun
    · have hnil := engine.limitOne_none _ hone
      rw [hrows,List.map_eq_nil_iff] at hnil
      simpa using List.filter_eq_nil_iff.mp hnil run hrun
  | some row =>
    have hmem := engine.limitOne_mem _ row hone
    rw [hrows] at hmem
    obtain ⟨run,hrun,rfl⟩ := List.mem_map.mp hmem
    refine ⟨some run,?_,?_,fun hmissing => Option.some_ne_none run hmissing |>.elim⟩
    · rw [getActiveRun,hone]
      exact congrArg (Except.map some) (decode_encode run)
    · intro other hother
      exact Option.some.inj hother ▸ List.mem_filter.mp hrun

/-- The store answers its three reads from a history. -/
structure AnswersFrom (engine : Engine) (t : RunTable) (log : List (Write Run)) : Prop where
  /-- No identifier was created twice. -/
  created_once : ((created log).map Run.id).Nodup
  /-- A read by identifier returns the created run with the parts of its last update. -/
  get_eq : ∀ id, get engine t id=.ok (runEncoding.expected log id)
  /-- A list has the runs that were created for its session, each once and as they are got;
  the active run is one of them, and it is missing only if none of them is active. -/
  listed : ∀ sessionId, ∃ rs active,
    (listBySession engine t sessionId=.ok rs ∧ rs.Perm (sessionRuns log sessionId) ∧
      ∀ run∈rs, get engine t run.id=.ok (some run)) ∧
    getActiveRun engine t sessionId=.ok active ∧
    (∀ run, active=some run → run∈rs ∧ isActiveRun run=true) ∧
    (active=none → ∀ run∈rs, isActiveRun run=false)

theorem answers_stored (h : runEncoding.Stores t log) : AnswersFrom engine t log := by
  refine ⟨h.nodup,get_stored h,fun sessionId => ?_⟩
  obtain ⟨rs,hlist,hperm,-⟩ := listBySession_stored engine h sessionId
  obtain ⟨active,hactive,hsome,hnone⟩ := getActiveRun_stored engine h sessionId
  refine ⟨rs,active,⟨hlist,hperm,fun run hrun => ?_⟩,hactive,fun run hrun => ?_,?_⟩
  · exact get_sessionRun h (hperm.subset hrun)
  · exact ⟨hperm.symm.subset (hsome run hrun).1,(hsome run hrun).2⟩
  · exact fun hmissing run hrun => hnone hmissing run (hperm.subset hrun)

/-- The run store refines a map: after any calls, failures included, its reads answer
from the calls that succeeded, and a call that fails changes no read. -/
theorem run_store_refines_map (engine : Engine) (calls : List RunCall) :
    AnswersFrom engine (history engine calls).table (history engine calls).log ∧
      ∀ call e, (perform engine (history engine calls).table call).2=.error e →
        (∀ id, get engine (perform engine (history engine calls).table call).1 id=
          get engine (history engine calls).table id) ∧
        (∀ sessionId,
          listBySession engine (perform engine (history engine calls).table call).1 sessionId=
            listBySession engine (history engine calls).table sessionId) ∧
        ∀ sessionId,
          getActiveRun engine (perform engine (history engine calls).table call).1 sessionId=
            getActiveRun engine (history engine calls).table sessionId := by
  refine ⟨answers_stored (stores_history engine calls),fun call e herror => ?_⟩
  rw [perform_error herror]
  exact ⟨fun _ => rfl,fun _ => rfl,fun _ => rfl⟩

/-- A row whose columns are kept as values, as it is stored. -/
def texts (row : RunRow) : RunText where
  id := row.id
  sessionId := row.sessionId
  state := row.state
  triggerJson := triggerRecord.toStr row.trigger
  stepsUsed := row.stepsUsed
  inferenceCallsUsed := row.inferenceCallsUsed
  actionsUsed := row.actionsUsed
  budgetJson := budgetRecord.toStr row.budget
  startedAt := row.startedAt
  completedAt := row.completedAt
  terminationJson := row.termination.map terminationRecord.toStr

/-- The table holds the rows of a database that keeps its columns as values. -/
def HoldsTexts (t : RunTable) (db : RunDatabase) : Prop := t.rows=db.runs.rows.map texts

/-- What a database meets when the engine refuses nothing. -/
def calm (db : RunDatabase) : Moment := { sessions := db.sessions }

variable {db db' : RunDatabase}

/-- A stored row decodes to what its values stand for. -/
theorem decode_texts (row : RunRow) : decode engine (texts row)=decodeRow row := by
  unfold decode decodeRow
  simp only [texts,parsed_toStr,parsedOption_toStr]
  cases RunState.fromStr row.state <;> rfl

theorem HoldsTexts.ids (h : HoldsTexts t db) :
    t.rows.map RunText.id=db.runs.rows.map RunRow.id := by
  rw [h,List.map_map]
  rfl

theorem HoldsTexts.activeRows (h : HoldsTexts t db) (sessionId : String) :
    activeRows t sessionId=(db.activeRows sessionId).map texts := by
  rw [RunRecords.activeRows,h,List.filter_map]
  rfl

/-- Both stores read the same run under an identifier. -/
theorem HoldsTexts.get (h : HoldsTexts t db) (id : String) : get engine t id=db.get id := by
  have hfind : t.find id=(db.runs.rows.find? fun row => decide (row.id=id)).map texts := by
    rw [Table.find,h,List.find?_map]
    rfl
  rw [RunRecords.get,hfind,RunDatabase.get]
  cases db.runs.rows.find? fun row => decide (row.id=id) with
  | none => rfl
  | some row => exact congrArg (Except.map some) (decode_texts row)

/-- When the store over values creates a run. -/
theorem create_ok_iff : (∃ db', db.create run=.ok db') ↔ db.activeRows run.sessionId=[] ∧
    run.id∉db.runs.rows.map RunRow.id ∧ run.sessionId∈db.sessions := by
  have hfails : ∀ e, ¬∃ db', (.error e : Except PersistenceError RunDatabase)=.ok db' := by
    rintro e ⟨db',heq⟩
    cases heq
  unfold RunDatabase.create
  split
  · next hactive => exact iff_of_false (hfails _) fun hnone => by simp [hactive] at hnone
  · next hactive =>
    split
    · next htaken =>
      exact iff_of_false (hfails _) fun hnone => hnone.2.1 (Table.insert_eq_none_iff.mp htaken)
    · next hinsert =>
      have hfresh : run.id∉db.runs.rows.map RunRow.id := (Table.insert_rows hinsert).2
      split
      · next hsession => exact iff_of_true ⟨_,rfl⟩ ⟨hactive,hfresh,hsession⟩
      · next hsession => exact iff_of_false (hfails _) fun hnone => hsession hnone.2.2

/-- Both stores create a run, or neither does. -/
theorem HoldsTexts.create (h : HoldsTexts t db) (engine : Engine) (run : Run) :
    (∃ e e', db.create run=.error e ∧ create engine (calm db) t run=(t,.error e')) ∨
    ∃ db' t', db.create run=.ok db' ∧ create engine (calm db) t run=(t',.ok ()) ∧
      HoldsTexts t' db' := by
  have hactive := h.activeRows run.sessionId
  rcases create_cases engine (calm db) t run with ⟨e,he,hwhy⟩|⟨t',hnil,hinsert,hsession,hok⟩
  · cases hdb : db.create run with
    | error e' => exact .inl ⟨e',e,rfl,he⟩
    | ok db' =>
      obtain ⟨hnone,hfresh,hknown⟩ := create_ok_iff.mp ⟨db',hdb⟩
      rw [hactive,hnone,h.ids] at hwhy
      rcases hwhy rfl rfl with hne|htaken|hunknown
      · exact absurd rfl hne
      · exact absurd htaken hfresh
      · exact absurd hknown hunknown
  · obtain ⟨hrows,hfresh⟩ := Table.insert_rows hinsert
    rw [hnil] at hactive
    rw [h.ids] at hfresh
    obtain ⟨db',hdb⟩ := create_ok_iff.mpr ⟨List.map_eq_nil_iff.mp hactive.symm,hfresh,hsession⟩
    refine .inr ⟨db',t',hdb,hok,?_⟩
    rw [HoldsTexts,hrows,h,(Table.insert_rows (create_ok hdb).2).1,List.map_append]
    rfl

/-- Both stores update a run, or neither does. -/
theorem HoldsTexts.update (h : HoldsTexts t db) (run : Run) :
    (∃ e e', db.update run=.error e ∧ update (calm db) t run=(t,.error e')) ∨
    ∃ db' t', db.update run=.ok db' ∧ update (calm db) t run=(t',.ok ()) ∧
      HoldsTexts t' db' := by
  rcases update_cases (calm db) t run with ⟨e,he,hwhy⟩|⟨hmem,hok⟩
  · have hfresh := hwhy rfl
    rw [h.ids] at hfresh
    exact .inl ⟨.notFound run.id,e,if_neg hfresh,he⟩
  · rw [h.ids] at hmem
    refine .inr ⟨_,_,if_pos hmem,hok,?_⟩
    have hrows : t.rows=db.runs.rows.map texts := h
    change t.rows.map _=(db.runs.rows.map _).map texts
    rw [hrows,List.map_map,List.map_map]
    refine List.map_congr_left fun row _ => ?_
    exact (apply_ite texts (row.id=run.id) (row.updated run) row).symm

end AegisRuntime.RunRecords
