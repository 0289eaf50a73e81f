import AegisRuntime.KeyedTables
import AegisRuntime.LabelledRuns
import Mathlib.Data.Int.Notation

/-!
# The run store and its clients

The `runs` table behind `SqliteRunStore`, its calls, and any number of clients
that make calls one after the other and update copies they hold. The result
characterises the runs of this system in which no session ever has two active
runs. Columns that hold JSON are kept as the values they encode, and each call
is atomic, as under the mutex of the connection.
-/

namespace AegisRuntime.RunStore

open KeyedTables LabelledRuns

/-- State of a run. -/
inductive RunState where
  /-- The run is executing. -/
  | running
  /-- The run waits for a human. -/
  | waitingForApproval
  /-- The run waits for a tool. -/
  | waitingForTool
  /-- Finished. -/
  | completed
  /-- Ended with an error. -/
  | failed
  /-- Stopped from outside. -/
  | cancelled
  deriving DecidableEq,Repr

/-- The stored text of a state. -/
def RunState.asStr : RunState → String
  | .running => "running"
  | .waitingForApproval => "waiting_for_approval"
  | .waitingForTool => "waiting_for_tool"
  | .completed => "completed"
  | .failed => "failed"
  | .cancelled => "cancelled"

/-- The state that a stored text stands for. -/
def RunState.fromStr (s : String) : Option RunState :=
  if s="running" then some .running
  else if s="waiting_for_approval" then some .waitingForApproval
  else if s="waiting_for_tool" then some .waitingForTool
  else if s="completed" then some .completed
  else if s="failed" then some .failed
  else if s="cancelled" then some .cancelled
  else none

/-- What started a run. -/
inductive Trigger where
  /-- A user message. -/
  | userMessage (id : String)
  /-- The heartbeat. -/
  | heartbeat
  /-- A scheduled task. -/
  | scheduledTask (name : String)
  /-- The result of a tool. -/
  | toolResult (id : String)
  /-- An event from outside. -/
  | externalEvent (name : String)
  /-- A resumption. -/
  | resume
  deriving DecidableEq,Repr

/-- The limits of a run. -/
structure RunBudget where
  /-- Steps. -/
  maxSteps : UInt32 := 25
  /-- Inference calls. -/
  maxInferenceCalls : UInt32 := 30
  /-- Actions. -/
  maxActions : UInt32 := 50
  /-- Wall time in seconds. -/
  maxWallTimeSecs : UInt64 := 300
  deriving DecidableEq,Repr

/-- Why a run ended. -/
inductive TerminationReason where
  | completed
  | stepLimitExceeded
  | inferenceLimitExceeded
  | timeLimitExceeded
  | userCancelled
  | doctrineDenied
  | approvalRequired
  | inferenceFailure (reason : String)
  | executionFailure (reason : String)
  | suspended
  deriving DecidableEq,Repr

/-- A run as clients hold it. -/
structure Run where
  /-- Identifier. -/
  id : String
  /-- The session it belongs to. -/
  sessionId : String
  /-- Its state. -/
  state : RunState
  /-- What started it. -/
  trigger : Trigger
  /-- Steps used. -/
  stepsUsed : UInt32
  /-- Inference calls used. -/
  inferenceCallsUsed : UInt32
  /-- Actions used. -/
  actionsUsed : UInt32
  /-- Its limits. -/
  budget : RunBudget
  /-- Start, seconds since the Unix epoch. -/
  startedAt : ℤ
  /-- End, seconds since the Unix epoch. -/
  completedAt : Option ℤ
  /-- Why it ended. -/
  termination : Option TerminationReason
  deriving DecidableEq,Repr

/-- A new run; the identifier and the time come from outside. -/
def Run.new (id sessionId : String) (trigger : Trigger) (budget : RunBudget) (now : ℤ) : Run where
  id := id
  sessionId := sessionId
  state := .running
  trigger := trigger
  stepsUsed := 0
  inferenceCallsUsed := 0
  actionsUsed := 0
  budget := budget
  startedAt := now
  completedAt := none
  termination := none

/-- A row of the `runs` table. -/
structure RunRow where
  /-- Primary key. -/
  id : String
  /-- Foreign key into the sessions. -/
  sessionId : String
  /-- The text of the state. -/
  state : String
  /-- The trigger column. -/
  trigger : Trigger
  /-- The steps column. -/
  stepsUsed : ℤ
  /-- The inference calls column. -/
  inferenceCallsUsed : ℤ
  /-- The actions column. -/
  actionsUsed : ℤ
  /-- The budget column. -/
  budget : RunBudget
  /-- The start column. -/
  startedAt : ℤ
  /-- The end column. -/
  completedAt : Option ℤ
  /-- The termination column. -/
  termination : Option TerminationReason
  deriving DecidableEq,Repr

/-- Why a call fails. -/
inductive PersistenceError where
  /-- The database refused a statement. -/
  | sqlite (msg : String)
  /-- No row has the identifier. -/
  | notFound (id : String)
  /-- The session has an active run. -/
  | activeRunConflict (sessionId activeRunId : String)
  /-- A stored text has no meaning. -/
  | serialization (msg : String)
  deriving DecidableEq,Repr

/-- The displayed text of an error. -/
def PersistenceError.text : PersistenceError → String
  | .sqlite msg => "SQLite error: "++msg
  | .notFound id => "Record not found: "++id
  | .activeRunConflict sessionId activeRunId =>
    "Session "++sessionId++" already has active run: "++activeRunId
  | .serialization msg => "Serialization error: "++msg

/-- The row that `INSERT` writes. -/
def encodeRow (run : Run) : RunRow where
  id := run.id
  sessionId := run.sessionId
  state := run.state.asStr
  trigger := run.trigger
  stepsUsed := run.stepsUsed.toNat
  inferenceCallsUsed := run.inferenceCallsUsed.toNat
  actionsUsed := run.actionsUsed.toNat
  budget := run.budget
  startedAt := run.startedAt
  completedAt := run.completedAt
  termination := run.termination

/-- The run that a row stands for. -/
def decodeRow (row : RunRow) : Except PersistenceError Run :=
  match RunState.fromStr row.state with
  | none => .error (.serialization ("Invalid state: "++row.state))
  | some state => .ok
      { id := row.id
        sessionId := row.sessionId
        state := state
        trigger := row.trigger
        stepsUsed := UInt32.ofInt row.stepsUsed
        inferenceCallsUsed := UInt32.ofInt row.inferenceCallsUsed
        actionsUsed := UInt32.ofInt row.actionsUsed
        budget := row.budget
        startedAt := row.startedAt
        completedAt := row.completedAt
        termination := row.termination }

/-- The row after `UPDATE`: identity, session, trigger and start stay. -/
def RunRow.updated (row : RunRow) (run : Run) : RunRow :=
  { row with
    state := run.state.asStr
    stepsUsed := run.stepsUsed.toNat
    inferenceCallsUsed := run.inferenceCallsUsed.toNat
    actionsUsed := run.actionsUsed.toNat
    budget := run.budget
    completedAt := run.completedAt
    termination := run.termination }

@[simp] theorem RunRow.updated_id (row : RunRow) (run : Run) : (row.updated run).id=row.id := rfl

@[simp] theorem RunRow.updated_sessionId (row : RunRow) (run : Run) :
    (row.updated run).sessionId=row.sessionId := rfl

/-- The states that the queries count as active. -/
def ACTIVE_STATES : List String := ["running","waiting_for_approval","waiting_for_tool"]

/-- Whether a row is active. -/
def isActive (row : RunRow) : Bool := ACTIVE_STATES.contains row.state

/-- The database of the store: the known sessions and the table of their runs. -/
structure RunDatabase where
  /-- Identifiers of the stored sessions. -/
  sessions : List String
  /-- The `runs` table. -/
  runs : Table RunRow.id
  /-- The foreign key holds. -/
  sessions_known : ∀ row∈runs.rows, row.sessionId∈sessions

/-- The rows that `SELECT … WHERE session_id = … AND state IN …` finds. -/
def RunDatabase.activeRows (db : RunDatabase) (sessionId : String) : List RunRow :=
  db.runs.markedIn RunRow.sessionId isActive sessionId

/-- Creates a run, unless its session has an active one. -/
def RunDatabase.create (db : RunDatabase) (run : Run) : Except PersistenceError RunDatabase :=
  match db.activeRows run.sessionId with
  | active::_ => .error (.activeRunConflict run.sessionId active.id)
  | [] =>
    match h : db.runs.insert (encodeRow run) with
    | none => .error (.sqlite "UNIQUE constraint failed: runs.id")
    | some runs =>
      if hs : run.sessionId∈db.sessions then
        .ok ⟨db.sessions,runs,by
          intro row hrow
          rw [(Table.insert_rows h).1,List.mem_append,List.mem_singleton] at hrow
          rcases hrow with hrow|hrow
          · exact db.sessions_known row hrow
          · rw [hrow]
            exact hs⟩
      else .error (.sqlite "FOREIGN KEY constraint failed")

/-- Reads a run. -/
def RunDatabase.get (db : RunDatabase) (id : String) : Except PersistenceError (Option Run) :=
  match db.runs.rows.find? fun row => decide (row.id=id) with
  | some row => (decodeRow row).map some
  | none => .ok none

/-- Reads an active run of a session; of several, `LIMIT 1` leaves the choice open. -/
def RunDatabase.getActiveRun (db : RunDatabase) (sessionId : String) (choice : ℕ) :
    Except PersistenceError (Option Run) :=
  match db.activeRows sessionId with
  | first::others => (decodeRow (others[choice]?.getD first)).map some
  | [] => .ok none

/-- Writes the changing columns of a run; other runs are not looked at. -/
def RunDatabase.update (db : RunDatabase) (run : Run) : Except PersistenceError RunDatabase :=
  if run.id∈db.runs.rows.map RunRow.id then
    .ok ⟨db.sessions,
      db.runs.modify run.id (fun row => row.updated run) (fun row => row.updated_id run),by
      intro row hrow
      obtain ⟨old,hold,heq⟩ := List.mem_map.mp hrow
      have hsession : row.sessionId=old.sessionId := by
        rw [←heq]
        split <;> rfl
      rw [hsession]
      exact db.sessions_known old hold⟩
  else .error (.notFound run.id)

/-- The store with the copies that each client holds. -/
structure StoreState where
  /-- The database. -/
  db : RunDatabase
  /-- The runs that a client has made or read. -/
  held : ℕ → List Run

/-- The start: known sessions, an empty table, no copies. -/
def StoreState.start (sessions : List String) : StoreState where
  db := ⟨sessions,Table.empty RunRow.id,by simp [Table.empty]⟩
  held := fun _ => []

/-- A client keeps a copy. -/
def StoreState.hold (s : StoreState) (client : ℕ) (run : Run) : StoreState :=
  { s with held := fun c => if c=client then run::s.held c else s.held c }

/-- A call of a client. -/
inductive StoreCall where
  /-- Creates a run. -/
  | create (client : ℕ) (run : Run)
  /-- Reads a run. -/
  | get (client : ℕ) (id : String)
  /-- Reads an active run of a session, whichever the database chooses. -/
  | getActiveRun (client : ℕ) (sessionId : String) (choice : ℕ)
  /-- Updates a run from a copy that the client has changed. -/
  | update (client : ℕ) (run : Run)
  deriving DecidableEq,Repr

/-- The database after a write; a write that fails changes nothing. -/
def StoreState.afterWrite (s : StoreState) (result : Except PersistenceError RunDatabase) :
    StoreState :=
  match result with
  | .ok db => { s with db := db }
  | .error _ => s

/-- The copies after a read. -/
def StoreState.afterRead (s : StoreState) (client : ℕ)
    (result : Except PersistenceError (Option Run)) : StoreState :=
  match result with
  | .ok (some run) => s.hold client run
  | _ => s

/-- One call. A client can update a run only when it holds a copy of that run,
old or new, which it may have changed. -/
def storeStep (s : StoreState) : StoreCall → Option StoreState
  | .create client run => some ((s.afterWrite (s.db.create run)).hold client run)
  | .get client id => some (s.afterRead client (s.db.get id))
  | .getActiveRun client sessionId choice =>
    some (s.afterRead client (s.db.getActiveRun sessionId choice))
  | .update client run =>
    if (s.held client).any fun copy => decide (copy.id=run.id) then
      some ((s.afterWrite (s.db.update run)).hold client run)
    else none

/-- No session has two active runs. -/
def SingleActive (db : RunDatabase) : Prop := ∀ sessionId, (db.activeRows sessionId).length ≤ 1

/-- An update that writes an active state meets no other active run in the
session of the stored run. -/
def Guarded (db : RunDatabase) : StoreCall → Prop
  | .update _ run => ACTIVE_STATES.contains run.state.asStr=true →
    ∀ row∈db.runs.rows, row.id=run.id → ∀ other∈db.runs.rows, other.sessionId=row.sessionId →
      isActive other=true → other.id=run.id
  | _ => True

variable {db db' : RunDatabase} {s t : StoreState} {run : Run}

theorem RunState.fromStr_asStr (state : RunState) : RunState.fromStr state.asStr=some state := by
  cases state <;> decide

/-- A counter column reads back the counter. -/
theorem ofInt_toNat (n : UInt32) : UInt32.ofInt (n.toNat : ℤ)=n := by
  have hlt := n.toNat_lt
  have hmod : ((n.toNat : ℤ)%2^32).toNat=n.toNat := by omega
  rw [UInt32.ofInt,hmod,UInt32.ofNat_toNat]

/-- Reading back what was written gives the run. -/
theorem decodeRow_encodeRow (run : Run) : decodeRow (encodeRow run)=.ok run := by
  simp only [decodeRow,encodeRow,RunState.fromStr_asStr,ofInt_toNat]

theorem singleActive_iff : SingleActive db ↔ db.runs.Sole RunRow.sessionId isActive :=
  Table.sole_iff_length.symm

/-- A created run joins a session without an active one. -/
theorem create_ok (h : db.create run=.ok db') :
    db.activeRows run.sessionId=[] ∧ db.runs.insert (encodeRow run)=some db'.runs := by
  unfold RunDatabase.create at h
  split at h
  · cases h
  · next hactive =>
    split at h
    · cases h
    · next runs hinsert =>
      split at h
      · cases h
        exact ⟨hactive,hinsert⟩
      · cases h

theorem update_ok (h : db.update run=.ok db') :
    db'.runs=db.runs.modify run.id (fun row => row.updated run)
      (fun row => row.updated_id run) := by
  unfold RunDatabase.update at h
  split at h
  · cases h
    rfl
  · cases h

/-- An update that fails meets no row of its run. -/
theorem update_error {e : PersistenceError} (h : db.update run=.error e) :
    ∀ row∈db.runs.rows, row.id≠run.id := by
  unfold RunDatabase.update at h
  split at h
  · cases h
  · next hid =>
    intro row hrow heq
    exact hid (List.mem_map.mpr ⟨row,hrow,heq⟩)

/-- What a client reads after its run was created is that run. -/
theorem get_of_create (h : db.create run=.ok db') : db'.get run.id=.ok (some run) := by
  obtain ⟨-,hinsert⟩ := create_ok h
  obtain ⟨hrows,hfresh⟩ := Table.insert_rows hinsert
  have hold : db.runs.rows.find? (fun row => decide (row.id=run.id))=none := by
    rw [List.find?_eq_none]
    intro row hrow heq
    have hid : row.id=run.id := by simpa using heq
    exact hfresh (List.mem_map.mpr ⟨row,hrow,hid⟩)
  have hnew : (encodeRow run).id=run.id := rfl
  rw [RunDatabase.get,hrows,List.find?_append,hold,Option.none_or,List.find?_cons_of_pos
    (by simp [hnew])]
  simp only [decodeRow_encodeRow]
  rfl

/-- Creating a run keeps one active run a session. -/
theorem singleActive_create (hdb : SingleActive db) (h : db.create run=.ok db') :
    SingleActive db' := by
  obtain ⟨hactive,hinsert⟩ := create_ok h
  rw [singleActive_iff] at hdb ⊢
  refine (hdb.insert_iff hinsert).mpr fun _ row hrow hsession => ?_
  by_contra hmark
  have hmem : row∈db.activeRows run.sessionId :=
    Table.mem_markedIn.mpr ⟨hrow,hsession,by simpa using hmark⟩
  rw [hactive] at hmem
  cases hmem

/-- Updating a run keeps one active run a session exactly when it is guarded. -/
theorem singleActive_update {client : ℕ} (hdb : SingleActive db) (h : db.update run=.ok db') :
    SingleActive db' ↔ Guarded db (.update client run) := by
  rw [singleActive_iff] at hdb ⊢
  rw [update_ok h,hdb.modify_iff fun row => row.updated_sessionId run]
  exact ⟨fun hall hactive row hrow hid => hall row hrow hid hactive,
    fun hall row hrow hid hactive => hall hactive row hrow hid⟩

theorem afterRead_db {client : ℕ} {result : Except PersistenceError (Option Run)} :
    (s.afterRead client result).db=s.db := by
  unfold StoreState.afterRead
  split <;> rfl

/-- From a store with one active run a session, the guarded calls and only these
lead to such a store. -/
theorem singleActive_step {call : StoreCall} (hs : SingleActive s.db)
    (h : storeStep s call=some t) : SingleActive t.db ↔ Guarded s.db call := by
  cases call with
  | create client run =>
    have ht := Option.some.inj h
    refine iff_of_true ?_ trivial
    rw [←ht]
    cases hc : s.db.create run with
    | ok db => exact singleActive_create hs hc
    | error e => exact hs
  | get client id =>
    have ht := Option.some.inj h
    refine iff_of_true ?_ trivial
    rw [←ht,afterRead_db]
    exact hs
  | getActiveRun client sessionId choice =>
    have ht := Option.some.inj h
    refine iff_of_true ?_ trivial
    rw [←ht,afterRead_db]
    exact hs
  | update client run =>
    simp only [storeStep] at h
    split at h
    · have ht := Option.some.inj h
      rw [←ht]
      cases hu : s.db.update run with
      | ok db => exact singleActive_update hs hu
      | error e =>
        refine iff_of_true hs fun _ row hrow hid => ?_
        exact absurd hid (update_error hu row hrow)
    · cases h

/-- In a run of the store with any number of clients, no session ever has two
active runs exactly when every update that writes an active state meets no other
active run of its session. -/
theorem single_active_iff (sessions : List String) (calls : List StoreCall) (s : StoreState)
    (h : runs storeStep (StoreState.start sessions) calls=some s) :
    (∀ before after t, calls=before++after →
        runs storeStep (StoreState.start sessions) before=some t → SingleActive t.db) ↔
      ∀ before call after t, calls=before++call::after →
        runs storeStep (StoreState.start sessions) before=some t → Guarded t.db call := by
  have hstart : SingleActive (StoreState.start sessions).db := by
    intro sessionId
    exact Nat.zero_le 1
  exact always_iff_guarded (I:=fun t => SingleActive t.db) (G:=fun t call => Guarded t.db call)
    hstart (fun t call u => singleActive_step) h

/-- A client reads a run; another one ends it and starts the next run of the
session; then the first client updates its old copy. -/
def staleUpdate : List StoreCall :=
  let first := Run.new "run_1" "sess" .heartbeat {} 0
  [.create 0 first,.get 1 "run_1",
    .update 0 { first with state := .completed, completedAt := some 1 },
    .create 0 (Run.new "run_2" "sess" .heartbeat {} 2),.update 1 { first with stepsUsed := 1 }]

example : ((runs storeStep (StoreState.start ["sess"]) (staleUpdate.take 4)).map fun s =>
    (s.db.activeRows "sess").map RunRow.id)=some ["run_2"] := by decide

/-- The old copy makes the ended run active again beside the new one. -/
theorem staleUpdate_reaches : ∃ s, runs storeStep (StoreState.start ["sess"]) staleUpdate=some s ∧
    (s.db.activeRows "sess").length=2 := by
  have hcount : (runs storeStep (StoreState.start ["sess"]) staleUpdate).map
      (fun s => (s.db.activeRows "sess").length)=some 2 := by decide
  exact Option.map_eq_some_iff.mp hcount

/-- Some call of the stale run is not guarded. -/
theorem single_active_iff_stale :
    ¬∀ before call after t, staleUpdate=before++call::after →
      runs storeStep (StoreState.start ["sess"]) before=some t → Guarded t.db call := by
  intro hguard
  obtain ⟨s,hs,hlength⟩ := staleUpdate_reaches
  have hall := (single_active_iff ["sess"] staleUpdate s hs).mpr hguard
  have hone := hall staleUpdate [] s (List.append_nil staleUpdate).symm hs "sess"
  omega

/-- Not every reachable store has at most one active run a session. -/
theorem single_active_fails :
    ¬∀ sessions calls s, runs storeStep (StoreState.start sessions) calls=some s →
      SingleActive s.db := by
  intro hall
  obtain ⟨s,hs,hlength⟩ := staleUpdate_reaches
  have hone := hall ["sess"] staleUpdate s hs "sess"
  omega

end AegisRuntime.RunStore
