import AegisRuntime.KeyedTables
import AegisRuntime.LabelledRuns
import AegisRuntime.SignedColumns
import AegisRuntime.TextScanning
import AegisRuntime.WorkerPools
import Mathlib.Data.List.Sort
import Mathlib.Data.String.Basic

/-!
# Heartbeat pulses over one database

`HeartbeatEngine::pulse_once` as a worker that takes one step for each SQL
statement and for each place where it can be suspended, and the database tables
that pulses share. Any number of engines start any number of pulses, whose steps
interleave freely with each other and with `create_task`. A pulse may be dropped
at any point, and a statement may fail. What the environment answers to a task
body is part of the step.
-/

namespace AegisRuntime.HeartbeatPulses

open KeyedTables LabelledRuns SignedColumns TextScanning WorkerPools

/-- State of a task. -/
inductive TaskStatus where
  /-- Not claimed. -/
  | pending
  /-- Claimed. -/
  | running
  /-- Its result is stored. -/
  | completed
  deriving DecidableEq,Repr

/-- A row of the `tasks` table. -/
structure TaskRecord where
  /-- Primary key. -/
  id : String
  /-- What kind of task. -/
  taskType : String
  /-- Its argument. -/
  payload : String
  /-- Its state. -/
  status : TaskStatus
  /-- Result of the body. -/
  result : Option String
  /-- When it was created. -/
  createdAt : String
  /-- When it was completed. -/
  completedAt : Option String
  deriving DecidableEq,Repr

/-- What a pulse reports. -/
structure PulseReceipt where
  /-- Number of the pulse, counted by its engine. -/
  tickId : UInt64
  /-- When it started. -/
  timestamp : String
  /-- Always the same text. -/
  status : String
  /-- How many pending tasks it listed. -/
  tasksScanned : ℕ
  /-- How many of them it ran. -/
  actionsDispatched : ℕ
  /-- A summary. -/
  notes : String
  deriving DecidableEq,Repr

/-- A row of the `heartbeats` table. -/
structure HeartbeatRow where
  /-- Primary key. -/
  tickId : ℤ
  /-- The time column. -/
  timestamp : String
  /-- The status column. -/
  status : String
  /-- The scanned column. -/
  tasksScanned : ℤ
  /-- The dispatched column. -/
  actionsDispatched : ℤ
  /-- The notes column. -/
  notes : String
  deriving DecidableEq,Repr

/-- A row of the `memory_crumbs` table. -/
structure CrumbRecord where
  /-- Primary key. -/
  key : String
  /-- The value column. -/
  value : String
  /-- The namespace column. -/
  group : String
  /-- When it was stored. -/
  createdAt : String
  deriving DecidableEq,Repr

/-- The tables that pulses use. -/
structure Database where
  /-- The `tasks` table. -/
  tasks : Table TaskRecord.id
  /-- The `heartbeats` table. -/
  heartbeats : Table HeartbeatRow.tickId
  /-- The `memory_crumbs` table. -/
  crumbs : Table CrumbRecord.key

/-- The row of a receipt; the length of a list fits the column. -/
def heartbeatRow (receipt : PulseReceipt) : HeartbeatRow where
  tickId := asI64 receipt.tickId
  timestamp := receipt.timestamp
  status := receipt.status
  tasksScanned := receipt.tasksScanned
  actionsDispatched := receipt.actionsDispatched
  notes := receipt.notes

/-- The row after a claim, if it is pending. -/
def TaskRecord.claimed (task : TaskRecord) : TaskRecord :=
  if task.status=.pending then { task with status := .running } else task

/-- The row after its completion. -/
def TaskRecord.finished (result now : String) (task : TaskRecord) : TaskRecord :=
  { task with status := .completed, result := some result, completedAt := some now }

theorem TaskRecord.claimed_id (task : TaskRecord) : task.claimed.id=task.id := by
  unfold TaskRecord.claimed
  split <;> rfl

theorem TaskRecord.finished_id (result now : String) (task : TaskRecord) :
    (task.finished result now).id=task.id := rfl

namespace Database

/-- No rows. -/
def empty : Database :=
  ⟨Table.empty TaskRecord.id,Table.empty HeartbeatRow.tickId,Table.empty CrumbRecord.key⟩

/-- Replaces the heartbeat row of a tick. -/
def recordHeartbeatTick (db : Database) (receipt : PulseReceipt) : Database :=
  { db with heartbeats := db.heartbeats.replace (heartbeatRow receipt) }

/-- Queues a task, unless the identifier is taken. -/
def createTask (db : Database) (id taskType payload now : String) : Option Database :=
  (db.tasks.insert ⟨id,taskType,payload,.pending,none,now,none⟩).map fun tasks =>
    { db with tasks := tasks }

/-- The pending tasks, oldest first. -/
def listPendingTasks (db : Database) : List TaskRecord :=
  (db.tasks.rows.filter fun task => decide (task.status=.pending)).insertionSort
    fun a b => a.createdAt ≤ b.createdAt

/-- Whether the conditional update of a claim changes a row. -/
def isPending (db : Database) (id : String) : Bool :=
  db.tasks.rows.any fun task => decide (task.id=id) && decide (task.status=.pending)

/-- Moves a pending task to running, and whether it did. -/
def claimTask (db : Database) (id : String) : Database × Bool :=
  ({ db with tasks := db.tasks.modify id TaskRecord.claimed TaskRecord.claimed_id },db.isPending id)

/-- Stores the result of a task, whatever its state is. -/
def completeTask (db : Database) (id result now : String) : Database :=
  { db with
    tasks := db.tasks.modify id (TaskRecord.finished result now)
      (TaskRecord.finished_id result now) }

/-- Stores a crumb, in place of the one of its key. -/
def storeCrumb (db : Database) (key value group now : String) : Database :=
  { db with crumbs := db.crumbs.replace ⟨key,value,group,now⟩ }

/-- The state of a task. -/
def status (db : Database) (id : String) : Option TaskStatus :=
  (db.tasks.find id).map TaskRecord.status

end Database

/-- What the body of a task does. -/
inductive TaskBody where
  /-- Asks whether the local model is healthy. -/
  | checkHealth
  /-- Runs a shell command behind the gate. -/
  | dispatchShell (command : String)
  /-- Stores a crumb under a key. -/
  | storeCrumb (key : String)
  /-- Reports on the machine. -/
  | telemetry
  /-- Does nothing. -/
  | other
  deriving DecidableEq,Repr

/-- The body of a task in a pulse; the former name of the health check still
runs. -/
def bodyOf (task : TaskRecord) (tick : UInt64) : TaskBody :=
  if task.taskType="model_health" ∨ task.taskType="max_health" then .checkHealth
  else if task.taskType="build_monitor" ∨ task.taskType="shell_exec" then
    .dispatchShell (if task.payload="" then "echo 'empty build task'" else task.payload)
  else if task.taskType="consolidate_memory" then
    .storeCrumb ("consolidation_tick_"++toString tick.toNat)
  else if task.taskType="system_telemetry" then .telemetry
  else .other

/-- What the environment answers to a body. -/
structure BodyAnswer where
  /-- Whether the model is healthy. -/
  healthy : Bool
  /-- The output of the shell, or the text of its error. -/
  shell : Except String String
  /-- Whether the crumb can be stored, and when. -/
  crumb : Option String

/-- The text that a body leaves as the result. -/
def resText : TaskBody → BodyAnswer → String
  | .checkHealth,answer =>
    if answer.healthy then "Local model seat verified ACTIVE on port 18006"
    else "Local model seat unreachable or offline on port 18006"
  | .dispatchShell _,answer =>
    match answer.shell with
    | .ok stdout => "Exit code 0: "++String.ofList (trim stdout.toList)
    | .error e => "Execution failure: "++e
  | .storeCrumb _,_ => "Memory crumbs recorded"
  | .telemetry,_ => "System telemetry nominal: GB10 aarch64"
  | .other,_ => "Autonomous task processed by heartbeat loop"

/-- What a body does to the database. -/
def bodyEffect (db : Database) : TaskBody → BodyAnswer → Database
  | .storeCrumb key,answer =>
    match answer.crumb with
    | some now => db.storeCrumb key "Episodic memory consolidated into WAL" "heartbeat" now
    | none => db
  | .checkHealth,_ | .dispatchShell _,_ | .telemetry,_ | .other,_ => db

/-- The variables of the loop over the pending tasks. -/
structure PulseLoop where
  /-- The listed tasks that were not tried. -/
  rest : List TaskRecord
  /-- How many were listed. -/
  scanned : ℕ
  /-- How many were run. -/
  actions : ℕ

/-- Where a pulse is. -/
inductive PulseStage where
  /-- Before it lists the pending tasks. -/
  | listing
  /-- At the head of the loop. -/
  | looping (loop : PulseLoop)
  /-- It claimed a task. -/
  | claimed (task : TaskRecord) (loop : PulseLoop)
  /-- In the body of a task. -/
  | running (task : TaskRecord) (loop : PulseLoop)
  /-- The body has ended with a text. -/
  | completing (task : TaskRecord) (text : String) (loop : PulseLoop)
  /-- The receipt was handed to the table and to the subscribers. -/
  | recorded (receipt : PulseReceipt)
  /-- It returned its receipt. -/
  | returned (receipt : PulseReceipt)

/-- A pulse. -/
structure Pulse where
  /-- Its number. -/
  tick : UInt64
  /-- When it started. -/
  timestamp : String
  /-- Where it is. -/
  stage : PulseStage
  /-- Whether it was not dropped. -/
  alive : Bool := true

/-- The receipt of a pulse that ran its loop. -/
def receiptOf (tick : UInt64) (timestamp : String) (loop : PulseLoop) : PulseReceipt where
  tickId := tick
  timestamp := timestamp
  status := "nominal"
  tasksScanned := loop.scanned
  actionsDispatched := loop.actions
  notes := "Autonomous tick #"++toString tick.toNat++" processed "++toString loop.scanned++
    " pending tasks"

/-- Steps of a task that a pulse can take. -/
inductive TaskPhase where
  /-- The claim succeeds. -/
  | claim
  /-- The body begins. -/
  | body (body : TaskBody)
  /-- The result is handed to the database. -/
  | complete (result : String)
  deriving DecidableEq,Repr

/-- The steps of a pulse. -/
inductive PulseMove where
  /-- Lists the pending tasks; the statement may fail. -/
  | list (ok : Bool)
  /-- Tries to claim the next task; the statement may fail. -/
  | claim (ok : Bool)
  /-- Begins the body. -/
  | beginBody
  /-- The body ends. -/
  | endBody (answer : BodyAnswer)
  /-- Stores the result at a time; the statement may fail. -/
  | complete (now : String) (ok : Bool)
  /-- Stores the receipt; the statement may fail. -/
  | record (ok : Bool)
  /-- Returns the receipt, after the crumb ledger was told. -/
  | finish
  /-- The pulse is dropped. -/
  | abandon

/-- A step of a pulse: the database after it, where the pulse is, and the step of
a task it stands for. -/
def stageStep (db : Database) (tick : UInt64) (timestamp : String) :
    PulseStage → PulseMove → Option (Database × PulseStage × Option (String × TaskPhase))
  | .listing,.list ok =>
    let pending := if ok then db.listPendingTasks else []
    some (db,.looping ⟨pending,pending.length,0⟩,none)
  | .looping ⟨task::rest,scanned,actions⟩,.claim ok =>
    if ok then
      match db.claimTask task.id with
      | (db',true) => some (db',.claimed task ⟨rest,scanned,actions⟩,some (task.id,.claim))
      | (db',false) => some (db',.looping ⟨rest,scanned,actions⟩,none)
    else some (db,.looping ⟨rest,scanned,actions⟩,none)
  | .claimed task loop,.beginBody =>
    some (db,.running task loop,some (task.id,.body (bodyOf task tick)))
  | .running task loop,.endBody answer =>
    some (bodyEffect db (bodyOf task tick) answer,
      .completing task (resText (bodyOf task tick) answer) loop,none)
  | .completing task text loop,.complete now ok =>
    some (if ok then db.completeTask task.id text now else db,
      .looping { loop with actions := loop.actions+1 },some (task.id,.complete text))
  | .looping ⟨[],scanned,actions⟩,.record ok =>
    let receipt := receiptOf tick timestamp ⟨[],scanned,actions⟩
    some (if ok then db.recordHeartbeatTick receipt else db,.recorded receipt,none)
  | .recorded receipt,.finish => some (db,.returned receipt,none)
  | _,_ => none

/-- A step of a task, with the pulse that took it. -/
structure TaskEvent where
  /-- The pulse. -/
  pulse : ℕ
  /-- Identifier of the task. -/
  task : String
  /-- The step. -/
  phase : TaskPhase
  deriving DecidableEq,Repr

/-- The database, the engines and their pulses. -/
structure BeatState where
  /-- The database. -/
  db : Database
  /-- The tick counter of each engine. -/
  counters : ℕ → UInt64
  /-- The pulses, in the order in which they started. -/
  pulses : List Pulse
  /-- The steps of tasks so far. -/
  log : List TaskEvent

/-- An empty database; every engine counts from zero. -/
def BeatState.start : BeatState := ⟨Database.empty,fun _ => 0,[],[]⟩

/-- What can happen. -/
inductive BeatAct where
  /-- A task is queued. -/
  | createTask (id taskType payload now : String)
  /-- An engine starts a pulse. -/
  | pulse (engine : ℕ) (now : String)
  /-- A pulse takes a step. -/
  | move (pulse : ℕ) (move : PulseMove)

/-- The step of one pulse. -/
def pulseStep (s : BeatState) (i : ℕ) (pulse : Pulse) (move : PulseMove) : Option BeatState :=
  match pulse.alive,move with
  | false,_ => none
  | true,.abandon => some { s with pulses := s.pulses.set i { pulse with alive := false } }
  | true,move =>
    (stageStep s.db pulse.tick pulse.timestamp pulse.stage move).map fun (db,stage,event) =>
      { s with
        db := db
        pulses := s.pulses.set i { pulse with stage := stage }
        log := s.log++(event.map fun (task,phase) => ⟨i,task,phase⟩).toList }

/-- The state after an action, where it is enabled. -/
def beatStep (s : BeatState) : BeatAct → Option BeatState
  | .createTask id taskType payload now =>
    some { s with db := (s.db.createTask id taskType payload now).getD s.db }
  | .pulse engine now =>
    let tick := s.counters engine+1
    some { s with
      counters := Function.update s.counters engine tick
      pulses := s.pulses++[{ tick := tick, timestamp := now, stage := .listing }] }
  | .move i move =>
    match s.pulses[i]? with
    | some pulse => pulseStep s i pulse move
    | none => none

/-- The receipt of a pulse that has one. -/
def Pulse.receipt (pulse : Pulse) : Option PulseReceipt :=
  match pulse.stage with
  | .recorded receipt | .returned receipt => some receipt
  | .listing | .looping _ | .claimed _ _ | .running _ _ | .completing _ _ _ => none

/-- The receipts, in the order in which their pulses started. -/
def BeatState.receipts (s : BeatState) : List PulseReceipt := s.pulses.filterMap Pulse.receipt

/-- A run of the system. -/
structure BeatRun where
  /-- The actions, in order. -/
  acts : List BeatAct
  /-- The state they lead to. -/
  state : BeatState
  /-- They lead to it. -/
  ran : runs beatStep BeatState.start acts=some state

variable {s t : BeatState}

/-- Every enabled step of a pulse with what it leads to. -/
inductive StageCase (db : Database) (tick : UInt64) (timestamp : String) : PulseStage → PulseMove →
    Database → PulseStage → Option (String×TaskPhase) → Prop where
  /-- The pending tasks are listed, or nothing is when the statement fails. -/
  | lists (pending : List TaskRecord) (ok : Bool) : StageCase db tick timestamp .listing (.list ok) db
      (.looping ⟨pending,pending.length,0⟩) none
  /-- The next task is claimed. -/
  | claims (task : TaskRecord) (rest : List TaskRecord) (scanned actions : ℕ) (db' : Database)
      (claimed : db.claimTask task.id=(db',true)) :
      StageCase db tick timestamp (.looping ⟨task::rest,scanned,actions⟩) (.claim true) db'
        (.claimed task ⟨rest,scanned,actions⟩) (some (task.id,.claim))
  /-- The next task was taken by another pulse. -/
  | misses (task : TaskRecord) (rest : List TaskRecord) (scanned actions : ℕ) (db' : Database)
      (missed : db.claimTask task.id=(db',false)) :
      StageCase db tick timestamp (.looping ⟨task::rest,scanned,actions⟩) (.claim true) db'
        (.looping ⟨rest,scanned,actions⟩) none
  /-- The claim fails. -/
  | claimFails (task : TaskRecord) (rest : List TaskRecord) (scanned actions : ℕ) :
      StageCase db tick timestamp (.looping ⟨task::rest,scanned,actions⟩) (.claim false) db
        (.looping ⟨rest,scanned,actions⟩) none
  /-- The body begins. -/
  | begins (task : TaskRecord) (loop : PulseLoop) :
      StageCase db tick timestamp (.claimed task loop) .beginBody db (.running task loop)
        (some (task.id,.body (bodyOf task tick)))
  /-- The body ends. -/
  | ends (task : TaskRecord) (loop : PulseLoop) (answer : BodyAnswer) :
      StageCase db tick timestamp (.running task loop) (.endBody answer)
        (bodyEffect db (bodyOf task tick) answer)
        (.completing task (resText (bodyOf task tick) answer) loop) none
  /-- The result is handed to the database. -/
  | completes (task : TaskRecord) (text : String) (loop : PulseLoop) (now : String) (ok : Bool) :
      StageCase db tick timestamp (.completing task text loop) (.complete now ok)
        (if ok then db.completeTask task.id text now else db)
        (.looping { loop with actions := loop.actions+1 }) (some (task.id,.complete text))
  /-- The receipt is handed to the database. -/
  | records (scanned actions : ℕ) (ok : Bool) :
      StageCase db tick timestamp (.looping ⟨[],scanned,actions⟩) (.record ok)
        (if ok then db.recordHeartbeatTick (receiptOf tick timestamp ⟨[],scanned,actions⟩) else db)
        (.recorded (receiptOf tick timestamp ⟨[],scanned,actions⟩)) none
  /-- The pulse returns. -/
  | finishes (receipt : PulseReceipt) :
      StageCase db tick timestamp (.recorded receipt) .finish db (.returned receipt) none

theorem stageStep_cases {db db' : Database} {tick : UInt64} {timestamp : String}
    {stage stage' : PulseStage} {move : PulseMove} {event : Option (String×TaskPhase)}
    (h : stageStep db tick timestamp stage move=some (db',stage',event)) :
    StageCase db tick timestamp stage move db' stage' event := by
  unfold stageStep at h
  split at h
  · cases h
    exact .lists _ _
  · split at h
    · next hok =>
      subst hok
      split at h
      · next hclaim =>
        cases h
        exact .claims _ _ _ _ _ hclaim
      · next hclaim =>
        cases h
        exact .misses _ _ _ _ _ hclaim
    · next hok =>
      cases h
      rw [Bool.not_eq_true] at hok
      subst hok
      exact .claimFails _ _ _ _
  · cases h
    exact .begins _ _
  · cases h
    exact .ends _ _ _
  · cases h
    exact .completes _ _ _ _ _
  · cases h
    exact .records _ _ _
  · cases h
    exact .finishes _
  · cases h

/-- The state after a pulse took a step. -/
def advanced (s : BeatState) (db : Database) (i : ℕ) (pulse : Pulse)
    (event : Option (String×TaskPhase)) : BeatState :=
  { s with
    db := db
    pulses := s.pulses.set i pulse
    log := s.log++(event.map fun (task,phase) => ⟨i,task,phase⟩).toList }

/-- What a step of the system is. -/
theorem beatStep_cases {act : BeatAct} (h : beatStep s act=some t) :
    (∃ id taskType payload now, act=.createTask id taskType payload now ∧
        t={ s with db := (s.db.createTask id taskType payload now).getD s.db }) ∨
      (∃ engine now, act=.pulse engine now ∧
        t={ s with
          counters := Function.update s.counters engine (s.counters engine+1)
          pulses := s.pulses++
            [{ tick := s.counters engine+1, timestamp := now, stage := .listing }] }) ∨
      ∃ i move pulse pulse' db event, act=.move i move ∧ s.pulses[i]?=some pulse ∧
        pulse'.tick=pulse.tick ∧ pulse'.timestamp=pulse.timestamp ∧
        (move=.abandon ∧ db=s.db ∧ event=none ∧ pulse'.stage=pulse.stage ∨
          stageStep s.db pulse.tick pulse.timestamp pulse.stage move=
            some (db,pulse'.stage,event)) ∧
        t=advanced s db i pulse' event := by
  cases act with
  | createTask id taskType payload now =>
    cases h
    exact Or.inl ⟨id,taskType,payload,now,rfl,rfl⟩
  | pulse engine now =>
    cases h
    exact Or.inr (Or.inl ⟨engine,now,rfl,rfl⟩)
  | move i move =>
    simp only [beatStep] at h
    split at h
    · next pulse hpulse =>
      refine Or.inr (Or.inr ?_)
      unfold pulseStep at h
      split at h
      · cases h
      · cases h
        refine ⟨i,.abandon,pulse,{ pulse with alive := false },s.db,none,rfl,hpulse,rfl,rfl,
          Or.inl ⟨rfl,rfl,rfl,rfl⟩,?_⟩
        simp [advanced]
      · obtain ⟨⟨db,stage,event⟩,hstage,rfl⟩ := Option.map_eq_some_iff.mp h
        exact ⟨i,_,pulse,{ pulse with stage := stage },db,event,rfl,hpulse,rfl,rfl,
          Or.inr hstage,rfl⟩
    · cases h

end AegisRuntime.HeartbeatPulses
