import AegisRuntime.GatewayRoutes
import AegisRuntime.HeartbeatPulses
import AegisRuntime.LinkFreeTrees
import AegisRuntime.SkillPermissions

/-!
# What the gateway does to the machine

The gateway under any traffic: requests from anyone, frames on open sockets, tool calls
of agents at work, pulses that run queued tasks, and other processes that change the
file system. Every skill and every shell command is a program whose system calls
interleave with all of this. Whatever is done to the machine goes back to a request that
presented the token, or to a task that an earlier process left in the table; it stays
within the permissions of the skills, and in a workspace without symbolic links no call
changes anything outside of it but by the processes that are started.
-/

namespace AegisRuntime.GatewayTraffic

open SymlinkTrees FileSystemCalls LinkFreeTrees WorkspacePaths LocalCommands JsonValues LabelledRuns
open CallPrograms SystemCalls SkillPrograms SkillPermissions OperatorGate GatewayRoutes
open KeyedTables
open HeartbeatPulses (BeatState BeatAct PulseMove PulseStage Pulse TaskRecord TaskPhase StageCase
  beatStep beatStep_cases stageStep stageStep_cases bodyOf)
open GatedDispatch (DispatchEnv SkillExecutionRequest probeGate)

/-- The parts of the gateway that do not change while it runs. -/
structure Gateway (Headers Value π : Type) where
  /-- The header maps. -/
  api : HeaderApi Headers Value
  /-- The token. -/
  auth : OperatorAuth
  /-- What the gates of the skills meet. -/
  env : DispatchEnv π
  /-- The workspace of the skills. -/
  workspace : WorkspaceCapability
  /-- The workspace that the heartbeat engine detected for itself. -/
  heartbeatWorkspace : WorkspaceCapability

/-- What the `Json` extractor makes of a body, by the type that it is asked for. -/
inductive Payload where
  /-- `ShellRequest`. -/
  | shellRequest (command : String)
  /-- `SkillExecutionRequest`. -/
  | skillExecutionRequest (req : SkillExecutionRequest)
  /-- `AgentRunRequest`; its fields only shape the conversation with the model. -/
  | agentRunRequest
  /-- `CreateTaskRequest`. -/
  | createTaskRequest (taskType payload : String)
  /-- A request that only the model or the prober answers. -/
  | other

/-- What a request or a frame sets going on the machine. -/
inductive Work where
  /-- Nothing. -/
  | nothing
  /-- A shell command. -/
  | shell (command : String)
  /-- A skill. -/
  | skill (req : SkillExecutionRequest)
  /-- An agent. -/
  | agentRun
  /-- A queued task. -/
  | task (taskType payload : String)
  /-- A pulse. -/
  | pulse
  /-- A socket. -/
  | upgrade

/-- What a handler sets going; a body that is not of its type is rejected. -/
def handlerWork : Handler → Option Payload → Work
  | .shell,some (.shellRequest command) => .shell command
  | .executeSkill,some (.skillExecutionRequest req) => .skill req
  | .agentRun,some .agentRunRequest => .agentRun
  | .createTask,some (.createTaskRequest taskType payload) => .task taskType payload
  | .triggerHeartbeat,_ => .pulse
  | .ws,_ => .upgrade
  | _,_ => .nothing

/-- What a text frame sets going. -/
def frameWork (parsed : JsonValue) : Work :=
  let msgType := (optionalArg parsed "type").getD "chat"
  if msgType="heartbeat" then .pulse
  else if msgType="skill_exec" then
    .skill ⟨(optionalArg parsed "skill_name").getD "",(parsed.get "arguments").getD (.object [])⟩
  else if msgType="agent_run" then .agentRun
  else if msgType="shell" then .shell ((optionalArg parsed "command").getD "echo shell ready")
  else .nothing

/-- What a job goes back to. -/
inductive Cause (Headers : Type) where
  /-- A request. -/
  | request (req : Request Headers)
  /-- A task that nobody has queued since the start. -/
  | inherited (id : String)

/-- A skill or a shell command at work. -/
structure Job (Headers : Type) where
  /-- What it goes back to. -/
  cause : Cause Headers
  /-- The workspace it is bound to. -/
  workspace : WorkspaceCapability
  /-- The skill that the probe gate was asked about. -/
  skillName : String
  /-- Its arguments. -/
  arguments : JsonValue
  /-- The calls it has made, with their answers. -/
  past : List SystemEvent
  /-- What is left of it. -/
  program : SystemProgram Unit

/-- A system call that was made. -/
structure Deed (Headers : Type) where
  /-- The job, as it was before the call. -/
  job : Job Headers
  /-- The call with its answer. -/
  event : SystemEvent
  /-- The tree before it. -/
  before : FileTree
  /-- The tree after it. -/
  after : FileTree

/-- The state of the gateway and of the machine. -/
structure TrafficState (Headers : Type) where
  /-- The file system. -/
  fs : FileSystem
  /-- The database of the tasks and the pulses. -/
  beats : BeatState
  /-- The requests that queued tasks, by identifier. -/
  creators : List (String×Request Headers)
  /-- The sockets: the request that was upgraded, and whether it is open. -/
  sockets : List (Request Headers×Bool)
  /-- The agents: the request that started it, and whether it is at work. -/
  agents : List (Request Headers×Bool)
  /-- The jobs. -/
  jobs : List (Job Headers)
  /-- The system calls so far. -/
  deeds : List (Deed Headers)

/-- A gateway that has just started, on the database that earlier processes left. -/
def TrafficState.start (Headers : Type) (fs : FileSystem) (db : HeartbeatPulses.Database) :
    TrafficState Headers :=
  ⟨fs,{ BeatState.start with db := db },[],[],[],[],[]⟩

/-- What can happen. -/
inductive Act (Headers : Type) where
  /-- A request comes in; a task it queues gets this identifier, at this time. -/
  | request (req : Request Headers) (payload : Option Payload) (id now : String)
  /-- A text frame comes in that is JSON. -/
  | frame (socket : ℕ) (parsed : JsonValue) (id now : String)
  /-- A socket is closed. -/
  | close (socket : ℕ)
  /-- An agent makes the tool call that its model asks for. -/
  | toolCall (agent : ℕ) (skillName : String) (arguments : JsonValue)
  /-- An agent ends. -/
  | agentEnds (agent : ℕ)
  /-- The background loop starts a pulse. -/
  | beat (now : String)
  /-- A pulse takes a step. -/
  | move (pulse : ℕ) (move : PulseMove)
  /-- A job makes its next call, whatever it is answered and whatever comes of it. -/
  | call (job : ℕ) (event : SystemEvent) (effect : Effect)
  /-- Other processes change the file system. -/
  | outside (tree : FileTree)

variable {Headers Value π : Type} (g : Gateway Headers Value π)

/-- The job of a shell command behind the probe gate. -/
def shellJob (cause : Cause Headers) (ws : WorkspaceCapability) (command : String) :
    Job Headers :=
  ⟨cause,ws,"bash_eval",commandArgs command,[],
    (dispatchShellGated g.env ws command none 15).map fun _ => ()⟩

/-- The job of a skill that a client asks for. -/
def skillJob (cause : Cause Headers) (req : SkillExecutionRequest) : Job Headers :=
  ⟨cause,g.workspace,req.skillName,req.arguments,[],
    (executeGated g.env g.workspace req).map fun _ => ()⟩

/-- The job of a tool call. -/
def toolJob (cause : Cause Headers) (skillName : String) (arguments : JsonValue) : Job Headers :=
  ⟨cause,g.workspace,skillName,arguments,[],
    (dispatchClassified g.env g.workspace skillName arguments).map fun _ => ()⟩

/-- The shell commands of the tasks whose bodies a step began, with the tasks. -/
def begunShells (beats beats' : BeatState) : List (String×String) :=
  (beats'.log.drop beats.log.length).filterMap fun e =>
    match e.phase with
    | .body (.dispatchShell command) => some (e.task,command)
    | .body _ | .claim | .complete _ => none

/-- What a begun task goes back to: the request that queued it, if there is one. -/
def beginCause (creators : List (String×Request Headers)) (id : String) : Cause Headers :=
  match creators.lookup id with
  | some req => .request req
  | none => .inherited id

/-- Sets work going for a request. -/
def setGoing (s : TrafficState Headers) (cause : Request Headers) (id now : String) :
    Work → TrafficState Headers
  | .nothing => s
  | .shell command => { s with jobs := s.jobs++[shellJob g (.request cause) g.workspace command] }
  | .skill req => { s with jobs := s.jobs++[skillJob g (.request cause) req] }
  | .agentRun => { s with agents := s.agents++[(cause,true)] }
  | .task taskType payload =>
    match s.beats.db.createTask id taskType payload now with
    | some db => { s with beats := { s.beats with db := db }, creators := s.creators++[(id,cause)] }
    | none => s
  | .pulse => { s with beats := (beatStep s.beats (.pulse 0 now)).getD s.beats }
  | .upgrade => { s with sockets := s.sockets++[(cause,true)] }

/-- The state after an action, where it is enabled. -/
def trafficStep (s : TrafficState Headers) : Act Headers → Option (TrafficState Headers)
  | .request req payload id now =>
    match service g.api g.auth req with
    | .handled handler => some (setGoing g s req id now (handlerWork handler payload))
    | .preflight | .refused _ | .notFound | .methodNotAllowed => some s
  | .frame i parsed id now =>
    match s.sockets[i]? with
    | some (cause,true) => some (setGoing g s cause id now (frameWork parsed))
    | some (_,false) | none => none
  | .close i => s.sockets[i]?.map fun socket =>
      { s with sockets := s.sockets.set i (socket.1,false) }
  | .toolCall i skillName arguments =>
    match s.agents[i]? with
    | some (cause,true) =>
      some { s with jobs := s.jobs++[toolJob g (.request cause) skillName arguments] }
    | some (_,false) | none => none
  | .agentEnds i => s.agents[i]?.map fun agent =>
      { s with agents := s.agents.set i (agent.1,false) }
  | .beat now => (beatStep s.beats (.pulse 0 now)).map fun beats => { s with beats := beats }
  | .move i move => (beatStep s.beats (.move i move)).map fun beats =>
      { s with
        beats := beats
        jobs := s.jobs++(begunShells s.beats beats).map fun begun =>
          shellJob g (beginCause s.creators begun.1) g.heartbeatWorkspace begun.2 }
  | .call i event effect => s.jobs[i]?.bind fun job => (job.program.advance event).map fun program =>
      let fs := changed s.fs event.call effect
      { s with
        fs := fs
        jobs := s.jobs.set i { job with past := job.past++[event], program := program }
        deeds := s.deeds++[⟨job,event,s.fs.tree,fs.tree⟩] }
  | .outside tree => some { s with fs := { s.fs with tree := tree } }

/-- The request was made and presented the token. -/
structure Caused (acts : List (Act Headers)) (req : Request Headers) : Prop where
  /-- It came in. -/
  made : ∃ payload id now, Act.request req payload id now∈acts
  /-- The token was verified. -/
  verified : g.auth.verify (presentedToken g.api req.headers)=true

/-- The identifiers of the tasks in the table. -/
def taskIds (db : HeartbeatPulses.Database) : List String := db.tasks.rows.map TaskRecord.id

/-- The identifiers of those that are pending. -/
def pendingIds (db : HeartbeatPulses.Database) : List String :=
  (db.tasks.rows.filter fun task => decide (task.status=.pending)).map TaskRecord.id

/-- What a job may go back to: a request that presented the token, or a task that was
pending in the table at the start. -/
inductive Rightful (db : HeartbeatPulses.Database) (acts : List (Act Headers)) :
    Cause Headers → Prop where
  /-- A request. -/
  | request (req : Request Headers) (caused : Caused g acts req) : Rightful db acts (.request req)
  /-- A task that was pending at the start. -/
  | inherited (id : String) (pending : id∈pendingIds db) : Rightful db acts (.inherited id)

/-- The tasks that a pulse has in its hands. -/
def heldTasks : PulseStage → List TaskRecord
  | .looping loop => loop.rest
  | .claimed task loop | .running task loop | .completing task _ loop => task::loop.rest
  | .listing | .recorded _ | .returned _ => []

/-- The workspaces of the gateway. -/
def workspaces : List WorkspaceCapability := [g.workspace,g.heartbeatWorkspace]

/-- What a job may do next, after what it did. -/
structure JobBound (job : Job Headers) : Prop where
  /-- It is bound to a workspace of the gateway. -/
  home : job.workspace∈workspaces g
  /-- Its calls are behind the gate and permitted. -/
  calls : job.program.Ensures (fun past call => probeGate g.env job.skillName job.arguments=.ok () ∧
    Permitted job.workspace past call) (fun _ _ => True) job.past

/-- A system call with a cause, behind the gate and within the permissions. -/
structure Authorised (db : HeartbeatPulses.Database) (acts : List (Act Headers))
    (deed : Deed Headers) : Prop where
  /-- The job goes back to a request with the token or to a task from before. -/
  caused : Rightful g db acts deed.job.cause
  /-- The job is bound to a workspace of the gateway. -/
  home : deed.job.workspace∈workspaces g
  /-- The probe gate passed the job. -/
  gated : probeGate g.env deed.job.skillName deed.job.arguments=.ok ()
  /-- The call is permitted after the calls that the job made before. -/
  permitted : Permitted deed.job.workspace deed.job.past deed.event.call

/-- The task was queued by a request, or was pending at the start. -/
def Known (db : HeartbeatPulses.Database) (s : TrafficState Headers) (id : String) : Prop :=
  id∈s.creators.map Prod.fst ∨ id∈pendingIds db

/-- Everything at work is accounted for by requests that presented the token and by the
tasks that were in the table at the start. -/
structure Accounted (db : HeartbeatPulses.Database) (acts : List (Act Headers))
    (s : TrafficState Headers) : Prop where
  /-- Every socket. -/
  sockets : ∀ socket∈s.sockets, Caused g acts socket.1
  /-- Every agent. -/
  agents : ∀ agent∈s.agents, Caused g acts agent.1
  /-- Every queued task. -/
  creators : ∀ creator∈s.creators, Caused g acts creator.2
  /-- The table has the tasks from the start and those that were queued. -/
  tasks : taskIds s.beats.db=taskIds db++s.creators.map Prod.fst
  /-- Every pending task is known. -/
  pending : ∀ id∈pendingIds s.beats.db, Known db s id
  /-- Every task that a pulse has is known. -/
  held : ∀ pulse∈s.beats.pulses, ∀ task∈heldTasks pulse.stage, Known db s task.id
  /-- Every job has a cause and stays within the permissions. -/
  jobs : ∀ job∈s.jobs, Rightful g db acts job.cause ∧ JobBound g job
  /-- Every system call was authorised. -/
  deeds : ∀ deed∈s.deeds, Authorised g db acts deed

variable {g} {db₀ : HeartbeatPulses.Database} {acts : List (Act Headers)} {s : TrafficState Headers}
  {a : Act Headers}

theorem Caused.concat {req : Request Headers} (h : Caused g acts req) (a : Act Headers) :
    Caused g (acts++[a]) req :=
  ⟨h.made.imp fun _ => Exists.imp fun _ => Exists.imp fun _ => List.mem_append_left [a],h.verified⟩

theorem Rightful.concat {cause : Cause Headers} (h : Rightful g db₀ acts cause) (a : Act Headers) :
    Rightful g db₀ (acts++[a]) cause := by
  cases h with
  | request req caused => exact .request req (caused.concat a)
  | inherited id pending => exact .inherited id pending

/-- What was accounted for stays so. -/
theorem Accounted.concat (h : Accounted g db₀ acts s) (a : Act Headers) :
    Accounted g db₀ (acts++[a]) s where
  sockets socket hs := (h.sockets socket hs).concat a
  agents agent ha := (h.agents agent ha).concat a
  creators creator hc := (h.creators creator hc).concat a
  tasks := h.tasks
  pending := h.pending
  held := h.held
  jobs job hj := ⟨(h.jobs job hj).1.concat a,(h.jobs job hj).2⟩
  deeds deed hd := by
    obtain ⟨hcause,hhome,hgated,hpermitted⟩ := h.deeds deed hd
    exact ⟨hcause.concat a,hhome,hgated,hpermitted⟩

section Jobs

variable (cause : Cause Headers)

theorem shellJob_bound {ws : WorkspaceCapability} (hws : ws∈workspaces g) (command : String) :
    JobBound g (shellJob g cause ws command) :=
  ⟨hws,Ensures.map (Ensures.mono (dispatchShellGated_ensures command) fun _ _ _ _ => trivial)⟩

theorem skillJob_bound (req : SkillExecutionRequest) : JobBound g (skillJob g cause req) :=
  ⟨List.mem_cons_self,
    Ensures.map (Ensures.mono (executeGated_ensures [] req) fun _ _ _ _ => trivial)⟩

theorem toolJob_bound (skillName : String) (arguments : JsonValue) :
    JobBound g (toolJob g cause skillName arguments) := by
  obtain ⟨quiet,hcalls,-⟩ := dispatchClassified_ensures g.env g.workspace [] skillName arguments
  exact ⟨List.mem_cons_self,Ensures.map (Ensures.mono
    (Ensures.weaken hcalls fun _ _ h => ⟨h.1,h.2.1⟩) fun _ _ _ _ => trivial)⟩

end Jobs

/-- One more job with a cause. -/
theorem Accounted.addJob (h : Accounted g db₀ acts s) {job : Job Headers}
    (hcause : Rightful g db₀ acts job.cause) (hbound : JobBound g job) :
    Accounted g db₀ acts { s with jobs := s.jobs++[job] } :=
  { h with
    jobs := fun job' hjob => by
      rcases List.mem_append.mp hjob with hold|hnew
      · exact h.jobs job' hold
      · rw [List.mem_singleton.mp hnew]
        exact ⟨hcause,hbound⟩ }

/-- The same tasks, of which no others are pending. -/
structure KeepsTasks (db db' : HeartbeatPulses.Database) : Prop where
  /-- The tasks are the same. -/
  ids : taskIds db'=taskIds db
  /-- What is pending was pending. -/
  pending : ∀ id∈pendingIds db', id∈pendingIds db

/-- Other pulses over the same tasks. -/
theorem Accounted.setBeats (h : Accounted g db₀ acts s) {beats : BeatState}
    (hkeeps : KeepsTasks s.beats.db beats.db)
    (hheld : ∀ pulse∈beats.pulses, ∀ task∈heldTasks pulse.stage, task.id∈pendingIds s.beats.db ∨
      ∃ pulse∈s.beats.pulses, task∈heldTasks pulse.stage) :
    Accounted g db₀ acts { s with beats := beats } :=
  { h with
    tasks := hkeeps.ids.trans h.tasks
    pending := fun id hid => h.pending id (hkeeps.pending id hid)
    held := fun pulse hpulse task htask => by
      rcases hheld pulse hpulse task htask with hrow|⟨pulse',hpulse',htask'⟩
      · exact h.pending _ hrow
      · exact h.held pulse' hpulse' task htask' }

section Beats

variable {db db' : HeartbeatPulses.Database} {beats beats' : BeatState}

theorem keepsTasks_of_tasks (h : db'.tasks=db.tasks) : KeepsTasks db db' := by
  refine ⟨?_,fun id hid => ?_⟩
  · rw [taskIds,taskIds,h]
  · rwa [pendingIds,h] at hid

/-- Rewriting a row keeps the tasks, if it makes no row pending. -/
theorem keepsTasks_modify (id : String) (f : TaskRecord → TaskRecord) (hf : ∀ r, (f r).id=r.id)
    (hpending : ∀ r, (f r).status=.pending → r.status=.pending) :
    KeepsTasks db { db with tasks := db.tasks.modify id f hf } := by
  refine ⟨?_,fun id' hid => ?_⟩
  · rw [taskIds,taskIds,Table.modify,List.map_map]
    refine List.map_congr_left fun r _ => ?_
    rw [Function.comp_apply]
    split
    · exact hf r
    · rfl
  · obtain ⟨row,hrow,rfl⟩ := List.mem_map.mp hid
    obtain ⟨hmem,hstatus⟩ := List.mem_filter.mp hrow
    obtain ⟨r,hr,rfl⟩ := List.mem_map.mp hmem
    have hkept : r.status=.pending ∧ (if r.id=id then f r else r).id=r.id := by
      have hnow := of_decide_eq_true hstatus
      by_cases hrow : r.id=id
      · rw [if_pos hrow] at hnow ⊢
        exact ⟨hpending r hnow,hf r⟩
      · rw [if_neg hrow] at hnow ⊢
        exact ⟨hnow,rfl⟩
    rw [hkept.2]
    exact List.mem_map_of_mem (List.mem_filter.mpr ⟨hr,decide_eq_true hkept.1⟩)

theorem keepsTasks_claim (id : String) : KeepsTasks db (db.claimTask id).1 := by
  refine keepsTasks_modify id TaskRecord.claimed TaskRecord.claimed_id fun r h => ?_
  unfold TaskRecord.claimed at h
  split at h
  · cases h
  · exact h

theorem keepsTasks_complete (id text now : String) :
    KeepsTasks db (db.completeTask id text now) :=
  keepsTasks_modify id _ (TaskRecord.finished_id text now) fun _ h => by cases h

theorem keepsTasks_bodyEffect (body : HeartbeatPulses.TaskBody)
    (answer : HeartbeatPulses.BodyAnswer) :
    KeepsTasks db (HeartbeatPulses.bodyEffect db body answer) := by
  refine keepsTasks_of_tasks ?_
  unfold HeartbeatPulses.bodyEffect
  split
  · split <;> rfl
  · rfl
  · rfl
  · rfl
  · rfl

/-- What a step of a pulse does with tasks: it keeps the table's, takes pending ones or
keeps its own, and begins the bodies of its own. -/
theorem stage_tasks {tick : UInt64} {timestamp : String} {stage stage' : PulseStage}
    {move : PulseMove} {event : Option (String×TaskPhase)}
    (h : stageStep db tick timestamp stage move=some (db',stage',event)) :
    KeepsTasks db db' ∧
      (∀ task∈heldTasks stage', task.id∈pendingIds db ∨ task∈heldTasks stage) ∧
      ∀ id body, event=some (id,.body body) → ∃ task∈heldTasks stage, task.id=id := by
  cases stageStep_cases h with
  | lists pending ok =>
    refine ⟨keepsTasks_of_tasks rfl,fun task htask => .inl ?_,fun id body hevent => by cases hevent⟩
    simp only [stageStep,Option.some.injEq,Prod.mk.injEq,PulseStage.looping.injEq] at h
    have hpending : (if ok then db.listPendingTasks else [])=pending :=
      congrArg HeartbeatPulses.PulseLoop.rest h.2.1
    have hmem : task∈(if ok then db.listPendingTasks else []) := by
      rw [hpending]
      exact htask
    split at hmem
    · rw [HeartbeatPulses.Database.listPendingTasks,List.mem_insertionSort] at hmem
      exact List.mem_map_of_mem hmem
    · cases hmem
  | claims task rest scanned actions db' hclaim =>
    obtain rfl : (db.claimTask task.id).1=db' := congrArg Prod.fst hclaim
    exact ⟨keepsTasks_claim _,fun t ht => .inr ht,fun id body hevent => by cases hevent⟩
  | misses task rest scanned actions db' hmissed =>
    obtain rfl : (db.claimTask task.id).1=db' := congrArg Prod.fst hmissed
    exact ⟨keepsTasks_claim _,fun t ht => .inr (List.mem_cons_of_mem _ ht),
      fun id body hevent => by cases hevent⟩
  | claimFails task rest scanned actions =>
    exact ⟨keepsTasks_of_tasks rfl,fun t ht => .inr (List.mem_cons_of_mem _ ht),
      fun id body hevent => by cases hevent⟩
  | begins task loop =>
    refine ⟨keepsTasks_of_tasks rfl,fun t ht => .inr ht,
      fun id body hevent => ⟨task,List.mem_cons_self,?_⟩⟩
    cases hevent
    rfl
  | ends task loop answer =>
    exact ⟨keepsTasks_bodyEffect _ _,fun t ht => .inr ht,fun id body hevent => by cases hevent⟩
  | completes task text loop now ok =>
    refine ⟨?_,fun t ht => .inr (List.mem_cons_of_mem _ ht),fun id body hevent => by cases hevent⟩
    split
    · exact keepsTasks_complete _ _ _
    · exact keepsTasks_of_tasks rfl
  | records scanned actions ok =>
    refine ⟨keepsTasks_of_tasks ?_,fun t ht => absurd ht List.not_mem_nil,
      fun id body hevent => by cases hevent⟩
    split <;> rfl
  | finishes receipt =>
    exact ⟨keepsTasks_of_tasks rfl,fun t ht => absurd ht List.not_mem_nil,
      fun id body hevent => by cases hevent⟩

/-- A new pulse has no tasks yet. -/
theorem pulse_tasks {engine : ℕ} {now : String} (h : beatStep beats (.pulse engine now)=some beats') :
    beats'.db=beats.db ∧ ∀ pulse∈beats'.pulses, ∀ task∈heldTasks pulse.stage,
      ∃ pulse∈beats.pulses, task∈heldTasks pulse.stage := by
  cases h
  refine ⟨rfl,fun pulse hpulse task htask => ?_⟩
  rcases List.mem_append.mp hpulse with hold|hnew
  · exact ⟨pulse,hold,htask⟩
  · rw [List.mem_singleton.mp hnew] at htask
    cases htask

/-- A step of a pulse, over all pulses: it keeps the tasks of the table, takes pending tasks
or keeps its own, and what it begins belongs to tasks that a pulse had. -/
theorem move_tasks {i : ℕ} {move : PulseMove} (h : beatStep beats (.move i move)=some beats') :
    KeepsTasks beats.db beats'.db ∧
      (∀ pulse∈beats'.pulses, ∀ task∈heldTasks pulse.stage, task.id∈pendingIds beats.db ∨
        ∃ pulse∈beats.pulses, task∈heldTasks pulse.stage) ∧
      ∀ begun∈begunShells beats beats', ∃ pulse∈beats.pulses, ∃ task∈heldTasks pulse.stage,
        task.id=begun.1 := by
  rcases beatStep_cases h with ⟨_,_,_,_,hact,-⟩|⟨_,_,hact,-⟩|
    ⟨j,move',pulse,pulse',db,event,hact,hpulse,-,-,hstage,rfl⟩
  · cases hact
  · cases hact
  · have hmem := List.mem_of_getElem? hpulse
    have htasks : KeepsTasks beats.db db ∧
        (∀ task∈heldTasks pulse'.stage, task.id∈pendingIds beats.db ∨
          task∈heldTasks pulse.stage) ∧
        ∀ id body, event=some (id,.body body) → ∃ task∈heldTasks pulse.stage, task.id=id := by
      rcases hstage with ⟨-,rfl,rfl,hsame⟩|hstep
      · exact ⟨keepsTasks_of_tasks rfl,fun task htask => .inr (hsame ▸ htask),
          fun _ _ hevent => by cases hevent⟩
      · exact stage_tasks hstep
    refine ⟨htasks.1,fun p hp task htask => ?_,fun begun hbegun => ?_⟩
    · rcases List.mem_or_eq_of_mem_set hp with hold|rfl
      · exact .inr ⟨p,hold,htask⟩
      · exact (htasks.2.1 task htask).imp_right fun htask' => ⟨pulse,hmem,htask'⟩
    · rw [begunShells,HeartbeatPulses.advanced,List.drop_left,List.mem_filterMap] at hbegun
      obtain ⟨e,he,hbody⟩ := hbegun
      cases event with
      | none => cases he
      | some event =>
        obtain ⟨id,phase⟩ := event
        rw [Option.map_some,Option.toList_some,List.mem_singleton] at he
        subst he
        cases phase with
        | claim => cases hbody
        | complete result => cases hbody
        | body body =>
          obtain ⟨task,htask,hid⟩ := htasks.2.2 id body rfl
          refine ⟨pulse,hmem,task,htask,hid.trans ?_⟩
          cases body with
          | dispatchShell command =>
            cases hbody
            rfl
          | checkHealth | storeCrumb key | telemetry | other => cases hbody

end Beats

/-- A queued task is one more pending task. -/
theorem createTask_ids {db db' : HeartbeatPulses.Database} {id taskType payload now : String}
    (h : db.createTask id taskType payload now=some db') :
    taskIds db'=taskIds db++[id] ∧ pendingIds db'=pendingIds db++[id] := by
  obtain ⟨tasks,hinsert,rfl⟩ := Option.map_eq_some_iff.mp h
  have hrows := (Table.insert_rows hinsert).1
  rw [taskIds,pendingIds,hrows,List.filter_append,List.map_append,List.map_append]
  exact ⟨rfl,rfl⟩

/-- One more task that a request queued. -/
theorem Accounted.addTask (h : Accounted g db₀ acts s) {cause : Request Headers}
    (hcause : Caused g acts cause) {db : HeartbeatPulses.Database} {id taskType payload now : String}
    (hcreate : s.beats.db.createTask id taskType payload now=some db) :
    Accounted g db₀ acts { s with
      beats := { s.beats with db := db }, creators := s.creators++[(id,cause)] } := by
  obtain ⟨hids,hpending⟩ := createTask_ids hcreate
  have hcreators : (s.creators++[(id,cause)]).map Prod.fst=s.creators.map Prod.fst++[id] := by
    rw [List.map_append]
    rfl
  have hknown : ∀ {id'}, Known db₀ s id' → id'∈s.creators.map Prod.fst++[id] ∨ id'∈pendingIds db₀ :=
    fun hid => hid.imp_left (List.mem_append_left _)
  refine { h with creators := fun creator hcreator => ?_, tasks := ?_, pending := fun id' hid => ?_,
                  held := fun pulse hpulse task htask => ?_ }
  · rcases List.mem_append.mp hcreator with hold|hnew
    · exact h.creators creator hold
    · rw [List.mem_singleton.mp hnew]
      exact hcause
  · rw [hids,hcreators,h.tasks,List.append_assoc]
  · rw [hpending] at hid
    rw [Known,hcreators]
    rcases List.mem_append.mp hid with hold|hnew
    · exact hknown (h.pending id' hold)
    · exact .inl (List.mem_append_right _ hnew)
  · rw [Known,hcreators]
    exact hknown (h.held pulse hpulse task htask)

/-- Setting work going keeps the accounts. -/
theorem Accounted.setGoing (h : Accounted g db₀ acts s) {cause : Request Headers}
    (hcause : Caused g acts cause) (id now : String) (work : Work) :
    Accounted g db₀ acts (setGoing g s cause id now work) := by
  cases work with
  | nothing => exact h
  | shell command => exact h.addJob (.request _ hcause) (shellJob_bound _ List.mem_cons_self _)
  | skill req => exact h.addJob (.request _ hcause) (skillJob_bound _ _)
  | agentRun =>
    refine { h with agents := fun agent hagent => ?_ }
    rcases List.mem_append.mp hagent with hold|hnew
    · exact h.agents agent hold
    · rw [List.mem_singleton.mp hnew]
      exact hcause
  | upgrade =>
    refine { h with sockets := fun socket hsocket => ?_ }
    rcases List.mem_append.mp hsocket with hold|hnew
    · exact h.sockets socket hold
    · rw [List.mem_singleton.mp hnew]
      exact hcause
  | pulse =>
    obtain ⟨hdb,hheld⟩ := pulse_tasks (show beatStep s.beats (.pulse 0 now)=some _ from rfl)
    refine h.setBeats (keepsTasks_of_tasks ?_) fun pulse hpulse task htask =>
      .inr (hheld pulse hpulse task htask)
    exact congrArg HeartbeatPulses.Database.tasks hdb
  | task taskType payload =>
    rw [GatewayTraffic.setGoing]
    split
    · next db hcreate => exact h.addTask hcause hcreate
    · exact h

/-- A handler that anyone may reach sets nothing going. -/
theorem public_nothing {handler : Handler} (h : handler∈PUBLIC_HANDLERS)
    (payload : Option Payload) : handlerWork handler payload=.nothing := by
  simp only [PUBLIC_HANDLERS,List.mem_cons,List.not_mem_nil,or_false] at h
  rcases h with rfl|rfl|rfl|rfl <;> rfl

/-- A known task goes back to what it should. -/
theorem Accounted.beginCause (h : Accounted g db₀ acts s) {id : String} (hid : Known db₀ s id) :
    Rightful g db₀ acts (beginCause s.creators id) := by
  rw [GatewayTraffic.beginCause]
  split
  · next req hlookup =>
    obtain ⟨before,after,hsplit,-⟩ := List.lookup_eq_some_iff.mp hlookup
    have hmem : (id,req)∈s.creators := by
      rw [hsplit]
      exact List.mem_append_right _ List.mem_cons_self
    exact .request req (h.creators _ hmem)
  · next hlookup =>
    refine .inherited id (hid.resolve_left fun hqueued => ?_)
    obtain ⟨creator,hcreator,rfl⟩ := List.mem_map.mp hqueued
    have hother := List.lookup_eq_none_iff.mp hlookup creator hcreator
    simp at hother

/-- The jobs of begun bodies go back to what queued the tasks. -/
theorem Accounted.addBegun (h : Accounted g db₀ acts s) {begun : List (String×String)}
    (hbegun : ∀ b∈begun, Known db₀ s b.1) :
    Accounted g db₀ acts { s with
      jobs := s.jobs++begun.map fun b =>
        shellJob g (GatewayTraffic.beginCause s.creators b.1) g.heartbeatWorkspace b.2 } := by
  refine { h with jobs := fun job hjob => ?_ }
  rcases List.mem_append.mp hjob with hold|hnew
  · exact h.jobs job hold
  · obtain ⟨b,hb,rfl⟩ := List.mem_map.mp hnew
    refine ⟨h.beginCause (hbegun b hb),shellJob_bound _ ?_ _⟩
    exact List.mem_cons_of_mem _ List.mem_cons_self

/-- Every step keeps the accounts. -/
theorem Accounted.step (h : Accounted g db₀ acts s) {t : TrafficState Headers}
    (hstep : trafficStep g s a=some t) : Accounted g db₀ (acts++[a]) t := by
  have hlater := h.concat a
  cases a with
  | request req payload id now =>
    simp only [trafficStep] at hstep
    split at hstep
    · next handler hhandled =>
      cases hstep
      rcases handled_authorised g.api g.auth hhandled with hverified|⟨-,hpublic⟩
      · have hmade : Act.request req payload id now∈acts++[.request req payload id now] :=
          List.mem_append_right _ List.mem_cons_self
        exact hlater.setGoing ⟨⟨payload,id,now,hmade⟩,hverified⟩ id now _
      · rw [public_nothing hpublic]
        exact hlater
    · cases hstep
      exact hlater
    · cases hstep
      exact hlater
    · cases hstep
      exact hlater
    · cases hstep
      exact hlater
  | frame i parsed id now =>
    simp only [trafficStep] at hstep
    split at hstep
    · next cause hsocket =>
      cases hstep
      exact hlater.setGoing (hlater.sockets _ (List.mem_of_getElem? hsocket)) id now _
    · cases hstep
    · cases hstep
  | close i =>
    obtain ⟨socket,hsocket,rfl⟩ := Option.map_eq_some_iff.mp hstep
    refine { hlater with sockets := fun socket' hmem => ?_ }
    rcases List.mem_or_eq_of_mem_set hmem with hold|rfl
    · exact hlater.sockets socket' hold
    · exact hlater.sockets socket (List.mem_of_getElem? hsocket)
  | toolCall i skillName arguments =>
    simp only [trafficStep] at hstep
    split at hstep
    · next cause hagent =>
      cases hstep
      have hcause := hlater.agents _ (List.mem_of_getElem? hagent)
      exact hlater.addJob (.request _ hcause) (toolJob_bound _ _ _)
    · cases hstep
    · cases hstep
  | agentEnds i =>
    obtain ⟨agent,hagent,rfl⟩ := Option.map_eq_some_iff.mp hstep
    refine { hlater with agents := fun agent' hmem => ?_ }
    rcases List.mem_or_eq_of_mem_set hmem with hold|rfl
    · exact hlater.agents agent' hold
    · exact hlater.agents agent (List.mem_of_getElem? hagent)
  | beat now =>
    rw [trafficStep] at hstep
    obtain ⟨beats,hbeats,rfl⟩ := Option.map_eq_some_iff.mp hstep
    obtain ⟨hdb,hheld⟩ := pulse_tasks hbeats
    refine hlater.setBeats (keepsTasks_of_tasks ?_) fun pulse hpulse task htask =>
      .inr (hheld pulse hpulse task htask)
    exact congrArg HeartbeatPulses.Database.tasks hdb
  | move i move =>
    obtain ⟨beats,hbeats,rfl⟩ := Option.map_eq_some_iff.mp hstep
    obtain ⟨hkeeps,hheld,hbegun⟩ := move_tasks hbeats
    refine (hlater.setBeats hkeeps hheld).addBegun fun begun hmem => ?_
    obtain ⟨pulse,hpulse,task,htask,hid⟩ := hbegun begun hmem
    exact hid ▸ hlater.held pulse hpulse task htask
  | call i event effect =>
    obtain ⟨job,hjob,hmap⟩ := Option.bind_eq_some_iff.mp hstep
    obtain ⟨program,hadvance,rfl⟩ := Option.map_eq_some_iff.mp hmap
    obtain ⟨hcause,hbound⟩ := hlater.jobs job (List.mem_of_getElem? hjob)
    obtain ⟨⟨hgated,hpermitted⟩,hrest⟩ := Ensures.advance hbound.calls hadvance
    refine { hlater with jobs := fun job' hmem => ?_, deeds := fun deed hmem => ?_ }
    · rcases List.mem_or_eq_of_mem_set hmem with hold|rfl
      · exact hlater.jobs job' hold
      · exact ⟨hcause,hbound.home,hrest⟩
    · rcases List.mem_append.mp hmem with hold|hnew
      · exact hlater.deeds deed hold
      · rw [List.mem_singleton.mp hnew]
        exact ⟨hcause,hbound.home,hgated,hpermitted⟩
  | outside tree =>
    cases hstep
    exact { hlater with }

/-- A run of the gateway from its start. -/
structure TrafficRun (g : Gateway Headers Value π) where
  /-- The file system at the start. -/
  fs : FileSystem
  /-- The database at the start, as earlier processes left it. -/
  db : HeartbeatPulses.Database
  /-- What happened, in order. -/
  acts : List (Act Headers)
  /-- The state it led to. -/
  state : TrafficState Headers
  /-- It led there. -/
  ran : runs (trafficStep g) (TrafficState.start Headers fs db) acts=some state

/-- At the start there are only the tasks of the table to account for. -/
theorem accounted_start (fs : FileSystem) (db : HeartbeatPulses.Database) :
    Accounted g db [] (TrafficState.start Headers fs db) where
  sockets _ h := absurd h List.not_mem_nil
  agents _ h := absurd h List.not_mem_nil
  creators _ h := absurd h List.not_mem_nil
  tasks := (List.append_nil _).symm
  pending _ h := .inr h
  held _ h := absurd h List.not_mem_nil
  jobs _ h := absurd h List.not_mem_nil
  deeds _ h := absurd h List.not_mem_nil

/-- Without a configured token only tasks from before the start are run. -/
structure Unattended (r : TrafficRun g) : Prop where
  /-- Every job is a task that was pending at the start. -/
  jobs : ∀ job∈r.state.jobs, ∃ id∈pendingIds r.db, job.cause=.inherited id
  /-- And so is the job of every system call. -/
  deeds : ∀ deed∈r.state.deeds, ∃ id∈pendingIds r.db, deed.job.cause=.inherited id
  /-- There are no agents. -/
  agents : r.state.agents=[]
  /-- There are no sockets. -/
  sockets : r.state.sockets=[]
  /-- No task is queued. -/
  tasks : taskIds r.state.beats.db=taskIds r.db

/-- Without a token and with no task pending at the start nothing is run at all. -/
theorem Unattended.nothing {r : TrafficRun g} (h : Unattended r) (hpending : pendingIds r.db=[]) :
    r.state.jobs=[] ∧ r.state.deeds=[] := by
  constructor
  · refine List.eq_nil_iff_forall_not_mem.mpr fun job hjob => ?_
    obtain ⟨id,hid,-⟩ := h.jobs job hjob
    rw [hpending] at hid
    cases hid
  · refine List.eq_nil_iff_forall_not_mem.mpr fun deed hdeed => ?_
    obtain ⟨id,hid,-⟩ := h.deeds deed hdeed
    rw [hpending] at hid
    cases hid

section Inside

variable {fs : FileSystem} {root : Loc}

/-- No call makes a link, unless a process that it starts does. -/
theorem linkFree_changed (h : LinkFree fs.tree root) (call : SystemCall) (effect : Effect)
    (hleft : ∀ tree, effect=.left tree → call.StartsProcess → LinkFree tree root) :
    LinkFree (changed fs call effect).tree root := by
  unfold changed
  split
  · next parent last _ =>
    cases hmkdir : fs.mkdir parent last with
    | error e => exact h
    | ok fs' =>
      obtain ⟨name,dir,b,-,-,-,-,rfl⟩ := mkdir_ok hmkdir
      exact h.put fun _ => Entry.noConfusion
  · next p content written =>
    rw [FileSystem.write]
    cases fs.openCreate p with
    | error e => exact h
    | ok loc => exact h.put fun _ => Entry.noConfusion
  · next program args dir tree => exact hleft tree rfl ⟨program,args,dir,rfl⟩
  · exact h

/-- A permitted call that starts no process changes nothing outside of a root without
links. -/
theorem permitted_inside {ws : WorkspaceCapability} {past : List SystemEvent} {call : SystemCall}
    (h : LinkFree fs.tree ws.root) (hcall : Permitted ws past call)
    (hown : ¬call.StartsProcess) (effect : Effect) :
    SameOutside ws.root fs.tree (changed fs call effect).tree := by
  cases hcall with
  | mkdir names parent last hvetted halong hproper =>
    cases effect with
    | nothing | left tree => exact .refl _ _
    | took written =>
      rw [changed]
      cases hmkdir : fs.mkdir parent last with
      | error e => exact .refl _ _
      | ok fs' => exact (h.mkdir hvetted.below halong hmkdir).2
  | write names content hvetted =>
    cases effect with
    | nothing | left tree => exact .refl _ _
    | took written =>
      rw [changed]
      cases hwrite : fs.write (locPath names) (String.ofList (content.toList.take written)) with
      | error e => exact .refl _ _
      | ok fs' => exact (h.write hvetted.below hwrite).2
  | shell command loc hadmitted hfound | git args loc hform hfound =>
    exact absurd ⟨_,_,_,rfl⟩ hown
  | pathExists p | canonicalize p | isDir p | readToString loc hfound | readDir loc hfound =>
    exact .refl _ _

end Inside

/-- No workspace has a symbolic link. -/
def Unlinked (g : Gateway Headers Value π) (t : FileTree) : Prop :=
  ∀ ws∈workspaces g, LinkFree t ws.root

/-- Setting work going leaves the file system and what was done. -/
theorem setGoing_untouched (s : TrafficState Headers) (cause : Request Headers) (id now : String)
    (work : Work) : (setGoing g s cause id now work).fs=s.fs ∧
      (setGoing g s cause id now work).deeds=s.deeds := by
  cases work with
  | task taskType payload =>
    rw [setGoing]
    split <;> exact ⟨rfl,rfl⟩
  | nothing | shell command | skill req | agentRun | pulse | upgrade => exact ⟨rfl,rfl⟩

/-- A step is a system call of a job, a change from outside, or leaves the file system. -/
theorem trafficStep_cases {t : TrafficState Headers} (h : trafficStep g s a=some t) :
    (∃ job∈s.jobs, ∃ i event effect, a=.call i event effect ∧
        (job.program.advance event).isSome ∧ t.fs=changed s.fs event.call effect ∧
        t.deeds=s.deeds++[⟨job,event,s.fs.tree,t.fs.tree⟩]) ∨
      (∃ tree, a=.outside tree ∧ t.fs.tree=tree ∧ t.deeds=s.deeds) ∨
      t.fs=s.fs ∧ t.deeds=s.deeds := by
  cases a with
  | request req payload id now =>
    simp only [trafficStep] at h
    split at h
    all_goals cases h
    · exact .inr (.inr (setGoing_untouched s req id now _))
    all_goals exact .inr (.inr ⟨rfl,rfl⟩)
  | frame i parsed id now =>
    simp only [trafficStep] at h
    split at h
    all_goals cases h
    exact .inr (.inr (setGoing_untouched s _ id now _))
  | close i =>
    obtain ⟨socket,-,rfl⟩ := Option.map_eq_some_iff.mp h
    exact .inr (.inr ⟨rfl,rfl⟩)
  | toolCall i skillName arguments =>
    simp only [trafficStep] at h
    split at h
    all_goals cases h
    exact .inr (.inr ⟨rfl,rfl⟩)
  | agentEnds i =>
    obtain ⟨agent,-,rfl⟩ := Option.map_eq_some_iff.mp h
    exact .inr (.inr ⟨rfl,rfl⟩)
  | beat now =>
    rw [trafficStep] at h
    obtain ⟨beats,-,rfl⟩ := Option.map_eq_some_iff.mp h
    exact .inr (.inr ⟨rfl,rfl⟩)
  | move i move =>
    obtain ⟨beats,-,rfl⟩ := Option.map_eq_some_iff.mp h
    exact .inr (.inr ⟨rfl,rfl⟩)
  | call i event effect =>
    obtain ⟨job,hjob,hmap⟩ := Option.bind_eq_some_iff.mp h
    obtain ⟨program,hadvance,rfl⟩ := Option.map_eq_some_iff.mp hmap
    exact .inl ⟨job,List.mem_of_getElem? hjob,i,event,effect,rfl,by rw [hadvance]; rfl,rfl,rfl⟩
  | outside tree =>
    cases h
    exact .inr (.inl ⟨tree,rfl,rfl,rfl⟩)

/-- The trees that others leave: other processes, and those that a system call starts. -/
inductive LeftByOthers : Act Headers → FileTree → Prop where
  /-- Another process changes the file system. -/
  | outside (tree : FileTree) : LeftByOthers (.outside tree) tree
  /-- A process that was started does. -/
  | process (job : ℕ) (event : SystemEvent) (tree : FileTree)
      (starts : event.call.StartsProcess) : LeftByOthers (.call job event (.left tree)) tree

/-- What holds while nobody makes a link: the workspaces have none, and every system call
that started no process left everything outside of its workspace as it was. -/
structure StaysInside (g : Gateway Headers Value π) (s : TrafficState Headers) : Prop where
  /-- The workspaces have no links. -/
  free : Unlinked g s.fs.tree
  /-- No system call changed anything outside of its workspace. -/
  deeds : ∀ deed∈s.deeds, ¬deed.event.call.StartsProcess →
    SameOutside deed.job.workspace.root deed.before deed.after

theorem StaysInside.step (h : StaysInside g s) (haccounted : Accounted g db₀ acts s)
    (hfree : ∀ tree, LeftByOthers a tree → Unlinked g tree) {t : TrafficState Headers}
    (hstep : trafficStep g s a=some t) : StaysInside g t := by
  rcases trafficStep_cases hstep with ⟨job,hjob,i,event,effect,rfl,hadvance,hfs,hdeeds⟩|
    ⟨tree,rfl,htree,hdeeds⟩|⟨hfs,hdeeds⟩
  · obtain ⟨hhome,hcalls⟩ := (haccounted.jobs job hjob).2
    obtain ⟨program,hprogram⟩ := Option.isSome_iff_exists.mp hadvance
    have hpermitted := (Ensures.advance hcalls hprogram).1.2
    constructor
    · intro ws hws
      rw [hfs]
      refine linkFree_changed (h.free ws hws) event.call effect fun tree heffect hstarts => ?_
      subst heffect
      exact hfree tree (.process i event tree hstarts) ws hws
    · intro deed hdeed hown
      rw [hdeeds] at hdeed
      rcases List.mem_append.mp hdeed with hold|hnew
      · exact h.deeds deed hold hown
      · rw [List.mem_singleton.mp hnew] at hown ⊢
        rw [hfs]
        exact permitted_inside (h.free _ hhome) hpermitted hown effect
  · exact ⟨htree ▸ hfree tree (.outside tree),hdeeds ▸ h.deeds⟩
  · exact ⟨hfs ▸ h.free,hdeeds ▸ h.deeds⟩

/-- A run in whose workspaces there are no symbolic links at the start, and in which no
other process makes one, also none that the gateway starts. -/
structure LinkFreeRun (g : Gateway Headers Value π) extends TrafficRun g where
  /-- The workspaces have no links at the start. -/
  free : Unlinked g fs.tree
  /-- Others leave no workspace with a link. -/
  kept : ∀ act∈acts, ∀ tree, LeftByOthers act tree → Unlinked g tree

/-- Between any two calls other processes, and those that the gateway starts, may change
anything but the absence of links: by its own calls the gateway then makes and writes files
inside its workspaces only, however the calls of its jobs interleave with each other and
with these changes, and it makes no links. -/
theorem writes_stay_inside (r : LinkFreeRun g) :
    (∀ deed∈r.state.deeds, ¬deed.event.call.StartsProcess →
        SameOutside deed.job.workspace.root deed.before deed.after) ∧
      Unlinked g r.state.fs.tree := by
  have hinside : Accounted g r.db r.acts r.state ∧
      ((∀ act∈r.acts, ∀ tree, LeftByOthers act tree → Unlinked g tree) →
        StaysInside g r.state) := by
    refine history_invariant (I:=fun acts s => Accounted g r.db acts s ∧
      ((∀ act∈acts, ∀ tree, LeftByOthers act tree → Unlinked g tree) → StaysInside g s))
      ⟨accounted_start r.fs r.db,fun _ => ⟨r.free,fun _ h => absurd h List.not_mem_nil⟩⟩ ?_ r.ran
    intro acts s a t _ ⟨haccounted,hinside⟩ hstep
    refine ⟨haccounted.step hstep,fun hkept => ?_⟩
    refine (hinside fun act hact => hkept act (List.mem_append_left _ hact)).step haccounted
      (hkept a (List.mem_append_right _ List.mem_cons_self)) hstep
  exact ⟨(hinside.2 r.kept).deeds,(hinside.2 r.kept).free⟩

end AegisRuntime.GatewayTraffic
