import AegisRuntime.EffectCertainties
import AegisRuntime.SkillPermissions

/-!
# What an agent does to the machine

The agent loop with the registry of skills as its dispatcher. Every attempt of a tool
call is a classified dispatch of a skill: a program of system calls, answered by the
machine as it likes, which runs to its end unless the token or the deadline cuts it
short. The records that the agent leaves are compared with the system calls behind them.
-/

namespace AegisRuntime.AgentEffects

open JsonValues FailureRecords LabelledRuns CallPrograms SystemCalls SkillPrograms SkillPermissions
open WorkspacePaths AgentLoop AgentOutcomes AgentRecords AgentHalts AgentRetries
open EffectCertainties
open GatedDispatch (DispatchEnv)

/-- `attempt_tool` with its system calls: what a whole dispatch would do and return is cut
short after some calls when the token fires or the deadline passes. -/
def attemptSkill (toolTimeout : Option ℕ) (idempotent : Bool) (met : AttemptConditions) (cut : ℕ)
    (whole : List SystemEvent×Except ToolFault String) :
    List SystemEvent×Except ToolFault String :=
  let unknown := if idempotent then EffectCertainty.noEffect else EffectCertainty.uncertain
  if met.cancelledBefore then ([],.error ⟨.cancelled,.noEffect,"cancelled before dispatch"⟩)
  else
    let guarded :=
      if met.cancelledDuring then
        (whole.1.take cut,.error ⟨.cancelled,unknown,"cancelled while running"⟩)
      else whole
    match toolTimeout with
    | some d =>
      if met.overdue then
        (whole.1.take cut,.error ⟨.timeout,unknown,"deadline of "++toString d++" ms exceeded"⟩)
      else guarded
    | none => guarded

/-- An agent whose tools are the skills. -/
structure SkilledAgent {π : Type} (env : DispatchEnv π) (ws : WorkspaceCapability) where
  /-- What the agent meets; its attempts are answered by the skills instead. -/
  met : AgentEnv
  /-- Its engine. -/
  engine : AgentEngine
  /-- What the machine answers to a call after others, by turn, position and attempt. -/
  answers : ℕ → ℕ → ℕ → List SystemEvent → (call : SystemCall) → call.Answer
  /-- How many calls an attempt has made when it is cut short. -/
  cut : ℕ → ℕ → ℕ → ℕ

variable {π : Type} {env : DispatchEnv π} {ws : WorkspaceCapability} {a : SkilledAgent env ws}
  {turn position attempt : ℕ} {name : String} {args : JsonValue} {r : ToolExecutionRecord}

namespace SkilledAgent

/-- What a whole dispatch does and returns. -/
def dispatched (a : SkilledAgent env ws) (turn position attempt : ℕ) (name : String)
    (args : JsonValue) : List SystemEvent×Except ToolFault String :=
  (dispatchClassified env ws name args).record (a.answers turn position attempt) []

/-- What the agent meets when the skills are its dispatcher. -/
def agentEnv (a : SkilledAgent env ws) : AgentEnv := { a.met with
  attempt := fun turn position attempt name args =>
    { a.met.attempt turn position attempt name args with
      answer := (a.dispatched turn position attempt name args).2 } }

/-- What an attempt does and returns. -/
def tried (a : SkilledAgent env ws) (turn position attempt : ℕ) (name : String)
    (args : JsonValue) : List SystemEvent×Except ToolFault String :=
  attemptSkill a.engine.policy.toolTimeout (skillEffectProfile name).idempotent
    (a.met.attempt turn position attempt name args) (a.cut turn position attempt)
    (a.dispatched turn position attempt name args)

/-- The attempts that a call made, the last one included. -/
def made (a : SkilledAgent env ws) (turn position : ℕ) (name : String) (args : JsonValue) : ℕ :=
  attemptsMade (callEnd a.agentEnv a.engine turn position name args)

/-- The system calls of an attempt change nothing. -/
def Quiet (a : SkilledAgent env ws) (turn position attempt : ℕ) (name : String)
    (args : JsonValue) : Prop :=
  ∀ e∈(a.tried turn position attempt name args).1, Observes e.call

/-- The system calls of a tool call, attempt by attempt. -/
def callEvents (a : SkilledAgent env ws) (turn position : ℕ) (r : ToolExecutionRecord) :
    List SystemEvent :=
  (List.range' 1 (a.made turn position r.toolName r.arguments)).flatMap fun attempt =>
    (a.tried turn position attempt r.toolName r.arguments).1

/-- The system calls of a turn, call by call. -/
def stepEvents (a : SkilledAgent env ws) (step : AgentStep) : List SystemEvent :=
  step.toolCalls.zipIdx.flatMap fun call => a.callEvents step.stepIndex call.2 call.1

/-- The system calls of the tool calls of a task, turn by turn. -/
def taskEvents (a : SkilledAgent env ws) (goal : String) (systemOverride : Option String)
    (maxTurns : ℕ) : List SystemEvent :=
  (taskSteps a.agentEnv a.engine goal systemOverride maxTurns).flatMap a.stepEvents

end SkilledAgent

open SkilledAgent

/-- An attempt returns what the agent takes from a dispatcher that answers with what the
whole dispatch returns. -/
theorem attemptSkill_result (toolTimeout : Option ℕ) (idempotent : Bool) (met : AttemptConditions)
    (cut : ℕ) (whole : List SystemEvent×Except ToolFault String) :
    (attemptSkill toolTimeout idempotent met cut whole).2=
      attemptTool toolTimeout idempotent { met with answer := whole.2 } := by
  unfold attemptSkill attemptTool
  cases met.cancelledBefore with
  | true => rfl
  | false =>
    cases toolTimeout with
    | none => cases met.cancelledDuring <;> rfl
    | some d => cases met.overdue <;> cases met.cancelledDuring <;> rfl

/-- An attempt makes no call, or is cut short after some, or is the whole dispatch. -/
theorem attemptSkill_cases (toolTimeout : Option ℕ) (idempotent : Bool) (met : AttemptConditions)
    (cut : ℕ) (whole : List SystemEvent×Except ToolFault String) :
    (attemptSkill toolTimeout idempotent met cut whole).1=[] ∨
      (∃ cls text, attemptSkill toolTimeout idempotent met cut whole=(whole.1.take cut,
        .error ⟨cls,if idempotent then .noEffect else .uncertain,text⟩)) ∨
      attemptSkill toolTimeout idempotent met cut whole=whole := by
  unfold attemptSkill
  cases met.cancelledBefore with
  | true => exact .inl rfl
  | false =>
    refine .inr ?_
    cases toolTimeout with
    | none =>
      cases met.cancelledDuring with
      | true => exact .inl ⟨_,_,rfl⟩
      | false => exact .inr rfl
    | some d =>
      cases met.overdue with
      | true => exact .inl ⟨_,_,rfl⟩
      | false =>
        cases met.cancelledDuring with
        | true => exact .inl ⟨_,_,rfl⟩
        | false => exact .inr rfl

/-- An attempt makes the first calls of the dispatch, or all of them. -/
theorem attemptSkill_prefix (toolTimeout : Option ℕ) (idempotent : Bool) (met : AttemptConditions)
    (cut : ℕ) (whole : List SystemEvent×Except ToolFault String) :
    (attemptSkill toolTimeout idempotent met cut whole).1<+:whole.1 := by
  rcases attemptSkill_cases toolTimeout idempotent met cut whole with hnone|⟨cls,text,hcut⟩|hwhole
  · rw [hnone]
    exact List.nil_prefix
  · rw [hcut]
    exact List.take_prefix _ _
  · rw [hwhole]

/-- A fault without effect comes from a skill that counts as idempotent, from an attempt
that made no calls, or from the whole dispatch. -/
theorem attemptSkill_noEffect {toolTimeout : Option ℕ} {idempotent : Bool}
    {met : AttemptConditions} {cut : ℕ} {whole : List SystemEvent×Except ToolFault String}
    {fault : ToolFault} (h : (attemptSkill toolTimeout idempotent met cut whole).2=.error fault)
    (hcertain : fault.certainty=.noEffect) : idempotent=true ∨
      (attemptSkill toolTimeout idempotent met cut whole).1=[] ∨
      attemptSkill toolTimeout idempotent met cut whole=whole := by
  rcases attemptSkill_cases toolTimeout idempotent met cut whole with hnone|⟨cls,text,hcut⟩|hwhole
  · exact .inr (.inl hnone)
  · cases idempotent with
    | true => exact .inl rfl
    | false =>
      -- A call cut short leaves the effect of such a skill uncertain.
      rw [hcut] at h
      cases h
      cases hcertain
  · exact .inr (.inr hwhole)

/-- An attempt returns what the agent takes from it. -/
theorem tried_result (a : SkilledAgent env ws) (turn position attempt : ℕ) (name : String)
    (args : JsonValue) : (a.tried turn position attempt name args).2=
      attempts a.agentEnv a.engine turn position name args attempt :=
  attemptSkill_result _ _ _ _ _

/-- The calls of an attempt are a run of the dispatch. -/
theorem tried_runs (a : SkilledAgent env ws) (turn position attempt : ℕ) (name : String)
    (args : JsonValue) : ∃ q, runs Program.advance (dispatchClassified env ws name args)
      (a.tried turn position attempt name args).1=some q := by
  obtain ⟨rest,hrest⟩ : (a.tried turn position attempt name args).1<+:
    (a.dispatched turn position attempt name args).1 := attemptSkill_prefix _ _ _ _ _
  have hwhole := runs_record (a.answers turn position attempt) []
    (dispatchClassified env ws name args)
  rw [show ((dispatchClassified env ws name args).record (a.answers turn position attempt) []).1=
    (a.tried turn position attempt name args).1++rest from hrest.symm] at hwhole
  obtain ⟨q,hq,-⟩ := runs_append_iff.mp hwhole
  exact ⟨q,hq⟩

/-- An attempt of a skill that counts as idempotent changes nothing, however it ends. -/
theorem idempotent_quiet (h : (skillEffectProfile name).idempotent=true) :
    a.Quiet turn position attempt name args := by
  obtain ⟨q,hq⟩ := tried_runs a turn position attempt name args
  exact idempotent_observes hq h

/-- An attempt that failed without effect changed nothing. -/
theorem attempt_quiet {fault : ToolFault}
    (h : attempts a.agentEnv a.engine turn position name args attempt=.error fault)
    (hcertain : fault.certainty=.noEffect) : a.Quiet turn position attempt name args := by
  rw [←tried_result] at h
  rcases attemptSkill_noEffect h hcertain with hidempotent|hnone|hwhole
  · exact idempotent_quiet hidempotent
  · intro e he
    rw [tried,hnone] at he
    cases he
  · have hran := runs_record (a.answers turn position attempt) []
      (dispatchClassified env ws name args)
    have hall : a.tried turn position attempt name args=
        (dispatchClassified env ws name args).record (a.answers turn position attempt) [] := hwhole
    rw [←hall,h] at hran
    exact noEffect_observes hran hcertain

/-- What `retry_loop` made of the attempts of a call. -/
theorem call_retries (a : SkilledAgent env ws) (turn position : ℕ) (name : String)
    (args : JsonValue) : ∃ clock, BoundedRetries a.engine.policy.retry
      (skillEffectProfile name).idempotent (attempts a.agentEnv a.engine turn position name args) clock
      (callEnd a.agentEnv a.engine turn position name args) (a.made turn position name args) :=
  ⟨_,retryLoop_bounded _ _ _ _⟩

/-- Every attempt but the last changed nothing. -/
theorem earlier_quiet (hpos : 1 ≤ attempt) (hlt : attempt < a.made turn position name args) :
    a.Quiet turn position attempt name args := by
  obtain ⟨clock,hretries⟩ := call_retries a turn position name args
  obtain ⟨fault,hfailed,-,hcertain,-⟩ := hretries.transient attempt hpos hlt
  exact attempt_quiet hfailed hcertain

/-- A call that ended with a fault without effect changed nothing in any attempt. -/
theorem call_quiet {fault : ToolFault}
    (h : (callEnd a.agentEnv a.engine turn position name args).1=.error fault)
    (hcertain : fault.certainty=.noEffect) (hpos : 1 ≤ attempt)
    (hle : attempt ≤ a.made turn position name args) : a.Quiet turn position attempt name args := by
  rcases Nat.lt_or_eq_of_le hle with hlt|heq
  · exact earlier_quiet hpos hlt
  · obtain ⟨clock,hretries⟩ := call_retries a turn position name args
    have hresult := hretries.result
    rw [h,←heq] at hresult
    exact attempt_quiet hresult.symm hcertain

/-- The records of a call tell the truth about the machine. -/
structure TellsEffects (a : SkilledAgent env ws) (turn position : ℕ) (r : ToolExecutionRecord) :
    Prop where
  /-- Only the last attempt may have changed anything. -/
  once : ∀ attempt, 1 ≤ attempt → attempt < a.made turn position r.toolName r.arguments →
    a.Quiet turn position attempt r.toolName r.arguments
  /-- An attempt with a failure record without effect changed nothing. -/
  records : ∀ f∈callRecords r, f.effectCertainty=.noEffect →
    a.Quiet turn position f.attempt r.toolName r.arguments
  /-- A call whose record leaves no room for an effect changed nothing. -/
  quiet : mayHaveActed r=false → ∀ e∈a.callEvents turn position r, Observes e.call

/-- Every call leaves such records. -/
theorem runCall_effects (a : SkilledAgent env ws) (runId : String) (turn : ℕ) (tc : ToolCallItem)
    (s : CallState) (h : (runCall a.agentEnv a.engine runId turn tc s).records=s.records++[r]) :
    TellsEffects a turn s.records.length r := by
  have htells := runCall_tells h
  obtain ⟨r',hrecords,hreflects⟩ := runCall_records a.agentEnv a.engine runId turn tc s
  rw [h] at hrecords
  obtain ⟨-,⟨⟩⟩ := List.append_inj' hrecords rfl
  refine ⟨fun attempt hpos hlt => earlier_quiet hpos hlt,fun f hf hcertain => ?_,fun hquiet => ?_⟩
  · obtain ⟨fault,hfailed,-,hsame⟩ := (htells.tells f hf).fault
    exact attempt_quiet hfailed (hsame ▸ hcertain)
  · intro e he
    obtain ⟨attempt,hattempt,he⟩ := List.mem_flatMap.mp he
    obtain ⟨hpos,hle⟩ := List.mem_range'_1.mp hattempt
    cases hidempotent : (skillEffectProfile r.toolName).idempotent with
    | true => exact idempotent_quiet hidempotent e he
    | false =>
      obtain ⟨fault,hend,hcertain⟩ := (mayHaveActed_eq_false_iff hreflects).mp hquiet hidempotent
      exact call_quiet hend hcertain hpos (by omega) e he

/-- In a task, all calls leave such records, also when the model fails on the way. -/
theorem taskSteps_effects (a : SkilledAgent env ws) (goal : String)
    (systemOverride : Option String) (maxTurns : ℕ) :
    ∀ step∈taskSteps a.agentEnv a.engine goal systemOverride maxTurns, ∀ position r,
      step.toolCalls[position]?=some r → TellsEffects a step.stepIndex position r :=
  agentLoop_atEach (P:=TellsEffects a)
    (fun turn tc s _ h => runCall_effects a (runIdOf a.agentEnv a.engine) turn tc s h) maxTurns 1
    (startOf a.agentEnv goal systemOverride) fun _ h => absurd h List.not_mem_nil

/-- What an agent tells of its effects is true of the machine, whatever the model asks
for, the machine answers and the token and the deadline cut short. A tool call changes
something in its last attempt at most; an attempt whose failure is recorded without
effect changed nothing, nor did a call whose record leaves no room for an effect. When
the outcome of the task claims no effect, no system call of its tool calls changed
anything, unless the last call that is not answered was refused and another may have
acted. -/
theorem effects_told (a : SkilledAgent env ws) (goal : String) (systemOverride : Option String)
    (maxTurns : ℕ) :
    (∀ step∈taskSteps a.agentEnv a.engine goal systemOverride maxTurns, ∀ position r,
        step.toolCalls[position]?=some r → TellsEffects a step.stepIndex position r) ∧
      ∀ result, (executeTask a.agentEnv a.engine goal systemOverride maxTurns).1=.ok result →
        claimsNoEffect (agentOutcome result)=true →
        ¬RefusedLast a.agentEnv a.engine
          (taskAsked a.agentEnv a.engine goal systemOverride maxTurns) →
        ∀ e∈a.taskEvents goal systemOverride maxTurns, Observes e.call := by
  have htells := taskSteps_effects a goal systemOverride maxTurns
  refine ⟨htells,fun result hran hclaims hlast e he => ?_⟩
  obtain ⟨step,hstep,he⟩ := List.mem_flatMap.mp he
  obtain ⟨⟨r,position⟩,hcall,he⟩ := List.mem_flatMap.mp he
  have hget : step.toolCalls[position]?=some r := List.mem_zipIdx_iff_getElem?.mp hcall
  refine (htells step hstep position r hget).quiet ?_ e he
  obtain ⟨s,hloop,hsteps,-⟩ := executeTask_ok hran
  have hmem : r∈allCalls result := by
    rw [taskSteps,hloop,←hsteps] at hstep
    exact List.mem_flatMap.mpr ⟨step,hstep,List.mem_of_getElem? hget⟩
  by_contra hacted
  have hmasked := masksEffect_iff.mpr ⟨hclaims,r,hmem,by simpa using hacted⟩
  exact hlast ((masksEffect_asked ⟨_,_,goal,systemOverride,maxTurns,result,hran⟩).mp hmasked)

/-- A machine on which nothing is found and nothing can be done. -/
def denied : (call : SystemCall) → call.Answer
  | .pathExists _ | .isDir _ => false
  | .canonicalize _ | .mkdir _ _ | .write _ _ | .readToString _ | .readDir _ | .spawn _ _ _ =>
    .error ⟨true,"No such file or directory (os error 2)"⟩

/-- Gates that let every skill pass that is listed. -/
def passing : DispatchEnv Unit :=
  ⟨⟨(),(),(),fun _ _ => false,fun _ => true,fun _ => none,fun _ => ""⟩,id,
    fun _ => .ok ⟨none,some "workspace"⟩,none⟩

/-- An agent that is asked to read a file, on such a machine. -/
def readingAgent : SkilledAgent passing ⟨["ws"]⟩ where
  met := {
    parseJson := fun _ => some (.object [("path",.string "a")])
    sha256Hex := fun _ => ""
    infer := fun _ _ => .ok ⟨none,none,some [⟨"call","read_file","\x7b\"path\":\"a\"\x7d"⟩]⟩
    attempt := fun _ _ _ _ _ => ⟨0,0,false,false,false,.ok ""⟩
    home := none
    user := none
    freshRunId := "run"
    durationMs := 0 }
  engine := {}
  answers _ _ _ _ := denied
  cut _ _ _ := 0

/-- Its task looks for the file and does nothing else. -/
theorem effects_told_reading :
    readingAgent.taskEvents "goal" (some "system") 1=
        [⟨.pathExists [.rootDir,.normal "ws",.normal "a"],false⟩] ∧
      ∀ e∈readingAgent.taskEvents "goal" (some "system") 1, Observes e.call := by
  refine ⟨rfl,(effects_told readingAgent "goal" (some "system") 1).2 _ rfl rfl ?_⟩
  rintro ⟨-,c,hc,hacts,-⟩
  have hasked : taskAsked readingAgent.agentEnv readingAgent.engine "goal" (some "system") 1=
      [⟨1,0,"call","read_file",.object [("path",.string "a")]⟩] := rfl
  rw [hasked,List.mem_singleton] at hc
  rw [hc] at hacts
  cases hacts

end AegisRuntime.AgentEffects
