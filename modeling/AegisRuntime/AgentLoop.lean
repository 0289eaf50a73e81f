import AegisRuntime.FailureRecords

/-!
# The agent loop

`AgentEngine::execute_task` with its bounded retries: turn after turn the model
is asked, its tool calls are dispatched in order, and every call leaves a record.
The model, the dispatcher with the races around it, the clock and the JSON parser
come from outside and are the fields of an environment. What the database keeps
of a finished task is outside this module.
-/

namespace AegisRuntime.AgentLoop

open TextScanning JsonValues FailureRecords

/-- Token budget of the context window. -/
def DEFAULT_MAX_CONTEXT_TOKENS : ℕ := 8192

/-- A tool call that the model asks for. -/
structure ToolCallItem where
  /-- Identifier of the call. -/
  id : String
  /-- Name of the tool. -/
  name : String
  /-- The arguments as text. -/
  arguments : String
  deriving DecidableEq,Repr

/-- One answer of the model. -/
structure ChatTurnResponse where
  /-- Text of the answer. -/
  content : Option String
  /-- Reasoning of the model. -/
  reasoning : Option String
  /-- Tool calls, if any. -/
  toolCalls : Option (List ToolCallItem)

/-- The record of one tool call. -/
structure ToolExecutionRecord where
  /-- Identifier of the call. -/
  callId : String
  /-- Name of the tool. -/
  toolName : String
  /-- The parsed arguments. -/
  arguments : JsonValue
  /-- The output, or the redacted error text. -/
  output : String
  /-- Whether the call succeeded. -/
  success : Bool
  /-- Terminal failure provenance, absent on success. -/
  failure : Option FailureRecord
  /-- Earlier failed attempts of the same call, oldest first. -/
  retryFailures : List FailureRecord

/-- Failure handling knobs. -/
structure FailurePolicy where
  /-- The retry policy. -/
  retry : RetryPolicy := {}
  /-- The deadline of one attempt in milliseconds. -/
  toolTimeout : Option ℕ := none

/-- One turn of the agent. -/
structure AgentStep where
  /-- Number of the turn, from one. -/
  stepIndex : ℕ
  /-- Reasoning of the model. -/
  thought : Option String
  /-- The records of its tool calls, in order. -/
  toolCalls : List ToolExecutionRecord

/-- What a task leaves. -/
structure AgentExecutionResult where
  /-- The final text. -/
  finalResponse : String
  /-- The turns, in order. -/
  steps : List AgentStep
  /-- How many turns were taken. -/
  turnsTaken : ℕ
  /-- How long the task took. -/
  durationMs : ℕ
  /-- Whether the model gave a final answer. -/
  completed : Bool

/-- A published `StepFailed` event. -/
structure StepFailedEvent where
  /-- The failure of one attempt. -/
  failure : FailureRecord
  /-- The session of the bus. -/
  sessionId : Option String
  /-- The run. -/
  runId : String
  /-- The failure number. -/
  sequence : ℕ

/-- The configuration of an engine. -/
structure AgentEngine where
  /-- Failure handling. -/
  policy : FailurePolicy := {}
  /-- An attached bus with its session, if any. -/
  events : Option (Option String) := none
  /-- A fixed run identifier, if any. -/
  runId : Option String := none

/-- What one attempt meets. -/
structure AttemptConditions where
  /-- When the attempt is scheduled. -/
  createdAt : ℤ
  /-- When its failure is noted. -/
  failedAt : ℤ
  /-- The token has fired before the dispatch. -/
  cancelledBefore : Bool
  /-- A deadline passes before the answer and before the token fires. -/
  overdue : Bool
  /-- The token fires before the answer. -/
  cancelledDuring : Bool
  /-- The answer of the dispatcher. -/
  answer : Except ToolFault String

/-- What the agent meets from outside. -/
structure AgentEnv where
  /-- Parses an argument text. -/
  parseJson : String → Option JsonValue
  /-- Digest of a compact JSON form. -/
  sha256Hex : JsonValue → String
  /-- The model's answer in a turn to the messages so far. -/
  infer : ℕ → List JsonValue → Except String ChatTurnResponse
  /-- What an attempt meets, by turn, position of the call, attempt number, tool
  and arguments. -/
  attempt : ℕ → ℕ → ℕ → String → JsonValue → AttemptConditions
  /-- The variable `HOME`, if set. -/
  home : Option String
  /-- The variable `USER`, if set. -/
  user : Option String
  /-- A fresh run identifier. -/
  freshRunId : String
  /-- How long the task takes. -/
  durationMs : ℕ

/-- One failed attempt with its own timing. -/
structure AttemptFailure where
  /-- Number of the attempt, from one. -/
  attempt : ℕ
  /-- The fault. -/
  fault : ToolFault
  /-- When the attempt was scheduled. -/
  createdAt : ℤ
  /-- When it failed. -/
  failedAt : ℤ

/-- One fresh dispatch with cancellation and deadline applied. A cancel or a
timeout of a call that is not idempotent leaves the effect uncertain. -/
def attemptTool (toolTimeout : Option ℕ) (idempotent : Bool) (met : AttemptConditions) :
    Except ToolFault String :=
  let unknown := if idempotent then EffectCertainty.noEffect else EffectCertainty.uncertain
  if met.cancelledBefore then .error ⟨.cancelled,.noEffect,"cancelled before dispatch"⟩
  else
    let guarded :=
      if met.cancelledDuring then .error ⟨.cancelled,unknown,"cancelled while running"⟩
      else met.answer
    match toolTimeout with
    | some d =>
      if met.overdue then
        .error ⟨.timeout,unknown,"deadline of "++toString d++" ms exceeded"⟩
      else guarded
    | none => guarded

/-- Whether `retry_loop` makes another attempt after a fault. -/
def triesAgain (policy : RetryPolicy) (idempotent : Bool) (fault : ToolFault) (attempt : ℕ) :
    Bool :=
  match retryEligibility fault.cls fault.certainty idempotent policy with
  | .retryable maxAttempts => decide (attempt < maxAttempts)
  | .notRetryable => false

/-- The loop of `retry_loop` from an attempt on. The fuel bounds the retries; at
least `MAX_ATTEMPTS_CEILING` of it is never used up. -/
def retryFrom (policy : RetryPolicy) (idempotent : Bool) (attemptFn : ℕ → Except ToolFault String)
    (clock : ℕ → ℤ×ℤ) :
    ℕ → ℕ → List AttemptFailure → Except ToolFault String×List AttemptFailure
  | 0,attempt,failures =>
    match attemptFn attempt with
    | .ok v => (.ok v,failures)
    | .error fault =>
      (.error fault,failures++[⟨attempt,fault,(clock attempt).1,(clock attempt).2⟩])
  | fuel+1,attempt,failures =>
    match attemptFn attempt with
    | .ok v => (.ok v,failures)
    | .error fault =>
      let failed := failures++[⟨attempt,fault,(clock attempt).1,(clock attempt).2⟩]
      if triesAgain policy idempotent fault attempt then
        retryFrom policy idempotent attemptFn clock fuel (attempt+1) failed
      else (.error fault,failed)

/-- Bounded retries of one call: its end and every failed attempt in order. -/
def retryLoop (policy : RetryPolicy) (idempotent : Bool) (attemptFn : ℕ → Except ToolFault String)
    (clock : ℕ → ℤ×ℤ) : Except ToolFault String×List AttemptFailure :=
  retryFrom policy idempotent attemptFn clock MAX_ATTEMPTS_CEILING 1 []

/-- How a call ends: its result after retries and its failed attempts. -/
def callEnd (env : AgentEnv) (engine : AgentEngine) (turn position : ℕ) (name : String)
    (args : JsonValue) : Except ToolFault String×List AttemptFailure :=
  let idempotent := (skillEffectProfile name).idempotent
  retryLoop engine.policy.retry idempotent
    (fun attempt => attemptTool engine.policy.toolTimeout idempotent
      (env.attempt turn position attempt name args))
    (fun attempt => ((env.attempt turn position attempt name args).createdAt,
      (env.attempt turn position attempt name args).failedAt))

/-- Estimated tokens of one text. -/
def textTokens (text : String) : ℕ := ((words isWhitespace text.toList).length*4)/3+4

/-- Estimated tokens of one message: its content and its tool calls. -/
def messageTokens (m : JsonValue) : ℕ :=
  let content := match (m.get "content").bind JsonValue.asStr with
    | some text => textTokens text
    | none => 0
  match (m.get "tool_calls").bind JsonValue.asArray with
  | some calls => calls.foldl (fun count call => count+textTokens call.compact) content
  | none => content

/-- Estimated tokens of the messages. -/
def estimateTokens (messages : List JsonValue) : ℕ :=
  messages.foldl (fun count m => count+messageTokens m) 0

/-- The loop of `prune_context_window`: drops the oldest messages after the first
two while the estimate is over the budget. The flag tells whether it dropped one. -/
def pruneTail (system goal : JsonValue) (tokenBudget : ℕ) :
    List JsonValue → Bool → List JsonValue×Bool
  | [],pruned => ([],pruned)
  | m::rest,pruned =>
    if tokenBudget < estimateTokens (system::goal::m::rest) then
      pruneTail system goal tokenBudget rest true
    else (m::rest,pruned)

/-- Trims the context window; the system prompt and the goal stay. The flag tells
whether a message was dropped. -/
def pruneContextWindow (messages : List JsonValue) (tokenBudget : ℕ) : List JsonValue×Bool :=
  match messages with
  | system::goal::rest =>
    let kept := pruneTail system goal tokenBudget rest false
    (system::goal::kept.1,kept.2)
  | _ => (messages,false)

/-- The system prompt without an override. -/
def defaultSystem (user home : String) : String :=
  "You are AIEN, a sovereign native AI systems agent running on NVIDIA DGX Spark (Grace "++
  "Blackwell GB10) as user "++user++". Active workspaces reside strictly in "++home++
  "/workspace/ (aegis-runtime, aien-harness-publish, etc.) and "++home++
  "/atlas-prime-workspace/. Default working directory is "++home++
  "/workspace. You have native tools available to run a catalogued local command (bash_eval: "++
  "git status, git diff, git log -1 --oneline, or ls), inspect files (read_file, list_dir, "++
  "git_status), and modify files (write_file). Memory search is not connected. Do not claim "++
  "that it is. Never run broad root filesystem scans or find /. Invoke tools directly on "++
  "specific workspace targets. Adhere strictly to the unslop standard: zero em dashes and zero "++
  "en dashes, no transitional fluff, and direct technical proof. When finished, provide a "++
  "concise final summary."

/-- The record of one failed attempt, with the redacted fault text as its cause. -/
def stampFailure (env : AgentEnv) (runId : String) (turn : ℕ) (tc : ToolCallItem)
    (args : JsonValue) (parent : Option String) (sequence : ℕ) (a : AttemptFailure) :
    FailureRecord :=
  (FailureRecord.new sequence runId turn tc.id parent tc.name a.attempt a.fault.cls
    a.fault.certainty a.createdAt a.failedAt).pushCause env.sha256Hex "tool_dispatch"
      (redactPayloadEchoes a.fault.message args) (some args)

/-- The records of the failed attempts of one call, numbered on from the failures
before. -/
def stampFailures (env : AgentEnv) (runId : String) (turn : ℕ) (tc : ToolCallItem)
    (args : JsonValue) (parent : Option String) : ℕ → List AttemptFailure → List FailureRecord
  | _,[] => []
  | failureSeq,a::rest =>
    stampFailure env runId turn tc args parent (failureSeq+1) a::
      stampFailures env runId turn tc args parent (failureSeq+1) rest

/-- The variables of the loop over the calls of one turn. -/
structure CallState where
  /-- The messages to the model. -/
  messages : List JsonValue
  /-- The records of this turn so far. -/
  records : List ToolExecutionRecord
  /-- Number of the last failure. -/
  failureSeq : ℕ
  /-- The call before, when it failed. -/
  lastFailedCall : Option String
  /-- Why the run has to stop, if it has. -/
  halted : Option String
  /-- The published events. -/
  published : List StepFailedEvent

/-- Parses the arguments of a call; a text that is not JSON is wrapped. -/
def callArguments (env : AgentEnv) (tc : ToolCallItem) : JsonValue :=
  (env.parseJson tc.arguments).getD (.object [("raw",.string tc.arguments)])

/-- Why a failed call stops the run, if it does. -/
def haltReason (callId : String) : FailureClass → Option String
  | .approvalPending => some ("Halted: tool call "++callId++
      " is waiting for approval and will not be replayed automatically.")
  | .cancelled => some ("Run cancelled during tool call "++callId++".")
  | _ => none

/-- One tool call of a turn. -/
def runCall (env : AgentEnv) (engine : AgentEngine) (runId : String) (turn : ℕ)
    (tc : ToolCallItem) (s : CallState) : CallState :=
  let args := callArguments env tc
  let ended := callEnd env engine turn s.records.length tc.name args
  let stamped := stampFailures env runId turn tc args s.lastFailedCall s.failureSeq ended.2
  let published := match engine.events with
    | some sessionId => stamped.map fun f => ⟨f,sessionId,runId,f.sequence⟩
    | none => []
  let output := match ended.1 with
    | .ok out => out
    | .error fault => redactPayloadEchoes fault.message args
  let record : ToolExecutionRecord := match ended.1 with
    | .ok _ => ⟨tc.id,tc.name,args,output,true,none,stamped⟩
    | .error _ => ⟨tc.id,tc.name,args,output,false,stamped.getLast?,stamped.dropLast⟩
  { messages := s.messages++[.object [("content",.string output),("role",.string "tool"),
      ("tool_call_id",.string tc.id)]]
    records := s.records++[record]
    failureSeq := s.failureSeq+stamped.length
    lastFailedCall := match ended.1 with
      | .ok _ => none
      | .error _ => some tc.id
    halted := match ended.1 with
      | .ok _ => s.halted
      | .error fault => (haltReason tc.id fault.cls).or s.halted
    published := s.published++published }

/-- The loop over the calls of one turn; it stops at a halt. -/
def runCalls (env : AgentEnv) (engine : AgentEngine) (runId : String) (turn : ℕ) :
    List ToolCallItem → CallState → CallState
  | [],s => s
  | tc::rest,s =>
    let next := runCall env engine runId turn tc s
    if next.halted.isSome then next else runCalls env engine runId turn rest next

/-- The variables of the loop over the turns. -/
structure AgentState where
  /-- The messages to the model. -/
  messages : List JsonValue
  /-- The turns so far. -/
  steps : List AgentStep
  /-- The final text. -/
  finalResponse : String
  /-- How many turns were taken. -/
  turnsTaken : ℕ
  /-- Whether the model gave a final answer. -/
  completed : Bool
  /-- Number of the last failure. -/
  failureSeq : ℕ
  /-- The call before, when it failed. -/
  lastFailedCall : Option String
  /-- The published events. -/
  published : List StepFailedEvent

/-- The message that repeats the model's tool calls. -/
def assistantMessage (content : Option String) (calls : List ToolCallItem) : JsonValue :=
  .object [("content",.string (content.getD "")),("role",.string "assistant"),
    ("tool_calls",.array (calls.map fun tc => .object
      [("function",.object [("arguments",.string tc.arguments),("name",.string tc.name)]),
        ("id",.string tc.id),("type",.string "function")]))]

/-- The final text of an answer without tool calls. -/
def finalText (content reasoning : Option String) : String :=
  let text := content.getD ""
  if !(trim text.toList).isEmpty then text
  else reasoning.getD "Task processed with zero textual output."

/-- A turn with tool calls: the state after it and the reason of a halt. -/
def toolTurn (env : AgentEnv) (engine : AgentEngine) (runId : String) (turn : ℕ)
    (res : ChatTurnResponse) (calls : List ToolCallItem) (s : AgentState) :
    AgentState×Option String :=
  let done := runCalls env engine runId turn calls
    ⟨s.messages++[assistantMessage res.content calls],[],s.failureSeq,s.lastFailedCall,none,
      s.published⟩
  ({ s with
      messages := done.messages
      steps := s.steps++[⟨turn,res.reasoning,done.records⟩]
      failureSeq := done.failureSeq
      lastFailedCall := done.lastFailedCall
      published := done.published },done.halted)

/-- The loop over the turns: how many are left, and the number of the next. -/
def agentLoop (env : AgentEnv) (engine : AgentEngine) (runId : String) :
    ℕ → ℕ → AgentState → Except String Unit×AgentState
  | 0,_,s => (.ok (),s)
  | left+1,turn,s =>
    let begun := { s with
      turnsTaken := turn
      messages := (pruneContextWindow s.messages DEFAULT_MAX_CONTEXT_TOKENS).1 }
    match env.infer turn begun.messages with
    | .error e => (.error e,begun)
    | .ok res =>
      match res.toolCalls.getD [] with
      | [] => (.ok (),{ begun with
          finalResponse := finalText res.content res.reasoning
          steps := begun.steps++[⟨turn,res.reasoning,[]⟩]
          completed := true })
      | tc::rest =>
        let after := toolTurn env engine runId turn res (tc::rest) begun
        match after.2 with
        | some reason => (.ok (),{ after.1 with finalResponse := reason })
        | none => agentLoop env engine runId left (turn+1) after.1

/-- The state before the first turn. -/
def AgentState.initial (system goal : String) : AgentState where
  messages := [.object [("content",.string system),("role",.string "system")],
    .object [("content",.string goal),("role",.string "user")]]
  steps := []
  finalResponse := ""
  turnsTaken := 0
  completed := false
  failureSeq := 0
  lastFailedCall := none
  published := []

/-- Runs one task and returns its result with the published events. -/
def executeTask (env : AgentEnv) (engine : AgentEngine) (goal : String)
    (systemOverride : Option String) (maxTurns : ℕ) :
    Except String AgentExecutionResult×List StepFailedEvent :=
  let system := systemOverride.getD
    (defaultSystem (env.user.getD "sovereign") (env.home.getD "."))
  let runId := engine.runId.getD env.freshRunId
  match agentLoop env engine runId maxTurns 1 (.initial system goal) with
  | (.error e,s) => (.error e,s.published)
  | (.ok (),s) =>
    let finalResponse :=
      if !s.completed && s.finalResponse.isEmpty then
        "Agent reached maximum turn limit ("++toString maxTurns++
          ") before producing terminal output."
      else s.finalResponse
    (.ok ⟨finalResponse,s.steps,s.turnsTaken,env.durationMs,s.completed⟩,s.published)

variable {policy : RetryPolicy} {idempotent : Bool} {attemptFn : ℕ → Except ToolFault String}
  {clock : ℕ → ℤ×ℤ} {env : AgentEnv} {engine : AgentEngine} {runId : String} {turn : ℕ}
  {tc : ToolCallItem} {s : CallState}

/-- Only an attempt below the ceiling is retried. -/
theorem attempt_lt_of_triesAgain {fault : ToolFault} {attempt : ℕ}
    (h : triesAgain policy idempotent fault attempt=true) : attempt < MAX_ATTEMPTS_CEILING := by
  unfold triesAgain at h
  split at h
  · next maxAttempts he =>
    have hlt : attempt < maxAttempts := of_decide_eq_true h
    unfold retryEligibility at he
    simp only [] at he
    split at he
    · cases he
      have hmin := Nat.min_le_right policy.maxAttempts MAX_ATTEMPTS_CEILING
      omega
    · cases he
  · cases h

/-- The fuel of the retry loop is not used up: more of it changes nothing. -/
theorem retryFrom_fuel (fuel attempt : ℕ) (failures : List AttemptFailure)
    (hfuel : MAX_ATTEMPTS_CEILING ≤ attempt+fuel) :
    retryFrom policy idempotent attemptFn clock (fuel+1) attempt failures=
      retryFrom policy idempotent attemptFn clock fuel attempt failures := by
  induction fuel generalizing attempt failures with
  | zero =>
    rw [retryFrom,retryFrom]
    cases attemptFn attempt with
    | ok v => rfl
    | error fault =>
      have hstop : triesAgain policy idempotent fault attempt=false := by
        by_contra hagain
        have hbelow := attempt_lt_of_triesAgain (Bool.not_eq_false _ ▸ hagain)
        omega
      simp only [hstop,Bool.false_eq_true,if_false]
  | succ fuel ih =>
    rw [retryFrom,retryFrom.eq_2]
    cases attemptFn attempt with
    | ok v => rfl
    | error fault => simp only [ih (attempt+1) _ (by omega)]

/-- A call that ends in a fault has that fault as its last failed attempt. -/
theorem retryFrom_error (fuel attempt : ℕ) (failures : List AttemptFailure) {fault : ToolFault}
    (h : (retryFrom policy idempotent attemptFn clock fuel attempt failures).1=.error fault) :
    ∃ before a, (retryFrom policy idempotent attemptFn clock fuel attempt failures).2=
      before++[a] ∧ a.fault=fault := by
  induction fuel generalizing attempt failures with
  | zero =>
    rw [retryFrom] at h ⊢
    cases hr : attemptFn attempt with
    | ok v =>
      rw [hr] at h
      cases h
    | error g =>
      rw [hr] at h
      exact ⟨failures,_,rfl,Except.error.inj h⟩
  | succ fuel ih =>
    rw [retryFrom] at h ⊢
    cases hr : attemptFn attempt with
    | ok v =>
      rw [hr] at h
      cases h
    | error g =>
      rw [hr] at h
      simp only [] at h ⊢
      by_cases hagain : triesAgain policy idempotent g attempt=true
      · rw [if_pos hagain] at h ⊢
        exact ih (attempt+1) _ h
      · rw [if_neg hagain] at h ⊢
        exact ⟨failures,_,rfl,Except.error.inj h⟩

theorem callEnd_error {position : ℕ} {name : String} {args : JsonValue} {fault : ToolFault}
    (h : (callEnd env engine turn position name args).1=.error fault) :
    ∃ before a, (callEnd env engine turn position name args).2=before++[a] ∧ a.fault=fault :=
  retryFrom_error MAX_ATTEMPTS_CEILING 1 [] h

/-- The last record is the one of the last failed attempt. -/
theorem stampFailures_concat {args : JsonValue} {parent : Option String} (failureSeq : ℕ)
    (before : List AttemptFailure) (a : AttemptFailure) :
    stampFailures env runId turn tc args parent failureSeq (before++[a])=
      stampFailures env runId turn tc args parent failureSeq before++
        [stampFailure env runId turn tc args parent (failureSeq+before.length+1) a] := by
  induction before generalizing failureSeq with
  | nil => rfl
  | cons b before ih =>
    have hseq : failureSeq+1+before.length=failureSeq+(b::before).length := by
      rw [List.length_cons]
      omega
    rw [List.cons_append,stampFailures,ih,hseq]
    rfl

/-- A stamped record tells the class and the certainty of its fault. -/
theorem stampFailure_fields (env : AgentEnv) (runId : String) (turn : ℕ) (tc : ToolCallItem)
    (args : JsonValue) (parent : Option String) (sequence : ℕ) (a : AttemptFailure) :
    (stampFailure env runId turn tc args parent sequence a).cls=a.fault.cls ∧
      (stampFailure env runId turn tc args parent sequence a).effectCertainty=
        a.fault.certainty := by
  obtain ⟨-,-,hcls,hcertainty⟩ := FailureRecord.pushCause_fields env.sha256Hex
    (FailureRecord.new sequence runId turn tc.id parent tc.name a.attempt a.fault.cls
      a.fault.certainty a.createdAt a.failedAt) "tool_dispatch"
    (redactPayloadEchoes a.fault.message args) (some args)
  exact ⟨hcls,hcertainty⟩

/-- A record tells how its call ended. -/
def Reflects (ended : Except ToolFault String) (r : ToolExecutionRecord) : Prop :=
  match ended with
  | .ok _ => r.success=true ∧ r.failure=none
  | .error fault => r.success=false ∧
    ∃ f, r.failure=some f ∧ f.cls=fault.cls ∧ f.effectCertainty=fault.certainty

/-- Every record of a turn tells how the call at its position ended. -/
def ReflectsAll (env : AgentEnv) (engine : AgentEngine) (turn : ℕ)
    (records : List ToolExecutionRecord) : Prop :=
  ∀ position r, records[position]?=some r →
    Reflects (callEnd env engine turn position r.toolName r.arguments).1 r

/-- A call adds one record, and it tells how the call ended. -/
theorem runCall_records (env : AgentEnv) (engine : AgentEngine) (runId : String) (turn : ℕ)
    (tc : ToolCallItem) (s : CallState) : ∃ r,
    (runCall env engine runId turn tc s).records=s.records++[r] ∧
    Reflects (callEnd env engine turn s.records.length r.toolName r.arguments).1 r := by
  refine ⟨_,rfl,?_⟩
  cases hend : (callEnd env engine turn s.records.length tc.name (callArguments env tc)).1 with
  | ok out =>
    simp only []
    rw [hend]
    exact ⟨rfl,rfl⟩
  | error fault =>
    obtain ⟨before,a,hfailed,hfault⟩ := callEnd_error hend
    simp only []
    rw [hend,hfailed,stampFailures_concat,List.getLast?_concat]
    refine ⟨rfl,_,rfl,?_,?_⟩
    · rw [←hfault]
      exact (stampFailure_fields env runId turn tc _ _ _ a).1
    · rw [←hfault]
      exact (stampFailure_fields env runId turn tc _ _ _ a).2

/-- Every record of a turn has a property of its position. -/
def AtEach (P : ℕ → ToolExecutionRecord → Prop) (records : List ToolExecutionRecord) : Prop :=
  ∀ position r, records[position]?=some r → P position r

theorem AtEach.nil (P : ℕ → ToolExecutionRecord → Prop) : AtEach P [] := by
  intro position r hget
  cases hget

/-- One more record with the property at its position keeps it of all. -/
theorem AtEach.concat {P : ℕ → ToolExecutionRecord → Prop} {records : List ToolExecutionRecord}
    {r : ToolExecutionRecord} (h : AtEach P records) (hr : P records.length r) :
    AtEach P (records++[r]) := by
  intro position r' hget
  rw [List.getElem?_append] at hget
  split at hget
  · exact h position r' hget
  · next hle =>
    have hsingle : position-records.length=0 := by
      by_contra hne
      have hnone : [r][position-records.length]?=none := List.getElem?_eq_none (by
        rw [List.length_singleton]
        omega)
      rw [hnone] at hget
      cases hget
    rw [hsingle] at hget
    have hlast : position=records.length := by omega
    cases hget
    rw [hlast]
    exact hr

/-- A property that every call gives its record in every turn. -/
def HoldsOfCalls (env : AgentEnv) (engine : AgentEngine) (runId : String)
    (P : ℕ → ℕ → ToolExecutionRecord → Prop) : Prop :=
  ∀ turn tc s r, (runCall env engine runId turn tc s).records=s.records++[r] →
    P turn s.records.length r

variable {P : ℕ → ℕ → ToolExecutionRecord → Prop}

theorem runCalls_atEach (hcall : HoldsOfCalls env engine runId P) (turn : ℕ)
    (calls : List ToolCallItem) (s : CallState) (h : AtEach (P turn) s.records) :
    AtEach (P turn) (runCalls env engine runId turn calls s).records := by
  induction calls generalizing s with
  | nil => exact h
  | cons tc rest ih =>
    obtain ⟨r,hrecords,-⟩ := runCall_records env engine runId turn tc s
    have hnext : AtEach (P turn) (runCall env engine runId turn tc s).records := by
      rw [hrecords]
      exact h.concat (hcall turn tc s r hrecords)
    rw [runCalls]
    split
    · exact hnext
    · exact ih _ hnext

/-- A turn with tool calls adds one step, and its records have the property. -/
theorem toolTurn_atEach (hcall : HoldsOfCalls env engine runId P) {res : ChatTurnResponse}
    {calls : List ToolCallItem} {s : AgentState}
    (h : ∀ step∈s.steps, AtEach (P step.stepIndex) step.toolCalls) :
    ∀ step∈(toolTurn env engine runId turn res calls s).1.steps,
      AtEach (P step.stepIndex) step.toolCalls := by
  intro step hstep
  rcases List.mem_append.mp hstep with hold|hnew
  · exact h step hold
  · rw [List.mem_singleton.mp hnew]
    exact runCalls_atEach hcall turn calls _ (AtEach.nil _)

/-- In every turn of the agent, the records have the property. -/
theorem agentLoop_atEach (hcall : HoldsOfCalls env engine runId P) (left turn : ℕ)
    (s : AgentState) (h : ∀ step∈s.steps, AtEach (P step.stepIndex) step.toolCalls) :
    ∀ step∈(agentLoop env engine runId left turn s).2.steps,
      AtEach (P step.stepIndex) step.toolCalls := by
  induction left generalizing turn s with
  | zero => exact h
  | succ left ih =>
    rw [agentLoop]
    simp only []
    split
    · exact h
    · next res hres =>
      split
      · intro step hstep
        rcases List.mem_append.mp hstep with hold|hnew
        · exact h step hold
        · rw [List.mem_singleton.mp hnew]
          exact AtEach.nil _
      · next tc rest hcalls =>
        split
        · exact toolTurn_atEach hcall h
        · exact ih (turn+1) _ (toolTurn_atEach hcall h)

/-- The state in which the turns of a task begin. -/
def startOf (env : AgentEnv) (goal : String) (systemOverride : Option String) : AgentState :=
  .initial (systemOverride.getD (defaultSystem (env.user.getD "sovereign") (env.home.getD "."))) goal

/-- The identifier of a run. -/
def runIdOf (env : AgentEnv) (engine : AgentEngine) : String := engine.runId.getD env.freshRunId

/-- A task whose turns end well returns a result read off the last state. -/
theorem executeTask_of_loop {goal : String} {systemOverride : Option String} {maxTurns : ℕ}
    {s : AgentState} (h : agentLoop env engine (runIdOf env engine) maxTurns 1
      (startOf env goal systemOverride)=(.ok (),s)) :
    ∃ result, (executeTask env engine goal systemOverride maxTurns).1=.ok result ∧
      result.steps=s.steps ∧ result.completed=s.completed ∧
      (executeTask env engine goal systemOverride maxTurns).2=s.published := by
  have hrun : agentLoop env engine (engine.runId.getD env.freshRunId) maxTurns 1 (.initial
      (systemOverride.getD (defaultSystem (env.user.getD "sovereign") (env.home.getD "."))) goal)=
      (.ok (),s) := h
  rw [executeTask,hrun]
  exact ⟨_,rfl,rfl,rfl,rfl⟩

/-- A task that returns a result has left the loop over its turns well, and the
result is read off the state there. -/
theorem executeTask_ok {goal : String} {systemOverride : Option String} {maxTurns : ℕ}
    {result : AgentExecutionResult}
    (h : (executeTask env engine goal systemOverride maxTurns).1=.ok result) :
    ∃ s, agentLoop env engine (runIdOf env engine) maxTurns 1 (startOf env goal systemOverride)=
        (.ok (),s) ∧ result.steps=s.steps ∧ result.completed=s.completed ∧
      (executeTask env engine goal systemOverride maxTurns).2=s.published := by
  cases hloop : agentLoop env engine (runIdOf env engine) maxTurns 1
      (startOf env goal systemOverride) with
  | mk ended s =>
    cases ended with
    | error e =>
      have hrun : agentLoop env engine (engine.runId.getD env.freshRunId) maxTurns 1 (.initial
          (systemOverride.getD (defaultSystem (env.user.getD "sovereign") (env.home.getD ".")))
          goal)=(.error e,s) := hloop
      rw [executeTask,hrun] at h
      cases h
    | ok u =>
      obtain ⟨result',hresult,hrest⟩ := executeTask_of_loop hloop
      rw [hresult] at h
      cases h
      exact ⟨s,rfl,hrest⟩

/-- In the result of a task, the records have the property. -/
theorem executeTask_atEach (hcall : HoldsOfCalls env engine (runIdOf env engine) P) {goal : String}
    {systemOverride : Option String} {maxTurns : ℕ} {result : AgentExecutionResult}
    (h : (executeTask env engine goal systemOverride maxTurns).1=.ok result) :
    ∀ step∈result.steps, AtEach (P step.stepIndex) step.toolCalls := by
  obtain ⟨s,hloop,hsteps,-⟩ := executeTask_ok h
  have hall := agentLoop_atEach hcall maxTurns 1 (startOf env goal systemOverride)
    (fun step hstep => by cases hstep)
  rw [hloop] at hall
  rw [hsteps]
  exact hall

/-- In the result of a task, the records tell how the calls ended. -/
theorem executeTask_reflects {goal : String} {systemOverride : Option String} {maxTurns : ℕ}
    {result : AgentExecutionResult}
    (h : (executeTask env engine goal systemOverride maxTurns).1=.ok result) :
    ∀ step∈result.steps, ReflectsAll env engine step.stepIndex step.toolCalls := by
  refine executeTask_atEach (P:=fun turn position r =>
    Reflects (callEnd env engine turn position r.toolName r.arguments).1 r) ?_ h
  intro turn tc s r hrecords
  obtain ⟨r',hrecords',hr⟩ := runCall_records env engine (runIdOf env engine) turn tc s
  rw [hrecords] at hrecords'
  obtain ⟨-,⟨⟩⟩ := List.append_inj' hrecords' rfl
  exact hr

end AegisRuntime.AgentLoop
