import AegisRuntime.ChatHandlers
import AegisRuntime.ContextWindows

/-!
# The agent over the inference protocol

The protocol passes a conversation as roles and texts only: the tool calls that the loop
repeats in its messages are left out, and a call is looked for in the text that comes
back. A task over it is a dialogue: each turn asks with the system prompt, the goal and
the latest texts and outputs, and makes the one call that the reply holds, or takes the
reply for the final answer.
-/

namespace AegisRuntime.AgentDialogues

open JsonValues JsonTexts SuffixTrimming TextScanning AgentLoop AgentHalts ContextWindows ToolCallTexts
open ChatHandlers (InferenceMessage ProtocolBackend)
open ChatHandlers.ProtocolBackend (inferenceMessage)

/-- A call in a text, as the loop has it. -/
def callOf (item : SessionStore.ToolCallItem) : ToolCallItem :=
  ⟨item.id,item.functionName,item.functionArguments⟩

/-- `ProtocolInferenceBackend::generate_chat_with_tools`; the tools are not passed on. -/
def generateChatWithTools {τ : Type} (backend : ProtocolBackend τ)
    (fromStr : String → Option JsonValue) (freshId : String) (messages : List JsonValue)
    (temperature : Option τ) (maxTokens : Option UInt32) : Except String ChatTurnResponse :=
  (backend.generateChat messages temperature maxTokens).map fun content =>
    let parsed := parseStructuredToolCalls fromStr freshId content
    ⟨parsed.1,none,parsed.2.map fun calls => calls.map callOf⟩

/-- An agent over the protocol. -/
structure ProtocolAgent (τ : Type) where
  /-- What the agent meets, but for the model. -/
  met : AgentEnv
  /-- Its engine. -/
  engine : AgentEngine
  /-- The backend as it answers in each turn. -/
  backend : ℕ → ProtocolBackend τ
  /-- The fresh identifier for the call of each turn. -/
  callId : ℕ → String
  /-- The temperature `0.2`. -/
  temperature : τ

namespace ProtocolAgent

variable {τ : Type} (a : ProtocolAgent τ)

/-- What the agent meets. -/
def env : AgentEnv := { a.met with
  infer := fun turn messages => generateChatWithTools (a.backend turn) a.met.parseJson
    (a.callId turn) messages (some a.temperature) (some 2048) }

/-- What a reply is taken for. -/
def parsed (turn : ℕ) (reply : String) : ParsedAnswer :=
  parseStructuredToolCalls a.met.parseJson (a.callId turn) reply

/-- The calls in a reply. -/
def callsIn (turn : ℕ) (reply : String) : List ToolCallItem :=
  ((a.parsed turn reply).2.getD []).map callOf

end ProtocolAgent

/-- One turn of a dialogue. -/
structure Exchange where
  /-- The conversation as it was passed. -/
  asked : List InferenceMessage
  /-- The text that came back. -/
  reply : String
  /-- What the agent recorded of the turn. -/
  step : AgentStep

variable {τ : Type} {a : ProtocolAgent τ} {system goal : String} {turn left : ℕ}
  {earlier : List InferenceMessage} {x : Exchange} {xs : List Exchange}

/-- What later turns repeat of a turn: the text before the call and the output. -/
def repeated (a : ProtocolAgent τ) (turn : ℕ) (x : Exchange) : List InferenceMessage :=
  ⟨"assistant",(a.parsed turn x.reply).1.getD ""⟩::
    x.step.toolCalls.map fun r => ⟨"tool",r.output⟩

/-- A turn that comes after what was said earlier. -/
structure Follows (a : ProtocolAgent τ) (system goal : String) (turn : ℕ)
    (earlier : List InferenceMessage) (x : Exchange) : Prop where
  /-- The system prompt and the goal come first, and the latest of what was said. -/
  asked : ∃ tail, tail<:+earlier ∧ x.asked=⟨"system",system⟩::⟨"user",goal⟩::tail
  /-- The service gave the reply. -/
  answered : (a.backend turn).ask x.asked (some a.temperature) (some 2048)=.ok x.reply
  /-- The turn has its number. -/
  numbered : x.step.stepIndex=turn
  /-- The calls that were made are those in the reply. -/
  called : x.step.toolCalls.map (fun r => (r.callId,r.toolName,r.arguments))=
    (a.callsIn turn x.reply).map fun tc => (tc.id,tc.name,AgentLoop.callArguments a.env tc)
  /-- There is at most one. -/
  single : x.step.toolCalls.length ≤ 1

/-- Turns that come one after the other: those with a call go on, one without ends them. -/
inductive Dialogue (a : ProtocolAgent τ) (system goal : String) :
    ℕ → List InferenceMessage → List Exchange → Prop where
  | nil {turn : ℕ} {earlier : List InferenceMessage} : Dialogue a system goal turn earlier []
  | final {turn : ℕ} {earlier : List InferenceMessage} {x : Exchange}
    (h : Follows a system goal turn earlier x) (hnone : x.step.toolCalls=[]) :
    Dialogue a system goal turn earlier [x]
  | cons {turn : ℕ} {earlier : List InferenceMessage} {x : Exchange} {xs : List Exchange}
    (h : Follows a system goal turn earlier x) (hcall : x.step.toolCalls≠[])
    (hrest : Dialogue a system goal (turn+1) (earlier++repeated a turn x) xs) :
    Dialogue a system goal turn earlier (x::xs)

/-- How a dialogue ends: with a final answer exactly when the last reply holds no call,
and the answer is then that reply, or a text that stands in for a blank one. -/
structure Ends (xs : List Exchange) (completed : Bool) (finalResponse : String) : Prop where
  /-- The last turn is without a call. -/
  completed_iff : completed=true ↔ ∃ x, xs.getLast?=some x ∧ x.step.toolCalls=[]
  /-- Its reply is the answer, if there is anything in it. -/
  answer : ∀ x, xs.getLast?=some x → x.step.toolCalls=[] → trim x.reply.toList≠[] →
    finalResponse=x.reply
  /-- The answer to a blank reply. -/
  blank : ∀ x, xs.getLast?=some x → x.step.toolCalls=[] → trim x.reply.toList=[] →
    finalResponse="Task processed with zero textual output."

/-- Without a final answer. -/
theorem Ends.without {finalResponse : String}
    (h : ∀ x, xs.getLast?=some x → x.step.toolCalls≠[]) : Ends xs false finalResponse :=
  ⟨⟨fun h => (Bool.false_ne_true h).elim,fun ⟨x,hx,hnone⟩ => (h x hx hnone).elim⟩,
    fun x hx hnone _ => (h x hx hnone).elim,fun x hx hnone _ => (h x hx hnone).elim⟩

/-- A reply without a call ends the dialogue with its text. -/
theorem Ends.final (hnone : x.step.toolCalls=[]) :
    Ends [x] true (finalText (some x.reply) none) := by
  refine ⟨⟨fun _ => ⟨x,rfl,hnone⟩,fun _ => rfl⟩,?_,?_⟩
  · rintro y ⟨⟩ - htext
    have hfull : trim x.reply.toList≠[] := htext
    simp [finalText,hfull]
  · rintro y ⟨⟩ - hblank
    have hempty : trim x.reply.toList=[] := hblank
    simp [finalText,hempty]

theorem Ends.cons {completed : Bool} {finalResponse : String} (hcall : x.step.toolCalls≠[])
    (h : Ends xs completed finalResponse) : Ends (x::xs) completed finalResponse := by
  have hlast : ∀ y : Exchange, y.step.toolCalls=[] →
      ((x::xs).getLast?=some y ↔ xs.getLast?=some y) := by
    intro y hy
    cases xs with
    | nil =>
      refine ⟨fun hx => absurd hy ?_,fun hx => by cases hx⟩
      rw [List.getLast?_singleton,Option.some.injEq] at hx
      exact hx ▸ hcall
    | cons z zs => rw [List.getLast?_cons_cons]
  refine ⟨h.completed_iff.trans (exists_congr fun y => ?_),fun y hy hnone => ?_,
    fun y hy hnone => ?_⟩
  · exact and_congr_left fun hnone => (hlast y hnone).symm
  · exact h.answer y ((hlast y hnone).mp hy) hnone
  · exact h.blank y ((hlast y hnone).mp hy) hnone

/-- A piece that is a call leaves one call. -/
theorem callIn_single {fromStr : String → Option JsonValue} {freshId : String}
    {before json : List Char} {answer : ParsedAnswer}
    (h : callIn fromStr freshId before json=some answer) :
    ∃ item, answer.2=some [item] := by
  obtain ⟨item,-,rfl⟩ := Option.map_eq_some_iff.mp h
  exact ⟨item,rfl⟩

theorem delimitedCall_single {fromStr : String → Option JsonValue} {freshId : String}
    {opening closing text : List Char} {answer : ParsedAnswer}
    (h : delimitedCall fromStr freshId opening closing text=some answer) :
    ∃ item, answer.2=some [item] := by
  obtain ⟨p,-,h⟩ := Option.bind_eq_some_iff.mp h
  obtain ⟨q,-,h⟩ := Option.bind_eq_some_iff.mp h
  exact callIn_single h

theorem bareCall_single {fromStr : String → Option JsonValue} {freshId : String}
    {text : List Char} {answer : ParsedAnswer}
    (h : bareCall fromStr freshId text=some answer) : ∃ item, answer.2=some [item] := by
  obtain ⟨p,-,h⟩ := Option.bind_eq_some_iff.mp h
  obtain ⟨q,-,h⟩ := Option.bind_eq_some_iff.mp h
  simp only at h
  split at h
  · exact callIn_single h
  · cases h

/-- A reply is taken for its text, or holds one call. -/
theorem parsed_cases (a : ProtocolAgent τ) (turn : ℕ) (reply : String) :
    a.parsed turn reply=(some reply,none) ∨ ∃ item, (a.parsed turn reply).2=some [item] := by
  rw [ProtocolAgent.parsed,parseStructuredToolCalls]
  cases hfound : ((fencedCall a.met.parseJson (a.callId turn) reply.toList).or
      (taggedCall a.met.parseJson (a.callId turn) reply.toList)).or
      (bareCall a.met.parseJson (a.callId turn) reply.toList) with
  | none => exact .inl rfl
  | some answer =>
    right
    rcases Option.or_eq_some_iff.mp hfound with hfound|⟨-,hfound⟩
    · rcases Option.or_eq_some_iff.mp hfound with hfound|⟨-,hfound⟩
      · exact delimitedCall_single hfound
      · exact delimitedCall_single hfound
    · exact bareCall_single hfound

/-- The only call of a turn is made, whatever comes of it. -/
theorem runCalls_single (env : AgentEnv) (engine : AgentEngine) (runId : String) (turn : ℕ)
    (tc : ToolCallItem) (s : CallState) :
    runCalls env engine runId turn [tc] s=runCall env engine runId turn tc s := by
  rw [runCalls]
  simp only [runCalls]
  split <;> rfl

/-- What a call leaves. -/
theorem runCall_result (env : AgentEnv) (engine : AgentEngine) (runId : String) (turn : ℕ)
    (tc : ToolCallItem) (s : CallState) : ∃ r : ToolExecutionRecord,
      (r.callId,r.toolName,r.arguments)=(tc.id,tc.name,AgentLoop.callArguments env tc) ∧
      (runCall env engine runId turn tc s).records=s.records++[r] ∧
      (runCall env engine runId turn tc s).messages=s.messages++[toolMessage tc.id r.output] := by
  rw [runCall]
  simp only []
  cases (callEnd env engine turn s.records.length tc.name (AgentLoop.callArguments env tc)).1 with
  | ok out => exact ⟨_,rfl,rfl,rfl⟩
  | error fault => exact ⟨_,rfl,rfl,rfl⟩

/-- What a turn with one call leaves. -/
theorem toolTurn_single (env : AgentEnv) (engine : AgentEngine) (runId : String) (turn : ℕ)
    (res : ChatTurnResponse) (tc : ToolCallItem) (s : AgentState) : ∃ r : ToolExecutionRecord,
      (r.callId,r.toolName,r.arguments)=(tc.id,tc.name,AgentLoop.callArguments env tc) ∧
      (toolTurn env engine runId turn res [tc] s).1.steps=
        s.steps++[⟨turn,res.reasoning,[r]⟩] ∧
      (toolTurn env engine runId turn res [tc] s).1.messages=
        s.messages++[assistantMessage res.content [tc],toolMessage tc.id r.output] := by
  obtain ⟨r,hcall,hrecords,hmessages⟩ := runCall_result env engine runId turn tc
    (callsBegin res [tc] s)
  have hsingle := runCalls_single env engine runId turn tc (callsBegin res [tc] s)
  refine ⟨r,hcall,?_,?_⟩
  · have hdone : (toolTurn env engine runId turn res [tc] s).1.steps=s.steps++[⟨turn,res.reasoning,
        (runCalls env engine runId turn [tc] (callsBegin res [tc] s)).records⟩] := rfl
    rw [hdone,hsingle,hrecords]
    rfl
  · have hdone : (toolTurn env engine runId turn res [tc] s).1.messages=
        (runCalls env engine runId turn [tc] (callsBegin res [tc] s)).messages := rfl
    rw [hdone,hsingle,hmessages]
    exact List.append_assoc _ _ _

/-- Messages that hold the system prompt, the goal and the latest of what was said. -/
def Holds (system goal : String) (earlier : List InferenceMessage) (messages : List JsonValue) :
    Prop :=
  ∃ tail, messages=systemMessage system::goalMessage goal::tail ∧
    tail.map inferenceMessage<:+earlier

/-- The messages of a turn are passed as the prompt, the goal and the latest. -/
theorem Holds.asked {messages : List JsonValue} (h : Holds system goal earlier messages) :
    ∃ tail, tail<:+earlier ∧
      messages.map inferenceMessage=⟨"system",system⟩::⟨"user",goal⟩::tail := by
  obtain ⟨tail,rfl,htail⟩ := h
  exact ⟨_,htail,rfl⟩

/-- Trimming the window drops what is oldest. -/
theorem Holds.pruned {messages : List JsonValue} (h : Holds system goal earlier messages)
    (tokenBudget : ℕ) :
    Holds system goal earlier (pruneContextWindow messages tokenBudget).1 := by
  obtain ⟨tail,rfl,htail⟩ := h
  rw [pruneContextWindow_eq]
  exact ⟨_,rfl,((dropUntil_suffix _ tail).map _).trans htail⟩

theorem Holds.append {messages more : List JsonValue} (h : Holds system goal earlier messages) :
    Holds system goal (earlier++more.map inferenceMessage) (messages++more) := by
  obtain ⟨tail,rfl,before,rfl⟩ := h
  exact ⟨tail++more,rfl,before,by rw [List.map_append,List.append_assoc]⟩

/-- The answer of the model is what the reply is taken for. -/
theorem infer_ok {messages : List JsonValue} {res : ChatTurnResponse}
    (h : a.env.infer turn messages=.ok res) : ∃ reply,
      (a.backend turn).ask (messages.map inferenceMessage) (some a.temperature) (some 2048)=
        .ok reply ∧ res=⟨(a.parsed turn reply).1,none,
          (a.parsed turn reply).2.map fun calls => calls.map callOf⟩ := by
  have hinfer : a.env.infer turn messages=((a.backend turn).ask (messages.map inferenceMessage)
      (some a.temperature) (some 2048)).map fun reply => ⟨(a.parsed turn reply).1,none,
        (a.parsed turn reply).2.map fun calls => calls.map callOf⟩ := rfl
  rw [hinfer] at h
  cases hasked : (a.backend turn).ask (messages.map inferenceMessage) (some a.temperature)
      (some 2048) with
  | error e => rw [hasked] at h; cases h
  | ok reply =>
    rw [hasked] at h
    cases h
    exact ⟨reply,rfl,rfl⟩

/-- A reply without a call is a final turn. -/
theorem follows_final {messages : List JsonValue} {reply : String}
    (hmessages : Holds system goal earlier messages)
    (hreply : (a.backend turn).ask (messages.map inferenceMessage) (some a.temperature)
      (some 2048)=.ok reply) (hnone : (a.parsed turn reply).2=none) :
    Follows a system goal turn earlier ⟨messages.map inferenceMessage,reply,⟨turn,none,[]⟩⟩ := by
  refine ⟨hmessages.asked,hreply,rfl,?_,Nat.zero_le 1⟩
  rw [ProtocolAgent.callsIn,hnone]
  rfl

/-- A reply with a call is a turn that makes it. -/
theorem follows_call {messages : List JsonValue} {reply : String}
    {item : SessionStore.ToolCallItem} {r : ToolExecutionRecord}
    (hmessages : Holds system goal earlier messages)
    (hreply : (a.backend turn).ask (messages.map inferenceMessage) (some a.temperature)
      (some 2048)=.ok reply) (hcall : (a.parsed turn reply).2=some [item])
    (hr : (r.callId,r.toolName,r.arguments)=((callOf item).id,(callOf item).name,
      AgentLoop.callArguments a.env (callOf item))) :
    Follows a system goal turn earlier ⟨messages.map inferenceMessage,reply,⟨turn,none,[r]⟩⟩ := by
  refine ⟨hmessages.asked,hreply,rfl,?_,Nat.le_refl 1⟩
  rw [ProtocolAgent.callsIn,hcall]
  exact congrArg (fun called => [called]) hr

/-- What a turn makes of the loop, when the loop ends well: the turn follows what was said
earlier and is the final one, or it leaves a state in which a halt ends the loop or the
next turn begins. -/
theorem agentLoop_turn (engine : AgentEngine) (runId : String) (left turn : ℕ) (s : AgentState)
    {s' : AgentState} (hmessages : Holds system goal earlier s.messages)
    (hrun : agentLoop a.env engine runId (left+1) turn s=(.ok (),s')) : ∃ x,
      Follows a system goal turn earlier x ∧
      (x.step.toolCalls=[] ∧ s'={ begunTurn turn s with
          finalResponse := finalText (some x.reply) none
          steps := s.steps++[x.step]
          completed := true } ∨
        x.step.toolCalls≠[] ∧ ∃ after : AgentState, after.steps=s.steps++[x.step] ∧
          after.turnsTaken=turn ∧ after.completed=s.completed ∧
          Holds system goal (earlier++repeated a turn x) after.messages ∧
          ((∃ reason, s'={ after with finalResponse := reason }) ∨
            agentLoop a.env engine runId left (turn+1) after=(.ok (),s'))) := by
  have hbegun : Holds system goal earlier (begunTurn turn s).messages := hmessages.pruned _
  have hwindow : (begunTurn turn s).messages=
    (pruneContextWindow s.messages DEFAULT_MAX_CONTEXT_TOKENS).1 := rfl
  rw [agentLoop] at hrun
  simp only [] at hrun
  rw [←begunTurn,←hwindow] at hrun
  cases hinfer : a.env.infer turn (begunTurn turn s).messages with
  | error e =>
    rw [hinfer] at hrun
    cases hrun
  | ok res =>
    rw [hinfer] at hrun
    simp only [] at hrun
    obtain ⟨reply,hreply,rfl⟩ := infer_ok hinfer
    rcases parsed_cases a turn reply with hparsed|⟨item,hparsed⟩
    · -- The reply is the final answer.
      rw [hparsed] at hrun
      cases hrun
      exact ⟨_,follows_final hbegun hreply (by rw [hparsed]),.inl ⟨rfl,rfl⟩⟩
    · -- The reply holds a call.
      obtain ⟨r,hr,hsteps,hafter⟩ := toolTurn_single a.env engine runId turn
        ⟨(a.parsed turn reply).1,none,some [callOf item]⟩ (callOf item) (begunTurn turn s)
      have hcalls : ((a.parsed turn reply).2.map fun calls => calls.map callOf)=
        some [callOf item] := by rw [hparsed]; rfl
      rw [hcalls] at hrun
      simp only [Option.getD_some] at hrun
      refine ⟨_,follows_call hbegun hreply hparsed hr,.inr ⟨List.cons_ne_nil r [],_,hsteps,rfl,rfl,
        hafter ▸ hbegun.append,?_⟩⟩
      cases hhalted : (toolTurn a.env engine runId turn
          ⟨(a.parsed turn reply).1,none,some [callOf item]⟩ [callOf item]
          (begunTurn turn s)).2 with
      | some reason =>
        rw [hhalted] at hrun
        cases hrun
        exact .inl ⟨reason,rfl⟩
      | none =>
        rw [hhalted] at hrun
        exact .inr hrun

/-- From a turn on, the loop is a dialogue. -/
theorem agentLoop_dialogue (engine : AgentEngine) (runId : String) (left turn : ℕ)
    (s : AgentState) (earlier : List InferenceMessage) {s' : AgentState}
    (hmessages : Holds system goal earlier s.messages) (hopen : s.completed=false)
    (hturn : s.turnsTaken+1=turn)
    (hrun : agentLoop a.env engine runId left turn s=(.ok (),s')) : ∃ xs,
      Dialogue a system goal turn earlier xs ∧ s'.steps=s.steps++xs.map Exchange.step ∧
      s'.turnsTaken+1=turn+xs.length ∧ xs.length ≤ left ∧
      Ends xs s'.completed s'.finalResponse := by
  induction left generalizing turn s earlier with
  | zero =>
    cases hrun
    rw [hopen]
    exact ⟨[],.nil,(List.append_nil _).symm,hturn,Nat.le_refl 0,.without fun x hx => by cases hx⟩
  | succ left ih =>
    obtain ⟨x,hfollows,⟨hnone,rfl⟩|⟨hcall,after,hsteps,htaken,hstill,hsaid,hrest⟩⟩ :=
      agentLoop_turn engine runId left turn s hmessages hrun
    · exact ⟨[x],.final hfollows hnone,rfl,rfl,Nat.succ_le_succ (Nat.zero_le left),.final hnone⟩
    · rcases hrest with ⟨reason,rfl⟩|hrun
      · refine ⟨[x],.cons hfollows hcall .nil,hsteps,congrArg (· + 1) htaken,
          Nat.succ_le_succ (Nat.zero_le left),?_⟩
        have hunfinished : after.completed=false := hstill.trans hopen
        simp only [hunfinished]
        refine .without ?_
        rintro y ⟨⟩
        exact hcall
      · obtain ⟨xs,hxs,hmore,htaken',hlength,hends⟩ := ih (turn+1) after _ hsaid
          (hstill.trans hopen) (congrArg (· + 1) htaken) hrun
        refine ⟨x::xs,.cons hfollows hcall hxs,?_,?_,Nat.succ_le_succ hlength,hends.cons hcall⟩
        · rw [hmore,hsteps,List.append_assoc]
          rfl
        · rw [htaken',List.length_cons]
          omega

/-- A result is a dialogue: whatever the service says in each turn and whatever comes of
the calls, a task that returns took at most the allowed number of turns. Each passed the
system prompt, the goal and the latest of the texts and outputs before it, and made the
one call that its reply held, if any; the first reply without a call is the answer,
unless it is blank and a fixed text stands in for it. -/
theorem task_dialogue (a : ProtocolAgent τ) (goal : String) (systemOverride : Option String)
    (maxTurns : ℕ) : ∀ result,
      (executeTask a.env a.engine goal systemOverride maxTurns).1=.ok result → ∃ xs,
        Dialogue a (systemOf a.env systemOverride) goal 1 [] xs ∧
        result.steps=xs.map Exchange.step ∧ result.turnsTaken=xs.length ∧
        xs.length ≤ maxTurns ∧ Ends xs result.completed result.finalResponse := by
  intro result hresult
  rw [executeTask] at hresult
  simp only [] at hresult
  cases hloop : agentLoop a.env a.engine (a.engine.runId.getD a.env.freshRunId) maxTurns 1
      (.initial (systemOf a.env systemOverride) goal) with
  | mk ended s =>
    rw [systemOf] at hloop
    rw [hloop] at hresult
    cases ended with
    | error e => cases hresult
    | ok u =>
      obtain ⟨xs,hxs,hsteps,htaken,hlength,hends⟩ := agentLoop_dialogue a.engine _ maxTurns 1 _ []
        ⟨[],rfl,List.suffix_refl []⟩ rfl rfl hloop
      cases hresult
      refine ⟨xs,hxs,hsteps,by simp only at htaken ⊢; omega,hlength,?_⟩
      cases hcompleted : s.completed with
      | false =>
        rw [hcompleted] at hends
        refine .without fun x hx hnone => Bool.false_ne_true (hends.completed_iff.mpr ⟨x,hx,hnone⟩)
      | true =>
        rw [hcompleted] at hends
        exact hends

/-- An agent whose service first asks for a listing and then is done. -/
def lookingAgent : ProtocolAgent ℕ where
  met := {
    parseJson := fun text =>
      if text="\x7b\"name\":\"list_dir\",\"arguments\":\x7b\x7d\x7d" then
        some (.object [("arguments",.object []),("name",.string "list_dir")])
      else if text="\x7b\x7d" then some (.object []) else none
    sha256Hex := fun _ => ""
    infer := fun _ _ => .error "no model"
    attempt := fun _ _ _ _ _ => ⟨0,0,false,false,false,.ok "a (file)"⟩
    home := none
    user := none
    freshRunId := "run-1"
    durationMs := 0 }
  engine := {}
  backend := fun turn =>
    ⟨fun _ => .ok (if turn=1 then
      "I look.<tool_call>\x7b\"name\":\"list_dir\",\"arguments\":\x7b\x7d\x7d</tool_call>"
      else "One file."),"model","request-1","chunk-1",0⟩
  callId := toString
  temperature := 2

/-- What the agent records of its call. -/
def lookingRecord : ToolExecutionRecord :=
  ⟨"call_1","list_dir",.object [],"a (file)",true,none,[]⟩

/-- The first turn makes the call, and the second answers after it. -/
theorem task_dialogue_looking : ∃ xs, Dialogue lookingAgent "Be brief." "Look." 1 [] xs ∧
    [⟨1,none,[lookingRecord]⟩,⟨2,none,[]⟩]=xs.map Exchange.step ∧ 2=xs.length ∧
    xs.length ≤ 3 ∧ Ends xs true "One file." :=
  task_dialogue lookingAgent "Look." (some "Be brief.") 3
    ⟨"One file.",[⟨1,none,[lookingRecord]⟩,⟨2,none,[]⟩],2,0,true⟩ rfl

end AegisRuntime.AgentDialogues
