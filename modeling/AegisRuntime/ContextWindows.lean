import AegisRuntime.AgentHalts
import AegisRuntime.SuffixTrimming
import Mathlib.Algebra.Ring.Nat

/-!
# The context window of the agent

What `prune_context_window` keeps of the messages: the system prompt, the goal and
the longest suffix of the others that fits the token budget. A history is made of
turns, each an assistant message followed by the tool messages of its calls; the
window may begin inside a turn, and exactly then a tool message has lost its call.
-/

namespace AegisRuntime.ContextWindows

open JsonValues AgentLoop AgentHalts SuffixTrimming

variable {env : AgentEnv} {engine : AgentEngine} {runId : String} {turn : ℕ}
  {messages : List JsonValue} {system goal : JsonValue} {tokenBudget : ℕ}

/-- Whether messages fit the budget behind the system prompt and the goal. -/
def fitsBehind (system goal : JsonValue) (tokenBudget : ℕ) (rest : List JsonValue) : Bool :=
  decide (estimateTokens (system::goal::rest) ≤ tokenBudget)

theorem foldl_messageTokens (count : ℕ) (messages : List JsonValue) :
    messages.foldl (fun count m => count+messageTokens m) count=
      count+(messages.map messageTokens).sum := by
  induction messages generalizing count with
  | nil => rfl
  | cons m rest ih => rw [List.foldl_cons,ih,List.map_cons,List.sum_cons,Nat.add_assoc]

/-- The estimate of a list is the sum of the estimates of its messages. -/
theorem estimateTokens_eq_sum (messages : List JsonValue) :
    estimateTokens messages=(messages.map messageTokens).sum := by
  rw [estimateTokens,foldl_messageTokens,Nat.zero_add]

/-- The estimate of a suffix is not larger. -/
theorem estimateTokens_suffix {xs ys : List JsonValue} (h : ys<:+xs) :
    estimateTokens ys ≤ estimateTokens xs := by
  obtain ⟨front,rfl⟩ := h
  rw [estimateTokens_eq_sum,estimateTokens_eq_sum,List.map_append,List.sum_append]
  exact Nat.le_add_left _ _

theorem estimateTokens_cons (m : JsonValue) (rest : List JsonValue) :
    estimateTokens (m::rest)=messageTokens m+estimateTokens rest := by
  rw [estimateTokens_eq_sum,estimateTokens_eq_sum,List.map_cons,List.sum_cons]

/-- What fits goes on fitting as older messages are dropped. -/
theorem fitsBehind_on (system goal : JsonValue) (tokenBudget : ℕ) :
    FitsOn (fitsBehind system goal tokenBudget) := by
  intro xs ys hsuffix hfits
  rw [fitsBehind,decide_eq_true_eq,estimateTokens_cons,estimateTokens_cons] at hfits ⊢
  have hle := estimateTokens_suffix hsuffix
  omega

/-- The loop drops messages until the rest fits. -/
theorem pruneTail_eq (system goal : JsonValue) (tokenBudget : ℕ) (rest : List JsonValue)
    (pruned : Bool) : pruneTail system goal tokenBudget rest pruned=
      (dropUntil (fitsBehind system goal tokenBudget) rest,pruned ||
        decide ((dropUntil (fitsBehind system goal tokenBudget) rest).length < rest.length)) := by
  induction rest generalizing pruned with
  | nil => simp [pruneTail,dropUntil]
  | cons m rest ih =>
    rw [pruneTail,dropUntil]
    by_cases hover : tokenBudget < estimateTokens (system::goal::m::rest)
    · have hlong : fitsBehind system goal tokenBudget (m::rest)=false :=
        decide_eq_false (Nat.not_le.mpr hover)
      have hshort := (dropUntil_suffix (fitsBehind system goal tokenBudget) rest).length_le
      rw [if_pos hover,ih,hlong,if_neg Bool.false_ne_true,Bool.true_or,List.length_cons,
        decide_eq_true (Nat.lt_succ_of_le hshort),Bool.or_true]
    · have hfits : fitsBehind system goal tokenBudget (m::rest)=true :=
        decide_eq_true (Nat.not_lt.mp hover)
      rw [if_neg hover,hfits,if_pos rfl,decide_eq_false (Nat.lt_irrefl _),Bool.or_false]

theorem pruneContextWindow_eq (system goal : JsonValue) (rest : List JsonValue)
    (tokenBudget : ℕ) : pruneContextWindow (system::goal::rest) tokenBudget=
      (system::goal::dropUntil (fitsBehind system goal tokenBudget) rest,
        decide ((dropUntil (fitsBehind system goal tokenBudget) rest).length < rest.length)) := by
  rw [pruneContextWindow,pruneTail_eq,Bool.false_or]

/-- Up to two messages are not touched. -/
theorem pruneContextWindow_short (h : messages.length ≤ 2) :
    pruneContextWindow messages tokenBudget=(messages,false) := by
  match messages,h with
  | [],_ => rfl
  | [_],_ => rfl
  | [system,goal],_ => rfl

theorem pruneContextWindow_of_fits (h : estimateTokens messages ≤ tokenBudget) :
    pruneContextWindow messages tokenBudget=(messages,false) := by
  match messages,h with
  | [],_ => rfl
  | [_],_ => rfl
  | system::goal::rest,h =>
    have hfits : fitsBehind system goal tokenBudget rest=true := decide_eq_true h
    rw [pruneContextWindow_eq,dropUntil_of_fits hfits,decide_eq_false (Nat.lt_irrefl _)]

/-- Pruning is minimal and keeps the goal: the first two messages stay, followed by
the longest suffix of the others with which the whole fits the budget. The flag
tells whether a message was removed; messages that fit, and up to two of them,
are not touched; and pruning again changes nothing. -/
theorem pruning_minimal (messages : List JsonValue) (tokenBudget : ℕ) :
    (∀ system goal rest, messages=system::goal::rest → ∃ kept,
      (pruneContextWindow messages tokenBudget).1=system::goal::kept ∧ kept<:+rest ∧
        (kept=[] ∨ estimateTokens (system::goal::kept) ≤ tokenBudget) ∧
        ∀ suffix, suffix<:+rest → estimateTokens (system::goal::suffix) ≤ tokenBudget →
          suffix<:+kept) ∧
      ((pruneContextWindow messages tokenBudget).2=true ↔
        (pruneContextWindow messages tokenBudget).1.length < messages.length) ∧
      ((pruneContextWindow messages tokenBudget).2=false ↔
        (pruneContextWindow messages tokenBudget).1=messages) ∧
      (estimateTokens messages ≤ tokenBudget ∨ messages.length ≤ 2 →
        pruneContextWindow messages tokenBudget=(messages,false)) ∧
      pruneContextWindow (pruneContextWindow messages tokenBudget).1 tokenBudget=
        ((pruneContextWindow messages tokenBudget).1,false) := by
  have hsame : estimateTokens messages ≤ tokenBudget ∨ messages.length ≤ 2 →
      pruneContextWindow messages tokenBudget=(messages,false) := fun h =>
    h.elim pruneContextWindow_of_fits pruneContextWindow_short
  match messages,hsame with
  | [],hsame | [_],hsame =>
    exact ⟨fun system goal rest h => by simp at h,by simp [pruneContextWindow],
      by simp [pruneContextWindow],hsame,rfl⟩
  | system::goal::rest,hsame =>
    have hsuffix := dropUntil_suffix (fitsBehind system goal tokenBudget) rest
    rw [pruneContextWindow_eq] at hsame ⊢
    refine ⟨?_,?_,?_,hsame,?_⟩
    · rintro _ _ _ ⟨⟩
      refine ⟨_,rfl,hsuffix,?_,?_⟩
      · exact (dropUntil_fits _ rest).imp id of_decide_eq_true
      · intro suffix hend hfits
        exact suffix_dropUntil hend (decide_eq_true hfits)
    · simp only [decide_eq_true_eq,List.length_cons]
      omega
    · rw [decide_eq_false_iff_not,←dropUntil_eq_iff]
      exact ⟨fun h => by rw [h],fun h => (List.cons.inj (List.cons.inj h).2).2⟩
    · rw [pruneContextWindow_eq,dropUntil_idem,decide_eq_false (Nat.lt_irrefl _)]

/-- The message that answers a tool call. -/
def toolMessage (callId output : String) : JsonValue :=
  .object [("content",.string output),("role",.string "tool"),("tool_call_id",.string callId)]

/-- What one turn adds to the history. -/
structure HistoryTurn where
  /-- Text of the model's answer. -/
  content : Option String
  /-- The calls it asks for. -/
  calls : List ToolCallItem
  /-- The calls executed with their outputs. -/
  executed : List (ToolCallItem×String)
  /-- They are the first of the calls, in order. -/
  inOrder : executed.map Prod.fst<+:calls
  /-- At least one is executed. -/
  some : executed≠[]

/-- The tool messages of executed calls. -/
def toolMessages (executed : List (ToolCallItem×String)) : List JsonValue :=
  executed.map fun e => toolMessage e.1.id e.2

/-- The messages of a turn: the assistant message and those of its calls. -/
def turnMessages (t : HistoryTurn) : List JsonValue :=
  assistantMessage t.content t.calls::toolMessages t.executed

/-- The history after some turns. -/
def history (system goal : String) (turns : List HistoryTurn) : List JsonValue :=
  (AgentState.initial system goal).messages++(turns.map turnMessages).flatten

/-- Whether the message is an assistant message with the call among its tool calls. -/
def Asks (callId : Option JsonValue) (m : JsonValue) : Prop :=
  m.get "role"=some (.string "assistant") ∧
    ∃ calls, (m.get "tool_calls").bind JsonValue.asArray=some calls ∧
      ∃ call∈calls, call.get "id"=callId

/-- Every tool message comes after an assistant message that asks for its call. -/
def Attached (messages : List JsonValue) : Prop :=
  ∀ before m after, messages=before++m::after → m.get "role"=some (.string "tool") →
    ∃ a∈before, Asks (m.get "tool_call_id") a

theorem Attached.append {xs ys : List JsonValue} (hx : Attached xs) (hy : Attached ys) :
    Attached (xs++ys) := by
  intro before m after hsplit hrole
  rcases List.append_eq_append_iff.mp hsplit with ⟨more,rfl,hys⟩|⟨more,hxs,hrest⟩
  · obtain ⟨a,ha,hasks⟩ := hy more m after hys hrole
    exact ⟨a,List.mem_append_right xs ha,hasks⟩
  · cases more with
    | nil =>
      obtain ⟨a,ha,-⟩ := hy [] m after hrest.symm hrole
      cases ha
    | cons x more =>
      rw [List.cons_append,List.cons.injEq] at hrest
      exact hx before m more (hrest.1 ▸ hxs) hrole

/-- A message of a turn after its first one is a tool message of an executed call. -/
theorem mem_toolMessages {executed : List (ToolCallItem×String)} {m : JsonValue}
    (h : m∈toolMessages executed) : ∃ e∈executed, m=toolMessage e.1.id e.2 := by
  obtain ⟨e,he,rfl⟩ := List.mem_map.mp h
  exact ⟨e,he,rfl⟩

theorem attached_turn (t : HistoryTurn) : Attached (turnMessages t) := by
  intro before m after hsplit hrole
  cases before with
  | nil =>
    rw [List.nil_append,turnMessages,List.cons.injEq] at hsplit
    rw [←hsplit.1] at hrole
    simp [assistantMessage,JsonValue.get] at hrole
  | cons a before =>
    rw [List.cons_append,turnMessages,List.cons.injEq] at hsplit
    have hm : m∈toolMessages t.executed := by
      rw [hsplit.2]
      exact List.mem_append_right _ List.mem_cons_self
    obtain ⟨e,he,rfl⟩ := mem_toolMessages hm
    have hcall : e.1∈t.calls := t.inOrder.subset (List.mem_map_of_mem he)
    refine ⟨a,List.mem_cons_self,?_⟩
    rw [←hsplit.1]
    refine ⟨rfl,_,rfl,_,List.mem_map_of_mem hcall,rfl⟩

theorem attached_turns (turns : List HistoryTurn) :
    Attached (turns.map turnMessages).flatten := by
  induction turns with
  | nil => exact fun before m after hsplit => by simp at hsplit
  | cons t turns ih => exact (attached_turn t).append ih

/-- The system prompt of a history. -/
def systemMessage (system : String) : JsonValue :=
  .object [("content",.string system),("role",.string "system")]

/-- The goal of a history. -/
def goalMessage (goal : String) : JsonValue :=
  .object [("content",.string goal),("role",.string "user")]

/-- The first two messages do not answer or ask for tool calls. -/
theorem role_of_first (system goal : String) {m : JsonValue}
    (h : m∈[systemMessage system,goalMessage goal]) :
    m.get "role"≠some (.string "assistant") ∧ m.get "role"≠some (.string "tool") := by
  rcases List.mem_cons.mp h with rfl|h
  · simp [systemMessage,JsonValue.get]
  · rw [List.mem_singleton.mp h]
    simp [goalMessage,JsonValue.get]

/-- A history of whole turns keeps tool messages attached. -/
theorem attached_history (system goal : String) (turns : List HistoryTurn) :
    Attached (history system goal turns) := by
  refine Attached.append ?_ (attached_turns turns)
  intro before m after hsplit hrole
  have hfirst : [systemMessage system,goalMessage goal]=before++m::after := hsplit
  refine absurd hrole (role_of_first system goal ?_).2
  rw [hfirst]
  exact List.mem_append_right before List.mem_cons_self

/-- A history that begins inside a turn has a tool message without its call. -/
theorem not_attached_of_cut {system goal : String} {turns : List HistoryTurn}
    {rest : List JsonValue} (h : CutsInside (turns.map turnMessages) rest) :
    ¬ Attached (systemMessage system::goalMessage goal::rest) := by
  obtain ⟨before,g,after,tail,hsplit,htail,hne,hall,rfl⟩ := h
  have hg : g∈turns.map turnMessages := by
    rw [hsplit]
    exact List.mem_append_right before List.mem_cons_self
  obtain ⟨t,-,rfl⟩ := List.mem_map.mp hg
  have htools := (List.suffix_cons_iff.mp htail).resolve_left hall
  obtain ⟨m,tail,rfl⟩ := List.exists_cons_of_ne_nil hne
  obtain ⟨e,-,rfl⟩ := mem_toolMessages (htools.subset List.mem_cons_self)
  intro hattached
  obtain ⟨a,ha,hrole,-⟩ := hattached [systemMessage system,goalMessage goal]
    (toolMessage e.1.id e.2) _ rfl rfl
  exact (role_of_first _ _ ha).1 hrole

/-- Whether no turn of a history is too long where its last tool message alone,
with everything after it, is not. -/
def WholeTurns (system goal : String) (tokenBudget : ℕ) (turns : List HistoryTurn) : Prop :=
  NoneStraddles (fitsBehind (systemMessage system) (goalMessage goal) tokenBudget)
    (turns.map turnMessages)

theorem prune_history (system goal : String) (turns : List HistoryTurn) (tokenBudget : ℕ) :
    (pruneContextWindow (history system goal turns) tokenBudget).1=
      systemMessage system::goalMessage goal::dropUntil
        (fitsBehind (systemMessage system) (goalMessage goal) tokenBudget)
        (turns.map turnMessages).flatten :=
  congrArg Prod.fst (pruneContextWindow_eq _ _ _ _)

/-- Where no turn straddles the budget, whole turns are dropped. -/
theorem prune_whole {system goal : String} {turns : List HistoryTurn} {tokenBudget : ℕ}
    (h : WholeTurns system goal tokenBudget turns) : ∃ kept, kept<:+turns ∧
      (pruneContextWindow (history system goal turns) tokenBudget).1=history system goal kept := by
  obtain ⟨rest,hrest,heq⟩ := dropUntil_whole (fitsBehind_on _ _ _) h
  obtain ⟨kept,hkept,rfl⟩ := List.suffix_map_iff.mp hrest
  exact ⟨kept,hkept,by rw [prune_history,heq]; rfl⟩

/-- A trimmed history keeps tool messages attached exactly when no turn straddles
the budget. -/
theorem prune_attached_iff (system goal : String) (turns : List HistoryTurn) (tokenBudget : ℕ) :
    Attached (pruneContextWindow (history system goal turns) tokenBudget).1 ↔
      WholeTurns system goal tokenBudget turns := by
  constructor
  · intro hattached
    by_contra hstraddles
    rw [prune_history] at hattached
    exact not_attached_of_cut (dropUntil_cuts (fitsBehind_on _ _ _) hstraddles) hattached
  · intro h
    obtain ⟨kept,-,heq⟩ := prune_whole h
    rw [heq]
    exact attached_history system goal kept

/-- The histories of the turns, each before its window is trimmed. -/
def loopHistories (env : AgentEnv) (engine : AgentEngine) (runId : String) :
    ℕ → ℕ → AgentState → List (List JsonValue)
  | 0,_,_ => []
  | left+1,turn,s => s.messages::
    match env.infer turn (begunTurn turn s).messages with
    | .error _ => []
    | .ok res =>
      match res.toolCalls.getD [] with
      | [] => []
      | tc::rest =>
        let after := toolTurn env engine runId turn res (tc::rest) (begunTurn turn s)
        match after.2 with
        | some _ => []
        | none => loopHistories env engine runId left (turn+1) after.1

/-- The histories of a task. -/
def taskHistories (env : AgentEnv) (engine : AgentEngine) (goal : String)
    (systemOverride : Option String) (maxTurns : ℕ) : List (List JsonValue) :=
  loopHistories env engine (runIdOf env engine) maxTurns 1 (startOf env goal systemOverride)

/-- The system prompt of a task. -/
def systemOf (env : AgentEnv) (systemOverride : Option String) : String :=
  systemOverride.getD (defaultSystem (env.user.getD "sovereign") (env.home.getD "."))

/-- The calls of a turn add the tool messages of those they execute. -/
theorem runCalls_messages (env : AgentEnv) (engine : AgentEngine) (runId : String) (turn : ℕ)
    (calls : List ToolCallItem) (s : CallState) :
    ∃ executed : List (ToolCallItem×String), executed.map Prod.fst<+:calls ∧
      (runCalls env engine runId turn calls s).messages=s.messages++toolMessages executed ∧
      (executed=[] → calls=[]) := by
  induction calls generalizing s with
  | nil => exact ⟨[],List.prefix_refl [],(List.append_nil _).symm,fun _ => rfl⟩
  | cons tc rest ih =>
    have hcall : ∃ output, (runCall env engine runId turn tc s).messages=
        s.messages++[toolMessage tc.id output] := ⟨_,rfl⟩
    obtain ⟨output,hmessages⟩ := hcall
    rw [runCalls]
    split
    · refine ⟨[(tc,output)],?_,hmessages,fun h => absurd h (List.cons_ne_nil _ _)⟩
      exact List.prefix_append [tc] rest
    · obtain ⟨executed,hbegins,hmore,-⟩ := ih (runCall env engine runId turn tc s)
      refine ⟨(tc,output)::executed,?_,?_,fun h => absurd h (List.cons_ne_nil _ _)⟩
      · exact (List.prefix_cons_inj tc).mpr hbegins
      · rw [hmore,hmessages,List.append_assoc]
        rfl

/-- A turn with tool calls adds its messages to the history. -/
theorem toolTurn_history {system goal : String} {turns : List HistoryTurn} {s : AgentState}
    (env : AgentEnv) (engine : AgentEngine) (runId : String) (turn : ℕ) (res : ChatTurnResponse)
    (tc : ToolCallItem) (rest : List ToolCallItem)
    (h : s.messages=history system goal turns) : ∃ t,
    (toolTurn env engine runId turn res (tc::rest) s).1.messages=
      history system goal (turns++[t]) := by
  obtain ⟨executed,hbegins,hmessages,hnone⟩ := runCalls_messages env engine runId turn
    (tc::rest) (callsBegin res (tc::rest) s)
  have hsome : executed≠[] := fun h => List.cons_ne_nil _ _ (hnone h)
  refine ⟨⟨res.content,tc::rest,executed,hbegins,hsome⟩,hmessages.trans ?_⟩
  rw [callsBegin,h,history,history,List.map_append,List.flatten_append]
  simp [turnMessages]

/-- What the histories from a turn on are. -/
theorem loopHistories_cases (env : AgentEnv) (engine : AgentEngine) (runId : String)
    (left turn : ℕ) (s : AgentState) :
    loopHistories env engine runId (left+1) turn s=[s.messages] ∨ ∃ res tc rest,
      loopHistories env engine runId (left+1) turn s=s.messages::loopHistories env engine runId
        left (turn+1) (toolTurn env engine runId turn res (tc::rest) (begunTurn turn s)).1 := by
  rw [loopHistories]
  cases env.infer turn (begunTurn turn s).messages with
  | error e => exact Or.inl rfl
  | ok res =>
    simp only []
    cases res.toolCalls.getD [] with
    | nil => exact Or.inl rfl
    | cons tc rest =>
      simp only []
      cases (toolTurn env engine runId turn res (tc::rest) (begunTurn turn s)).2 with
      | some reason => exact Or.inl rfl
      | none => exact Or.inr ⟨res,tc,rest,rfl⟩

/-- The window of a history keeps tool messages attached exactly when none of its
turns straddles the budget. -/
theorem window_attached_iff {system goal : String} {turns : List HistoryTurn}
    (h : messages=history system goal turns) :
    Attached (pruneContextWindow messages tokenBudget).1 ↔ ∃ turns,
      messages=history system goal turns ∧ WholeTurns system goal tokenBudget turns := by
  constructor
  · intro hattached
    rw [h] at hattached
    exact ⟨turns,h,(prune_attached_iff system goal turns _).mp hattached⟩
  · rintro ⟨turns',heq,hwhole⟩
    rw [heq]
    exact (prune_attached_iff system goal turns' _).mpr hwhole

/-- From a history of whole turns on, tool messages stay attached in every window
exactly as long as no turn of a history straddles the budget. -/
theorem loopHistories_attached_iff {system goal : String} (left turn : ℕ) (s : AgentState)
    {turns : List HistoryTurn} (h : s.messages=history system goal turns) :
    (∀ messages∈loopHistories env engine runId left turn s,
        Attached (pruneContextWindow messages DEFAULT_MAX_CONTEXT_TOKENS).1) ↔
      ∀ messages∈loopHistories env engine runId left turn s, ∃ turns,
        messages=history system goal turns ∧
          WholeTurns system goal DEFAULT_MAX_CONTEXT_TOKENS turns := by
  induction left generalizing turn s turns with
  | zero => simp [loopHistories]
  | succ left ih =>
    rcases loopHistories_cases env engine runId left turn s with hone|⟨res,tc,rest,hmore⟩
    · rw [hone,List.forall_mem_singleton,List.forall_mem_singleton]
      exact window_attached_iff h
    · rw [hmore,List.forall_mem_cons,List.forall_mem_cons,window_attached_iff h]
      refine and_congr_right fun hwhole => ?_
      obtain ⟨turns',heq,hwhole⟩ := hwhole
      obtain ⟨kept,-,hkept⟩ := prune_whole hwhole
      rw [←heq] at hkept
      have hbegun : (begunTurn turn s).messages=history system goal kept := hkept
      obtain ⟨t,ht⟩ := toolTurn_history env engine runId turn res tc rest hbegun
      exact ih (turn+1) _ ht

/-- Trimming keeps the tool messages of a history attached to their calls exactly
when no turn straddles the budget, and those of all windows of a task exactly when
none does in any of its histories. -/
theorem pruning_attached_iff (system goal : String) (turns : List HistoryTurn)
    (tokenBudget : ℕ) (env : AgentEnv) (engine : AgentEngine) (systemOverride : Option String)
    (maxTurns : ℕ) :
    (Attached (pruneContextWindow (history system goal turns) tokenBudget).1 ↔
      WholeTurns system goal tokenBudget turns) ∧
    ((∀ messages∈taskHistories env engine goal systemOverride maxTurns,
        Attached (pruneContextWindow messages DEFAULT_MAX_CONTEXT_TOKENS).1) ↔
      ∀ messages∈taskHistories env engine goal systemOverride maxTurns, ∃ turns,
        messages=history (systemOf env systemOverride) goal turns ∧
          WholeTurns (systemOf env systemOverride) goal DEFAULT_MAX_CONTEXT_TOKENS turns) := by
  refine ⟨prune_attached_iff system goal turns tokenBudget,?_⟩
  have hstart : (startOf env goal systemOverride).messages=
      history (systemOf env systemOverride) goal [] := (List.append_nil _).symm
  exact loopHistories_attached_iff maxTurns 1 _ hstart

/-- A dispatcher that answers every call, and a model that asks for the status of
the repository in every turn. -/
def asksForStatus : AgentEnv where
  parseJson := fun _ => some (.object [])
  sha256Hex := fun _ => ""
  infer := fun _ _ => .ok ⟨none,none,some [⟨"c1","git_status","\x7b\x7d"⟩]⟩
  attempt := fun _ _ _ _ _ => ⟨0,0,false,false,false,.ok "clean"⟩
  home := none
  user := none
  freshRunId := "run"
  durationMs := 0

/-- Its history before the second turn. -/
def statusHistory : List JsonValue :=
  [systemMessage "system",goalMessage "goal",
    assistantMessage none [⟨"c1","git_status","\x7b\x7d"⟩],toolMessage "c1" "clean"]

/-- A task can build a history of which a budget leaves a tool message without its
call. -/
theorem tool_message_orphaned : ¬ ∀ (env : AgentEnv) (engine : AgentEngine) (goal : String)
    (systemOverride : Option String) (maxTurns tokenBudget : ℕ),
    ∀ messages∈taskHistories env engine goal systemOverride maxTurns,
      Attached (pruneContextWindow messages tokenBudget).1 := by
  intro hall
  have hbuilt : statusHistory∈taskHistories asksForStatus {} "goal" (some "system") 2 :=
    List.mem_cons_of_mem _ List.mem_cons_self
  have hpruned : (pruneContextWindow statusHistory 20).1=
      [systemMessage "system",goalMessage "goal",toolMessage "c1" "clean"] := rfl
  have hattached := hall asksForStatus {} "goal" (some "system") 2 20 statusHistory hbuilt
  rw [hpruned] at hattached
  obtain ⟨a,ha,hrole,-⟩ := hattached [systemMessage "system",goalMessage "goal"] _ [] rfl rfl
  exact (role_of_first _ _ ha).1 hrole

end AegisRuntime.ContextWindows
