import AegisRuntime.CauseChains
import AegisRuntime.ContextWindows
import AegisRuntime.TextReplacement

/-!
# Redaction of argument values

An error text that echoes the arguments of its call is redacted before it goes
anywhere. Whatever else the arguments hold, a string value of at least four bytes
that has no brackets and is not part of the placeholder does not come through: not
into the redacted text, not into the causes of a failure record, and not into the
output of a failed call that the model gets back.
-/

namespace AegisRuntime.PayloadRedaction

open JsonValues FailureRecords CauseChains TextScanning TextReplacement AgentLoop AgentRecords
open ContextWindows

/-- The string occurs in the value, at any depth. -/
inductive Holds (value : String) : JsonValue → Prop where
  /-- The value itself. -/
  | here : Holds value (.string value)
  /-- Inside an item of an array. -/
  | item {items : List JsonValue} {x : JsonValue} (mem : x∈items) (inside : Holds value x) :
    Holds value (.array items)
  /-- Inside a member of an object. -/
  | member {members : List (String×JsonValue)} {key : String} {x : JsonValue}
    (mem : (key,x)∈members) (inside : Holds value x) : Holds value (.object members)

variable {value : String} {args : JsonValue}

theorem collectItems_eq (items : List JsonValue) :
    collectItems items=items.flatMap collectStrings := by
  induction items with
  | nil => rfl
  | cons x items ih => rw [collectItems,ih,List.flatMap_cons]

theorem collectMembers_eq (members : List (String×JsonValue)) :
    collectMembers members=members.flatMap fun member => collectStrings member.2 := by
  induction members with
  | nil => rfl
  | cons member members ih => rw [collectMembers,ih,List.flatMap_cons]

/-- Every string of at least four bytes is collected. -/
theorem mem_collectStrings (h : Holds value args) (hsize : 4 ≤ value.utf8ByteSize) :
    value∈collectStrings args := by
  induction h with
  | here =>
    rw [collectStrings,if_pos hsize]
    exact List.mem_singleton_self value
  | item mem inside ih =>
    rw [collectStrings,collectItems_eq]
    exact List.mem_flatMap.mpr ⟨_,mem,ih⟩
  | member mem inside ih =>
    rw [collectStrings,collectMembers_eq]
    exact List.mem_flatMap.mpr ⟨_,mem,ih⟩

mutual

/-- Only strings of at least four bytes are collected. -/
theorem size_of_mem_collectStrings (args : JsonValue) :
    ∀ s∈collectStrings args, 4 ≤ s.utf8ByteSize := by
  cases args with
  | string value =>
    intro s hs
    rw [collectStrings] at hs
    split at hs
    · next hsize => exact (List.mem_singleton.mp hs) ▸ hsize
    · cases hs
  | array items =>
    rw [collectStrings]
    exact size_of_mem_collectItems items
  | object members =>
    rw [collectStrings]
    exact size_of_mem_collectMembers members
  | null | bool | number =>
    intro s hs
    rw [collectStrings] at hs
    cases hs

theorem size_of_mem_collectItems (items : List JsonValue) :
    ∀ s∈collectItems items, 4 ≤ s.utf8ByteSize := by
  cases items with
  | nil =>
    intro s hs
    cases hs
  | cons x items =>
    intro s hs
    rw [collectItems] at hs
    rcases List.mem_append.mp hs with hs|hs
    · exact size_of_mem_collectStrings x s hs
    · exact size_of_mem_collectItems items s hs

theorem size_of_mem_collectMembers (members : List (String×JsonValue)) :
    ∀ s∈collectMembers members, 4 ≤ s.utf8ByteSize := by
  cases members with
  | nil =>
    intro s hs
    cases hs
  | cons member members =>
    obtain ⟨key,x⟩ := member
    intro s hs
    rw [collectMembers] at hs
    rcases List.mem_append.mp hs with hs|hs
    · exact size_of_mem_collectStrings x s hs
    · exact size_of_mem_collectMembers members s hs

end

/-- The placeholder of the redaction. -/
def placeholder : Marker := Marker.bracketed "redacted".toList (by decide) (by decide)

theorem placeholder_text : placeholder.text=REDACTION_PLACEHOLDER.toList := by decide

/-- The test before a replacement saves work alone. -/
theorem redactValue_eq (out : List Char) (value : String) :
    redactValue out value=replaceAll value.toList placeholder.text out := by
  rw [redactValue,placeholder_text]
  split
  · rfl
  · next h =>
    exact (replaceAll_absent fun hoccurs => h (containsText_iff.mpr hoccurs)).symm

/-- The values that are replaced, longest first. -/
def echoes (args : JsonValue) : List (List Char) :=
  ((collectStrings args).insertionSort fun a b => b.utf8ByteSize ≤ a.utf8ByteSize).map String.toList

theorem redactPayloadEchoes_eq (message : String) (args : JsonValue) :
    (redactPayloadEchoes message args).toList=
      replaceEach placeholder (echoes args) message.toList := by
  rw [redactPayloadEchoes,String.toList_ofList,replaceEach,echoes,List.foldl_map]
  exact congrArg (fun f => List.foldl f _ _) (funext fun out => funext (redactValue_eq out))

theorem echoes_ne_nil {s : List Char} (h : s∈echoes args) : s≠[] := by
  obtain ⟨val,hval,rfl⟩ := List.mem_map.mp h
  have hsize := size_of_mem_collectStrings args val ((List.mem_insertionSort _).mp hval)
  exact toList_ne_nil (by omega)

/-- A string of the arguments that the redaction has to remove. -/
structure Echo (value : String) (args : JsonValue) : Prop where
  /-- It occurs in the arguments. -/
  holds : Holds value args
  /-- It has at least four bytes. -/
  size : 4 ≤ value.utf8ByteSize
  /-- It has no opening bracket. -/
  opening : '['∉value.toList
  /-- It has no closing bracket. -/
  closing : ']'∉value.toList
  /-- It is not part of the placeholder. -/
  inner : ¬ value.toList<:+:"redacted".toList

/-- An echo does not occur in the redacted text. -/
theorem not_infix_redactPayloadEchoes (h : Echo value args) (message : String) :
    ¬ value.toList<:+:(redactPayloadEchoes message args).toList := by
  rw [redactPayloadEchoes_eq]
  have hmem : value.toList∈echoes args :=
    List.mem_map_of_mem ((List.mem_insertionSort _).mpr (mem_collectStrings h.holds h.size))
  exact not_infix_replaceEach (m:=placeholder) (fun s hs => echoes_ne_nil hs) hmem
    ⟨h.opening,h.closing⟩ h.inner

/-- No echo occurs in the causes of the records of a call, nor in its output if it
failed. -/
structure Clean (r : ToolExecutionRecord) : Prop where
  /-- The causes of its failure records. -/
  causes : ∀ value, Echo value r.arguments → ∀ f∈callRecords r, ∀ e∈f.cause,
    ¬ value.toList<:+:e.message.toList
  /-- The output of a failed call. -/
  output : ∀ value, Echo value r.arguments → r.success=false → ¬ value.toList<:+:r.output.toList

variable {env : AgentEnv} {engine : AgentEngine} {runId : String} {turn : ℕ} {tc : ToolCallItem}
  {s : CallState}

/-- The causes of a stamped record are redacted and cut. -/
theorem stampFailure_clean (h : Echo value args) (parent : Option String) (sequence : ℕ)
    (a : AttemptFailure) :
    ∀ e∈(stampFailure env runId turn tc args parent sequence a).cause,
      ¬ value.toList<:+:e.message.toList := by
  intro e he
  have hcause : (stampFailure env runId turn tc args parent sequence a).cause=
      [⟨"tool_dispatch",truncateBytes (redactPayloadEchoes a.fault.message args)
        MAX_CAUSE_MESSAGE_BYTES,some (payloadDigest env.sha256Hex args)⟩] := rfl
  rw [hcause] at he
  rw [List.mem_singleton.mp he]
  intro hoccurs
  exact not_infix_redactPayloadEchoes h a.fault.message
    (hoccurs.trans (prefix_truncateBytes _ _).isInfix)

/-- Every call leaves a clean record, and a failed one sends the model its output. -/
theorem runCall_clean {r : ToolExecutionRecord}
    (h : (runCall env engine runId turn tc s).records=s.records++[r]) :
    Clean r ∧ (runCall env engine runId turn tc s).messages=
      s.messages++[toolMessage tc.id r.output] := by
  obtain ⟨-,-,hargs,hstamped,-⟩ := runCall_record h
  obtain ⟨-,heq⟩ := List.append_inj' h rfl
  rw [List.cons.injEq] at heq
  refine ⟨⟨?_,?_⟩,?_⟩
  · intro value hecho f hf
    rw [hstamped] at hf
    obtain ⟨sequence,a,-,rfl⟩ := mem_stampFailures hf
    exact stampFailure_clean (hargs ▸ hecho) _ _ _
  · intro value hecho hfail
    rw [hargs] at hecho
    rw [←heq.1] at hfail ⊢
    cases hend : (callEnd env engine turn s.records.length tc.name (callArguments env tc)).1 with
    | ok out => simp [hend] at hfail
    | error fault =>
      exact not_infix_redactPayloadEchoes hecho fault.message
  · rw [←heq.1]
    cases hend : (callEnd env engine turn s.records.length tc.name (callArguments env tc)).1 with
    | ok out =>
      rw [runCall]
      simp only [hend]
      rfl
    | error fault =>
      rw [runCall]
      simp only [hend]
      rfl

/-- Argument echoes are removed: from the redacted text, from the causes of the
failure records of every call and from the output of a failed one, which is what
the model gets back; so in the result of every task. -/
theorem echoes_removed :
    (∀ (message value : String) (args : JsonValue), Echo value args →
      ¬ value.toList<:+:(redactPayloadEchoes message args).toList) ∧
      (∀ (env : AgentEnv) (engine : AgentEngine) (runId : String) (turn : ℕ) (tc : ToolCallItem)
        (s : CallState), ∃ r, (runCall env engine runId turn tc s).records=s.records++[r] ∧
          (runCall env engine runId turn tc s).messages=
            s.messages++[toolMessage tc.id r.output] ∧ Clean r) ∧
      ∀ (env : AgentEnv) (engine : AgentEngine) (goal : String) (systemOverride : Option String)
        (maxTurns : ℕ) (result : AgentExecutionResult),
        (executeTask env engine goal systemOverride maxTurns).1=.ok result →
          ∀ step∈result.steps, ∀ r∈step.toolCalls, Clean r := by
  refine ⟨fun message value args hecho => not_infix_redactPayloadEchoes hecho message,?_,?_⟩
  · intro env engine runId turn tc s
    obtain ⟨r,hrecords,-⟩ := runCall_records env engine runId turn tc s
    obtain ⟨hclean,hmessages⟩ := runCall_clean hrecords
    exact ⟨r,hrecords,hmessages,hclean⟩
  · intro env engine goal systemOverride maxTurns result hran step hstep r hr
    have hall := executeTask_atEach (P:=fun _ _ r => Clean r)
      (fun turn tc s r h => (runCall_clean h).1) hran step hstep
    obtain ⟨position,hget⟩ := List.mem_iff_getElem?.mp hr
    exact hall position r hget

end AegisRuntime.PayloadRedaction
