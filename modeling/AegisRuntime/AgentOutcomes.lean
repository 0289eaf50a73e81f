import AegisRuntime.AgentLoop
import AegisRuntime.WorkflowLedger

/-!
# The outcome of an agent task

`agent_outcome`, the seam between the agent loop and the workflow: what it reports
about the effects of a whole run, compared with how the calls of the run ended.
-/

namespace AegisRuntime.AgentOutcomes

open JsonValues FailureRecords AgentLoop WorkflowLedger

/-- All calls of a run, in order. -/
def allCalls (result : AgentExecutionResult) : List ToolExecutionRecord :=
  result.steps.flatMap AgentStep.toolCalls

/-- The last recorded failure of a run. -/
def lastFailure (result : AgentExecutionResult) : Option FailureRecord :=
  ((allCalls result).filterMap ToolExecutionRecord.failure).getLast?

/-- Maps the result of an agent task onto a task outcome. -/
def agentOutcome (result : AgentExecutionResult) : TaskOutcome :=
  match lastFailure result with
  | some f =>
    if f.cls=.approvalPending then .approvalPending
    else .failed ⟨f.cls,f.effectCertainty,
      (f.cause.head?.map CauseEntry.message).getD "agent tool call failed"⟩
  | none =>
    -- deny by default: a failed call without a record is still a failure
    if (allCalls result).any fun c => !c.success then
      .failed ⟨.failed,.uncertain,"agent tool call failed without a failure record"⟩
    else if result.completed then
      .completed (.object [("final_response",.string result.finalResponse)])
    else .failed ⟨.failed,.uncertain,"agent did not complete within its turn budget"⟩

/-- Whether an outcome is a failure that claims to have had no effect. -/
def claimsNoEffect : TaskOutcome → Bool
  | .failed fault => decide (fault.certainty=.noEffect)
  | _ => false

/-- Whether the record of a call to a tool that is not idempotent leaves room for
an effect: the call succeeded, or its failure is not without effect. -/
def mayHaveActed (c : ToolExecutionRecord) : Bool :=
  !(skillEffectProfile c.toolName).idempotent &&
    match c.failure with
    | some f => decide (f.effectCertainty≠.noEffect)
    | none => true

/-- Whether the last failure of a run, itself without effect, hides a call that
may have acted. -/
def masksEffect (result : AgentExecutionResult) : Bool :=
  match lastFailure result with
  | some f => decide (f.cls≠.approvalPending) && decide (f.effectCertainty=.noEffect) &&
    (allCalls result).any mayHaveActed
  | none => false

/-- A finished task of an agent. -/
structure AgentRun where
  /-- What the agent met. -/
  env : AgentEnv
  /-- The engine. -/
  engine : AgentEngine
  /-- The goal. -/
  goal : String
  /-- The system prompt, when it was overridden. -/
  systemOverride : Option String
  /-- The turn limit. -/
  maxTurns : ℕ
  /-- The result. -/
  result : AgentExecutionResult
  /-- The task returned the result. -/
  ran : (executeTask env engine goal systemOverride maxTurns).1=.ok result

/-- How the call at a position of a turn ended, retries included. -/
def AgentRun.endOf (run : AgentRun) (step : AgentStep) (position : ℕ)
    (r : ToolExecutionRecord) : Except ToolFault String :=
  (callEnd run.env run.engine step.stepIndex position r.toolName r.arguments).1

/-- An outcome that claims no effect is backed by the calls: every call to a tool
that is not idempotent itself failed without effect. -/
def EffectNotUnderstated (run : AgentRun) : Prop :=
  claimsNoEffect (agentOutcome run.result)=true →
    ∀ step∈run.result.steps, ∀ position r, step.toolCalls[position]?=some r →
      (skillEffectProfile r.toolName).idempotent=false →
        ∃ fault, run.endOf step position r=.error fault ∧ fault.certainty=.noEffect

variable {run : AgentRun} {result : AgentExecutionResult}

/-- No effect is claimed when the last failure claims it and waits for no one. -/
theorem claimsNoEffect_iff : claimsNoEffect (agentOutcome result)=true ↔
    ∃ f, lastFailure result=some f ∧ f.cls≠.approvalPending ∧ f.effectCertainty=.noEffect := by
  unfold agentOutcome
  cases hlast : lastFailure result with
  | none =>
    refine iff_of_false ?_ (by simp)
    simp only []
    split
    · simp [claimsNoEffect]
    · split <;> simp [claimsNoEffect]
  | some f =>
    simp only []
    by_cases hpending : f.cls=.approvalPending
    · rw [if_pos hpending]
      refine iff_of_false (by simp [claimsNoEffect]) ?_
      rintro ⟨g,hg,hcls,-⟩
      cases hg
      exact hcls hpending
    · rw [if_neg hpending]
      constructor
      · intro h
        exact ⟨f,rfl,hpending,of_decide_eq_true h⟩
      · rintro ⟨g,hg,-,hcertainty⟩
        cases hg
        exact decide_eq_true hcertainty

theorem masksEffect_iff : masksEffect result=true ↔
    claimsNoEffect (agentOutcome result)=true ∧ ∃ c∈allCalls result, mayHaveActed c=true := by
  rw [claimsNoEffect_iff,←List.any_eq_true]
  unfold masksEffect
  cases lastFailure result with
  | none => simp
  | some f => simp [and_assoc]

/-- The record of a call leaves no room for an effect exactly when the call is
to an idempotent tool or itself failed without effect. -/
theorem mayHaveActed_eq_false_iff {ended : Except ToolFault String} {c : ToolExecutionRecord}
    (h : Reflects ended c) : mayHaveActed c=false ↔
      ((skillEffectProfile c.toolName).idempotent=false →
        ∃ fault, ended=.error fault ∧ fault.certainty=.noEffect) := by
  unfold mayHaveActed
  cases hid : (skillEffectProfile c.toolName).idempotent with
  | true => simp
  | false =>
    cases ended with
    | ok out =>
      obtain ⟨-,hnone⟩ := h
      rw [hnone]
      simp
    | error fault =>
      obtain ⟨-,f,hf,-,hcertainty⟩ := h
      rw [hf]
      simp [hcertainty]

/-- Where no effect is understated, the last failure hides no call. -/
theorem EffectNotUnderstated.not_masks (h : EffectNotUnderstated run) :
    masksEffect run.result=false := by
  have hreflects := executeTask_reflects run.ran
  by_contra hmasks
  obtain ⟨hclaims,c,hc,hacted⟩ := masksEffect_iff.mp (by simpa using hmasks)
  obtain ⟨step,hstep,hmem⟩ := List.mem_flatMap.mp hc
  obtain ⟨position,hget⟩ := List.mem_iff_getElem?.mp hmem
  have hquiet := (mayHaveActed_eq_false_iff (hreflects step hstep position c hget)).mpr
    (h hclaims step hstep position c hget)
  rw [hquiet] at hacted
  cases hacted

/-- The reported certainty is not understated exactly when the last failure of the
run, if it claims no effect, hides no call that may have acted. -/
theorem not_understated_iff (run : AgentRun) :
    EffectNotUnderstated run ↔ masksEffect run.result=false := by
  refine ⟨EffectNotUnderstated.not_masks,fun hmasks hclaims step hstep position r hget => ?_⟩
  have hreflects := executeTask_reflects run.ran
  have hquiet : mayHaveActed r=false := by
    by_contra hacted
    have hmem : r∈allCalls run.result :=
      List.mem_flatMap.mpr ⟨step,hstep,List.mem_of_getElem? hget⟩
    have hall := masksEffect_iff.mpr ⟨hclaims,r,hmem,by simpa using hacted⟩
    rw [hmasks] at hall
    cases hall
  exact (mayHaveActed_eq_false_iff (hreflects step hstep position r hget)).mp hquiet

/-- Arguments of a write. -/
def writeArgs : JsonValue := .object [("content",.string "x"),("path",.string "a")]

/-- Arguments of a read of a file that is not there. -/
def readArgs : JsonValue := .object [("path",.string "missing.txt")]

/-- A model that asks for a write, then for a read of a missing file, and then
stops; the write succeeds and the read fails. -/
def writeThenRead : AgentEnv where
  parseJson := fun text =>
    if text=writeArgs.compact then some writeArgs
    else if text=readArgs.compact then some readArgs
    else none
  sha256Hex := fun _ => "2a7b713785edb4f5ee706613d5494193732efb04b924833483b0a9d3585881d3"
  infer := fun turn _ => .ok (
    if turn=1 then ⟨none,none,some [⟨"c1","write_file",writeArgs.compact⟩]⟩
    else if turn=2 then ⟨none,none,some [⟨"c2","read_file",readArgs.compact⟩]⟩
    else ⟨some "done",none,none⟩)
  attempt := fun _ _ _ name _ =>
    { createdAt := 0
      failedAt := 0
      cancelledBefore := false
      overdue := false
      cancelledDuring := false
      answer :=
        if name="write_file" then .ok "Wrote 1 bytes to /ws/a"
        else .error ⟨.failed,.noEffect,"Path not found: File does not exist: missing.txt"⟩ }
  home := none
  user := none
  freshRunId := "run_1"
  durationMs := 1

/-- A successful write before a failed read is reported as a failure without effect. -/
theorem effect_understated : ¬∀ run : AgentRun, EffectNotUnderstated run := by
  intro hall
  have hmasks : ((executeTask writeThenRead {} "g" (some "s") 5).1.toOption.map masksEffect)=
      some true := by decide
  obtain ⟨result,hresult,htrue⟩ := Option.map_eq_some_iff.mp hmasks
  have hran : (executeTask writeThenRead {} "g" (some "s") 5).1=.ok result := by
    cases hr : (executeTask writeThenRead {} "g" (some "s") 5).1 with
    | ok r =>
      rw [hr] at hresult
      exact congrArg Except.ok (Option.some.inj hresult)
    | error e =>
      rw [hr] at hresult
      cases hresult
  have hfalse := (hall ⟨writeThenRead,{},"g",some "s",5,result,hran⟩).not_masks
  rw [htrue] at hfalse
  cases hfalse

end AegisRuntime.AgentOutcomes
