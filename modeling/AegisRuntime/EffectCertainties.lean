import AegisRuntime.AgentRetries
import AegisRuntime.ContextWindows

/-!
# The certainty that a task reports, from its inputs

When `agent_outcome` understates the effects of a task, told by what the task meets:
the answers of the model, those of the dispatcher, the token, the deadlines and the
policy. The calls that a task makes are walked without its records and its outcome.
The reported certainty is wrong exactly when a call that the dispatcher refused is
followed by successes only, and a call that may act was dispatched in the same task.
-/

namespace AegisRuntime.EffectCertainties

open FailureRecords JsonValues AgentLoop AgentOutcomes AgentRecords AgentHalts AgentRetries
open ContextWindows

/-- Whether a deadline passes or the token fires before the dispatcher answers. -/
def overtaken (toolTimeout : Option ℕ) (met : AttemptConditions) : Bool :=
  toolTimeout.isSome && met.overdue || met.cancelledDuring

/-- Whether the dispatcher is asked and answers in time. -/
def inTime (toolTimeout : Option ℕ) (met : AttemptConditions) : Bool :=
  !met.cancelledBefore && !overtaken toolTimeout met

/-- Whether the dispatcher answers in time that the tool was unavailable, without effect. -/
def unreachable (toolTimeout : Option ℕ) (met : AttemptConditions) : Bool :=
  inTime toolTimeout met && match met.answer with
    | .ok _ => false
    | .error fault => decide (fault.cls=.unavailable) && decide (fault.certainty=.noEffect)

/-- A call that the model asks for, at its place in a task. -/
structure AskedCall where
  /-- The turn. -/
  turn : ℕ
  /-- Its position in the turn. -/
  position : ℕ
  /-- Identifier of the call. -/
  id : String
  /-- Name of the tool. -/
  name : String
  /-- The parsed arguments. -/
  arguments : JsonValue

namespace AskedCall

/-- Whether the tool of the call is listed as idempotent. -/
def idempotent (c : AskedCall) : Bool := (skillEffectProfile c.name).idempotent

/-- What an attempt of the call meets. -/
def met (env : AgentEnv) (c : AskedCall) (attempt : ℕ) : AttemptConditions :=
  env.attempt c.turn c.position attempt c.name c.arguments

/-- Number of the last attempt: the first that is not to be tried again, and at most
as many as the policy allows. -/
def lastAttempt (env : AgentEnv) (engine : AgentEngine) (c : AskedCall) : ℕ :=
  let bound := attemptBound engine.policy.retry
  ((List.range' 1 (bound-1)).find? fun k =>
    !(c.idempotent && unreachable engine.policy.toolTimeout (c.met env k))).getD bound

/-- What the last attempt meets. -/
def lastMet (env : AgentEnv) (engine : AgentEngine) (c : AskedCall) : AttemptConditions :=
  c.met env (c.lastAttempt env engine)

/-- What the agent takes from the last attempt. -/
def taken (env : AgentEnv) (engine : AgentEngine) (c : AskedCall) : Except ToolFault String :=
  attemptTool engine.policy.toolTimeout c.idempotent (c.lastMet env engine)

/-- Whether the task stops at the call. -/
def halts (env : AgentEnv) (engine : AgentEngine) (c : AskedCall) : Bool :=
  match c.taken env engine with
  | .ok _ => false
  | .error fault => (haltReason c.id fault.cls).isSome

/-- The message that answers the call. -/
def answer (env : AgentEnv) (engine : AgentEngine) (c : AskedCall) : JsonValue :=
  toolMessage c.id (match c.taken env engine with
    | .ok out => out
    | .error fault => redactPayloadEchoes fault.message c.arguments)

/-- The dispatcher answers the last attempt in time, with an output. -/
def Answered (env : AgentEnv) (engine : AgentEngine) (c : AskedCall) : Prop :=
  inTime engine.policy.toolTimeout (c.lastMet env engine)=true ∧
    ∃ out, (c.lastMet env engine).answer=.ok out

/-- The last attempt cannot have acted: the token had fired before it, or a deadline
or the token overtook a tool listed as idempotent, or the dispatcher answered in time
with a fault without effect that waits for no approval. -/
def Refused (env : AgentEnv) (engine : AgentEngine) (c : AskedCall) : Prop :=
  (c.lastMet env engine).cancelledBefore=true ∨
    overtaken engine.policy.toolTimeout (c.lastMet env engine)=true ∧ c.idempotent=true ∨
    overtaken engine.policy.toolTimeout (c.lastMet env engine)=false ∧
      ∃ fault, (c.lastMet env engine).answer=.error fault ∧ fault.certainty=.noEffect ∧
        fault.cls≠.approvalPending

/-- The call may act: its tool is not listed as idempotent, it is dispatched, and the
dispatcher does not answer in time that there was no effect. -/
def MayAct (env : AgentEnv) (engine : AgentEngine) (c : AskedCall) : Prop :=
  c.idempotent=false ∧ (c.met env 1).cancelledBefore=false ∧
    (overtaken engine.policy.toolTimeout (c.met env 1)=true ∨
      ∀ fault, (c.met env 1).answer=.error fault → fault.certainty≠.noEffect)

end AskedCall

/-- A call at its place in a turn. -/
def askedAt (env : AgentEnv) (turn position : ℕ) (tc : ToolCallItem) : AskedCall :=
  ⟨turn,position,tc.id,tc.name,callArguments env tc⟩

/-- The calls of a turn from a position on, up to the first that stops the task. -/
def callsAsked (env : AgentEnv) (engine : AgentEngine) (turn : ℕ) :
    ℕ → List ToolCallItem → List AskedCall
  | _,[] => []
  | position,tc::rest =>
    let c := askedAt env turn position tc
    c::if c.halts env engine then [] else callsAsked env engine turn (position+1) rest

/-- The calls of the turns from one on, with the messages before it. -/
def turnsAsked (env : AgentEnv) (engine : AgentEngine) : ℕ → ℕ → List JsonValue → List AskedCall
  | 0,_,_ => []
  | left+1,turn,messages =>
    let window := (pruneContextWindow messages DEFAULT_MAX_CONTEXT_TOKENS).1
    match env.infer turn window with
    | .error _ => []
    | .ok res =>
      let calls := res.toolCalls.getD []
      let asked := callsAsked env engine turn 0 calls
      asked++if calls.isEmpty || asked.any (AskedCall.halts env engine) then []
        else turnsAsked env engine left (turn+1)
          (window++[assistantMessage res.content calls]++asked.map (AskedCall.answer env engine))

/-- The calls of a task, in order. -/
def taskAsked (env : AgentEnv) (engine : AgentEngine) (goal : String)
    (systemOverride : Option String) (maxTurns : ℕ) : List AskedCall :=
  turnsAsked env engine maxTurns 1 (AgentState.initial (systemOf env systemOverride) goal).messages

/-- The last call of the task that is not answered is refused, and some call may act. -/
def RefusedLast (env : AgentEnv) (engine : AgentEngine) (asked : List AskedCall) : Prop :=
  (∃ before c after, asked=before++c::after ∧ c.Refused env engine ∧
    ∀ d∈after, d.Answered env engine) ∧ ∃ d∈asked, d.MayAct env engine

variable {env : AgentEnv} {engine : AgentEngine} {runId : String} {turn : ℕ} {c : AskedCall}
  {toolTimeout : Option ℕ} {idempotent : Bool} {met : AttemptConditions}

/-- What the agent takes from an attempt, by what it meets. -/
theorem attemptTool_eq (toolTimeout : Option ℕ) (idempotent : Bool) (met : AttemptConditions) :
    (met.cancelledBefore=true ∧ attemptTool toolTimeout idempotent met=
        .error ⟨.cancelled,.noEffect,"cancelled before dispatch"⟩) ∨
      (met.cancelledBefore=false ∧ overtaken toolTimeout met=true ∧
        ∃ fault, attemptTool toolTimeout idempotent met=.error fault ∧
          fault.certainty=(if idempotent then .noEffect else .uncertain) ∧
          (fault.cls=.timeout ∨ fault.cls=.cancelled)) ∨
      (met.cancelledBefore=false ∧ overtaken toolTimeout met=false ∧
        attemptTool toolTimeout idempotent met=met.answer) := by
  unfold attemptTool overtaken
  cases hbefore : met.cancelledBefore with
  | true => exact Or.inl ⟨rfl,rfl⟩
  | false =>
    refine Or.inr ?_
    cases toolTimeout with
    | none =>
      cases met.cancelledDuring with
      | true => exact Or.inl ⟨rfl,rfl,_,rfl,rfl,Or.inr rfl⟩
      | false => exact Or.inr ⟨rfl,rfl,rfl⟩
    | some d =>
      cases met.overdue with
      | true => exact Or.inl ⟨rfl,rfl,_,rfl,rfl,Or.inl rfl⟩
      | false =>
        cases met.cancelledDuring with
        | true => exact Or.inl ⟨rfl,rfl,_,rfl,rfl,Or.inr rfl⟩
        | false => exact Or.inr ⟨rfl,rfl,rfl⟩

/-- An attempt succeeds when the dispatcher answers in time with an output. -/
theorem attemptTool_ok_iff : (∃ out, attemptTool toolTimeout idempotent met=.ok out) ↔
    inTime toolTimeout met=true ∧ ∃ out, met.answer=.ok out := by
  unfold inTime
  rcases attemptTool_eq toolTimeout idempotent met with ⟨hb,h⟩|⟨hb,ho,fault,h,-⟩|⟨hb,ho,h⟩
  · simp [hb,h]
  · simp [hb,ho,h]
  · simp [hb,ho,h]

/-- A fault that is tried again comes from a dispatcher that could not reach the tool. -/
theorem attemptTool_unavailable_iff : (∃ fault, attemptTool toolTimeout idempotent met=.error fault ∧
    fault.cls=.unavailable ∧ fault.certainty=.noEffect) ↔ unreachable toolTimeout met=true := by
  unfold unreachable inTime
  rcases attemptTool_eq toolTimeout idempotent met with ⟨hb,h⟩|⟨hb,ho,fault,h,-,hcls⟩|⟨hb,ho,h⟩
  · simp [hb,h]
  · rcases hcls with hcls|hcls <;> simp [hb,ho,h,hcls]
  · cases ha : met.answer with
    | ok out => simp [hb,ho,h,ha]
    | error fault => simp [hb,ho,h,ha]

/-- Below the bound a transient fault is tried again. -/
theorem not_transient {policy : RetryPolicy} {fault : ToolFault} {attempt : ℕ}
    (h : retryEligibility fault.cls fault.certainty idempotent policy=.notRetryable)
    (hfirst : 1 ≤ attempt) (hlt : attempt < attemptBound policy) : ¬Transient idempotent fault := by
  rintro ⟨hcls,hcertainty,hidem⟩
  have hmany : 1 < min policy.maxAttempts MAX_ATTEMPTS_CEILING := by
    rw [attemptBound] at hlt
    omega
  unfold retryEligibility at h
  simp [hcls,hcertainty,hidem,hmany] at h

namespace AskedCall

/-- Whether another attempt follows one below the bound. -/
def again (env : AgentEnv) (engine : AgentEngine) (c : AskedCall) (k : ℕ) : Bool :=
  c.idempotent && unreachable engine.policy.toolTimeout (c.met env k)

/-- The last attempt is the first without another, or the one at the bound. -/
theorem lastAttempt_eq {last : ℕ} (hle : 1 ≤ last) (hbound : last ≤ attemptBound engine.policy.retry)
    (hagain : ∀ k, 1 ≤ k → k < last → c.again env engine k=true)
    (hstops : last < attemptBound engine.policy.retry → c.again env engine last=false) :
    c.lastAttempt env engine=last := by
  rw [lastAttempt]
  rcases Nat.eq_or_lt_of_le hbound with heq|hlt
  · have hnone : (List.range' 1 (attemptBound engine.policy.retry-1)).find?
        (fun k => !c.again env engine k)=none := by
      rw [List.find?_range'_eq_none]
      intro k hk hlt
      have hbelow : k < last := by omega
      simp [hagain k hk hbelow]
    have hfind := congrArg (fun found => Option.getD found (attemptBound engine.policy.retry)) hnone
    exact hfind.trans heq.symm
  · have hsome : (List.range' 1 (attemptBound engine.policy.retry-1)).find?
        (fun k => !c.again env engine k)=some last := by
      rw [List.find?_range'_eq_some]
      refine ⟨by simp [hstops hlt],?_,fun k hk hbelow => by simp [hagain k hk hbelow]⟩
      rw [List.mem_range'_1]
      omega
    have hfind := congrArg (fun found => Option.getD found (attemptBound engine.policy.retry)) hsome
    exact hfind

/-- A tool that is not listed as idempotent is dispatched once. -/
theorem lastAttempt_once (h : c.idempotent=false) : c.lastAttempt env engine=1 := by
  have hnone : ∀ k, c.again env engine k=false := fun k => by rw [again,h,Bool.false_and]
  refine lastAttempt_eq (Nat.le_refl 1) (le_max_left _ _) ?_ fun _ => hnone 1
  intro k hk hlt
  omega

/-- The retries of a call end with its last attempt. -/
theorem callEnd_eq (env : AgentEnv) (engine : AgentEngine) (c : AskedCall) :
    (callEnd env engine c.turn c.position c.name c.arguments).1=c.taken env engine := by
  have hretries := retryLoop_bounded engine.policy.retry c.idempotent
    (fun attempt => attemptTool engine.policy.toolTimeout c.idempotent (c.met env attempt))
    (fun attempt => ((c.met env attempt).createdAt,(c.met env attempt).failedAt))
  have hlast : c.lastAttempt env engine=attemptsMade _ :=
    lastAttempt_eq hretries.some hretries.bounded ?_ ?_
  · exact hretries.result.trans (by rw [taken,lastMet,hlast])
  · intro k hk hlt
    obtain ⟨fault,hfault,hcls,hcertainty,hidem⟩ := hretries.transient k hk hlt
    rw [again,hidem,attemptTool_unavailable_iff.mp ⟨fault,hfault,hcls,hcertainty⟩,Bool.and_true]
  · intro hlt
    by_contra hmore
    rw [Bool.not_eq_false,again,Bool.and_eq_true] at hmore
    obtain ⟨hidem,hunreachable⟩ := hmore
    obtain ⟨fault,hfault,hcls,hcertainty⟩ :=
      attemptTool_unavailable_iff.mpr hunreachable
    rcases hretries.early hlt with ⟨out,hok⟩|⟨fault',hfault',hstop⟩
    · cases hok.symm.trans hfault
    · cases hfault'.symm.trans hfault
      exact not_transient hstop hretries.some hlt ⟨hcls,hcertainty,hidem⟩

/-- An answered call is one with an output. -/
theorem answered_iff : c.Answered env engine ↔ ∃ out, c.taken env engine=.ok out :=
  attemptTool_ok_iff.symm

/-- A refused call is one that ends in a fault without effect and waits for no one. -/
theorem refused_iff : c.Refused env engine ↔ ∃ fault, c.taken env engine=.error fault ∧
    fault.cls≠.approvalPending ∧ fault.certainty=.noEffect := by
  unfold Refused taken
  rcases attemptTool_eq engine.policy.toolTimeout c.idempotent (c.lastMet env engine) with
    ⟨hb,h⟩|⟨hb,ho,fault,h,hcertainty,hcls⟩|⟨hb,ho,h⟩
  · simp [hb,h]
  · have hwaits : fault.cls≠.approvalPending := by
      rcases hcls with hcls|hcls <;> simp [hcls]
    cases hidem : c.idempotent with
    | true => simp [hb,ho,hidem ▸ h,hwaits,hcertainty,hidem]
    | false => simp [hb,ho,hidem ▸ h,hwaits,hcertainty,hidem]
  · simp [hb,ho,h,and_comm]

/-- A call may act exactly when its tool is not listed as idempotent and the call does not
end in a fault without effect. -/
theorem mayAct_iff : c.MayAct env engine ↔ c.idempotent=false ∧
    ∀ fault, c.taken env engine=.error fault → fault.certainty≠.noEffect := by
  refine and_congr_right fun hidem => ?_
  rw [taken,lastMet,lastAttempt_once hidem,hidem]
  rcases attemptTool_eq engine.policy.toolTimeout false (c.met env 1) with
    ⟨hb,h⟩|⟨hb,ho,fault,h,hcertainty,-⟩|⟨hb,ho,h⟩
  · simp [hb,h]
  · simp [hb,ho,h,hcertainty]
  · simp [hb,ho,h]

end AskedCall

/-- A record tells of a call. -/
def Tells (env : AgentEnv) (engine : AgentEngine) (c : AskedCall) (r : ToolExecutionRecord) : Prop :=
  r.toolName=c.name ∧ Reflects (c.taken env engine) r

/-- What one call leaves: its record, its message, and whether the task stops. -/
theorem runCall_asked (env : AgentEnv) (engine : AgentEngine) (runId : String) (turn : ℕ)
    (tc : ToolCallItem) {s : CallState} (hopen : s.halted=none) : ∃ r,
    Tells env engine (askedAt env turn s.records.length tc) r ∧
      (runCall env engine runId turn tc s).records=s.records++[r] ∧
      (runCall env engine runId turn tc s).messages=
        s.messages++[(askedAt env turn s.records.length tc).answer env engine] ∧
      (runCall env engine runId turn tc s).halted.isSome=
        (askedAt env turn s.records.length tc).halts env engine := by
  have hend := AskedCall.callEnd_eq env engine (askedAt env turn s.records.length tc)
  have hhalted := runCall_halted env engine runId turn tc hopen
  obtain ⟨r,hrecords,hr⟩ := runCall_records env engine runId turn tc s
  obtain ⟨-,hname,hargs,-⟩ := runCall_record hrecords
  rw [hname,hargs] at hr
  refine ⟨r,⟨hname,hend ▸ hr⟩,hrecords,?_,?_⟩
  · rw [AskedCall.answer,←hend]
    rfl
  · rw [hhalted,AskedCall.halts,←hend]
    cases hcall : (callEnd env engine turn s.records.length tc.name (callArguments env tc)).1 with
    | ok out => simp [askedAt,hcall,Interaction.halts]
    | error fault => simp [askedAt,hcall,Interaction.halts,haltReason_isSome]

/-- What the calls of a turn leave: their records, their messages, and whether the task
stops. -/
theorem runCalls_asked (env : AgentEnv) (engine : AgentEngine) (runId : String) (turn : ℕ)
    (calls : List ToolCallItem) {s : CallState} (hopen : s.halted=none) : ∃ records,
    List.Forall₂ (Tells env engine) (callsAsked env engine turn s.records.length calls) records ∧
      (runCalls env engine runId turn calls s).records=s.records++records ∧
      (runCalls env engine runId turn calls s).messages=s.messages++
        (callsAsked env engine turn s.records.length calls).map (AskedCall.answer env engine) ∧
      (runCalls env engine runId turn calls s).halted.isSome=
        (callsAsked env engine turn s.records.length calls).any (AskedCall.halts env engine) := by
  induction calls generalizing s with
  | nil =>
    rw [runCalls,callsAsked,hopen]
    exact ⟨[],List.Forall₂.nil,(List.append_nil _).symm,(List.append_nil _).symm,rfl⟩
  | cons tc rest ih =>
    obtain ⟨r,htells,hrecords,hmessages,hhalted⟩ := runCall_asked env engine runId turn tc hopen
    rw [runCalls,callsAsked]
    cases hnext : (runCall env engine runId turn tc s).halted with
    | some reason =>
      rw [hnext] at hhalted
      refine ⟨[r],?_,?_,?_,?_⟩
      · simpa [←hhalted] using htells
      · simpa [hnext] using hrecords
      · simpa [hnext,←hhalted] using hmessages
      · simp [hnext,←hhalted]
    | none =>
      obtain ⟨records,hrest,hrecords',hmessages',hhalted'⟩ := ih hnext
      rw [hnext] at hhalted
      have hlength : (runCall env engine runId turn tc s).records.length=s.records.length+1 := by
        rw [hrecords,List.length_append,List.length_singleton]
      rw [hlength] at hrest hmessages' hhalted'
      refine ⟨r::records,?_,?_,?_,?_⟩
      · simpa [←hhalted] using ⟨htells,hrest⟩
      · simp [hrecords',hrecords]
      · simp [hmessages',hmessages,←hhalted]
      · simpa [←hhalted] using hhalted'

/-- What a turn with calls leaves. -/
theorem toolTurn_asked (env : AgentEnv) (engine : AgentEngine) (runId : String) (turn : ℕ)
    (res : ChatTurnResponse) (calls : List ToolCallItem) (s : AgentState) : ∃ records,
    List.Forall₂ (Tells env engine) (callsAsked env engine turn 0 calls) records ∧
      (toolTurn env engine runId turn res calls s).1.steps=
        s.steps++[⟨turn,res.reasoning,records⟩] ∧
      (toolTurn env engine runId turn res calls s).1.messages=
        s.messages++[assistantMessage res.content calls]++
          (callsAsked env engine turn 0 calls).map (AskedCall.answer env engine) ∧
      (toolTurn env engine runId turn res calls s).2.isSome=
        (callsAsked env engine turn 0 calls).any (AskedCall.halts env engine) := by
  have hopen : (callsBegin res calls s).halted=none := rfl
  obtain ⟨records,htells,hrecords,hmessages,hhalted⟩ :=
    runCalls_asked env engine runId turn calls hopen
  refine ⟨records,htells,?_,hmessages,hhalted⟩
  have hsteps : (toolTurn env engine runId turn res calls s).1.steps=s.steps++
      [⟨turn,res.reasoning,(runCalls env engine runId turn calls (callsBegin res calls s)).records⟩] :=
    rfl
  rw [hsteps,hrecords]
  rfl

/-- The calls of the turns from one on are the ones that the loop makes: their records come
after the earlier ones. -/
theorem agentLoop_asked (env : AgentEnv) (engine : AgentEngine) (runId : String)
    (left turn : ℕ) (s : AgentState) : ∃ records,
    List.Forall₂ (Tells env engine) (turnsAsked env engine left turn s.messages) records ∧
      (agentLoop env engine runId left turn s).2.steps.flatMap AgentStep.toolCalls=
        s.steps.flatMap AgentStep.toolCalls++records := by
  induction left generalizing turn s with
  | zero => exact ⟨[],List.Forall₂.nil,(List.append_nil _).symm⟩
  | succ left ih =>
    rw [agentLoop,turnsAsked]
    simp only []
    rw [←begunTurn]
    cases env.infer turn (pruneContextWindow s.messages DEFAULT_MAX_CONTEXT_TOKENS).1 with
    | error e => exact ⟨[],List.Forall₂.nil,(List.append_nil _).symm⟩
    | ok res =>
      simp only []
      cases res.toolCalls.getD [] with
      | nil => exact ⟨[],List.Forall₂.nil,by simp⟩
      | cons tc rest =>
        obtain ⟨records,htells,hsteps,hmessages,hhalted⟩ :=
          toolTurn_asked env engine runId turn res (tc::rest) (begunTurn turn s)
        have hrecords : (toolTurn env engine runId turn res (tc::rest)
            (begunTurn turn s)).1.steps.flatMap AgentStep.toolCalls=
              s.steps.flatMap AgentStep.toolCalls++records := by
          rw [hsteps]
          simp [begunTurn]
        simp only [List.isEmpty_cons,Bool.false_or]
        rw [←hhalted]
        cases hafter : (toolTurn env engine runId turn res (tc::rest) (begunTurn turn s)).2 with
        | some reason => exact ⟨records,by simpa using htells,hrecords⟩
        | none =>
          obtain ⟨more,hmore,hloop⟩ := ih (turn+1)
            (toolTurn env engine runId turn res (tc::rest) (begunTurn turn s)).1
          rw [hmessages] at hmore
          refine ⟨records++more,List.rel_append htells hmore,?_⟩
          simp only []
          rw [hloop,hrecords,List.append_assoc]

/-- The calls of a task are those with a record, in order. -/
theorem taskAsked_tells (run : AgentRun) : List.Forall₂ (Tells run.env run.engine)
    (taskAsked run.env run.engine run.goal run.systemOverride run.maxTurns)
    (allCalls run.result) := by
  obtain ⟨s,hloop,hsteps,-⟩ := executeTask_ok run.ran
  obtain ⟨records,htells,hrecords⟩ := agentLoop_asked run.env run.engine
    (runIdOf run.env run.engine) run.maxTurns 1 (startOf run.env run.goal run.systemOverride)
  rw [hloop] at hrecords
  rw [allCalls,hsteps,hrecords]
  exact htells

/-- What a call failed with, as far as the outcome of a task looks at it. -/
def AskedCall.failed (env : AgentEnv) (engine : AgentEngine) (c : AskedCall) :
    Option (FailureClass×EffectCertainty) :=
  match c.taken env engine with
  | .ok _ => none
  | .error fault => some (fault.cls,fault.certainty)

/-- A write that is answered and then a refused read. -/
example : ((taskAsked writeThenRead {} "g" (some "s") 5).map fun c =>
    (c.name,c.failed writeThenRead {}))=
      [("write_file",none),("read_file",some (.failed,.noEffect))] := by decide

/-- The class and the certainty of a record. -/
def classified (f : FailureRecord) : FailureClass×EffectCertainty := (f.cls,f.effectCertainty)

theorem Tells.failed {r : ToolExecutionRecord} (h : Tells env engine c r) :
    r.failure.map classified=c.failed env engine := by
  obtain ⟨-,hr⟩ := h
  rw [AskedCall.failed]
  cases htaken : c.taken env engine with
  | ok out =>
    rw [htaken] at hr
    simp [hr.2]
  | error fault =>
    rw [htaken] at hr
    obtain ⟨-,f,hf,hcls,hcertainty⟩ := hr
    simp [hf,classified,hcls,hcertainty]

/-- A record leaves room for an effect exactly when its call may act. -/
theorem Tells.mayAct {r : ToolExecutionRecord} (h : Tells env engine c r) :
    mayHaveActed r=true ↔ c.MayAct env engine := by
  rw [←Bool.not_eq_false,mayHaveActed_eq_false_iff h.2,AskedCall.mayAct_iff,AskedCall.idempotent,
    h.1]
  cases c.taken env engine <;> simp

/-- The last failure that the records of calls tell is the one of the last call that fails. -/
theorem lastFailure_asked {asked : List AskedCall} {records : List ToolExecutionRecord}
    (h : List.Forall₂ (Tells env engine) asked records) :
    (records.filterMap ToolExecutionRecord.failure).getLast?.map classified=
      asked.reverse.findSome? (AskedCall.failed env engine) := by
  have hsame : (records.filterMap ToolExecutionRecord.failure).map classified=
      asked.filterMap (AskedCall.failed env engine) := by
    induction h with
    | nil => rfl
    | cons hr _ ih =>
      rw [List.map_filterMap] at ih ⊢
      rw [List.filterMap_cons,List.filterMap_cons,hr.failed,ih]
  rw [←List.getLast?_filterMap,←hsame,List.getLast?_map]

/-- The last call that fails does so without effect and waits for no one exactly when a
refused call is followed by answered ones only. -/
theorem lastFailed_iff (env : AgentEnv) (engine : AgentEngine) (asked : List AskedCall) :
    (∃ failed, asked.reverse.findSome? (AskedCall.failed env engine)=some failed ∧
      failed.1≠.approvalPending ∧ failed.2=.noEffect) ↔
      ∃ before c after, asked=before++c::after ∧ c.Refused env engine ∧
        ∀ d∈after, d.Answered env engine := by
  have hnone : ∀ d : AskedCall, d.failed env engine=none ↔ d.Answered env engine := by
    intro d
    rw [AskedCall.answered_iff,AskedCall.failed]
    cases d.taken env engine <;> simp
  have hsome : ∀ d : AskedCall, (∃ failed, d.failed env engine=some failed ∧
      failed.1≠.approvalPending ∧ failed.2=.noEffect) ↔ d.Refused env engine := by
    intro d
    rw [AskedCall.refused_iff,AskedCall.failed]
    cases d.taken env engine <;> simp
  constructor
  · rintro ⟨failed,hlast,hfailed⟩
    obtain ⟨after,c,before,hsplit,hc,hafter⟩ := List.findSome?_eq_some_iff.mp hlast
    refine ⟨before.reverse,c,after.reverse,?_,(hsome c).mp ⟨failed,hc,hfailed⟩,fun d hd => ?_⟩
    · rw [←List.reverse_reverse asked,hsplit]
      simp
    · exact (hnone d).mp (hafter d (List.mem_reverse.mp hd))
  · rintro ⟨before,c,after,rfl,hc,hafter⟩
    obtain ⟨failed,hfailed,hquiet⟩ := (hsome c).mpr hc
    refine ⟨failed,List.findSome?_eq_some_iff.mpr ?_,hquiet⟩
    refine ⟨after.reverse,c,before.reverse,by simp,hfailed,fun d hd => ?_⟩
    exact (hnone d).mpr (hafter d (List.mem_reverse.mp hd))

/-- The last failure of a run hides a call that may have acted exactly when the last call
that is not answered is refused and some call may act. -/
theorem masksEffect_asked (run : AgentRun) : masksEffect run.result=true ↔
    RefusedLast run.env run.engine
      (taskAsked run.env run.engine run.goal run.systemOverride run.maxTurns) := by
  have htells := taskAsked_tells run
  rw [masksEffect_iff,claimsNoEffect_iff,RefusedLast,←lastFailed_iff,←lastFailure_asked htells]
  refine and_congr ?_ ?_
  · rw [lastFailure]
    cases ((allCalls run.result).filterMap ToolExecutionRecord.failure).getLast? <;>
      simp [classified]
  · constructor
    · rintro ⟨r,hr,hacted⟩
      obtain ⟨c,hc,hcr⟩ := exists_of_forall₂ htells hr
      exact ⟨c,hc,hcr.mayAct.mp hacted⟩
    · rintro ⟨c,hc,hacts⟩
      obtain ⟨r,hr,hcr⟩ := exists_of_forall₂ htells.flip hc
      exact ⟨r,hr,Tells.mayAct hcr |>.mpr hacts⟩

/-- The reported certainty is not understated exactly when it is not so that the last call
of the task that is not answered is refused while some call may act: a condition on the
answers of the model and the dispatcher, the token, the deadlines and the policy. -/
theorem effect_not_understated_iff (run : AgentRun) : EffectNotUnderstated run ↔
    ¬RefusedLast run.env run.engine
      (taskAsked run.env run.engine run.goal run.systemOverride run.maxTurns) := by
  rw [not_understated_iff,←masksEffect_asked,Bool.not_eq_true]

end AegisRuntime.EffectCertainties
