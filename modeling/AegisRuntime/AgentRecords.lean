import AegisRuntime.AgentOutcomes

/-!
# The failure records of an agent run

What `retry_loop` returns, the records a call leaves of its failed attempts, and
what the loops over calls and turns keep of them: the numbers run on from one
without gaps, a record names the failed call right before its own, and an
attached bus was told of exactly these records in this order.
-/

namespace AegisRuntime.AgentRecords

open JsonValues FailureRecords AgentLoop AgentOutcomes

variable {policy : RetryPolicy} {idempotent : Bool} {attemptFn : ℕ → Except ToolFault String}
  {clock : ℕ → ℤ×ℤ} {env : AgentEnv} {engine : AgentEngine} {runId : String} {turn : ℕ}
  {tc : ToolCallItem} {s : CallState}

/-- A call ends after its failed attempts: the next attempt succeeds, or the last
of them is final. -/
def EndsAfter (attemptFn : ℕ → Except ToolFault String) (failed : ℕ) :
    Except ToolFault String → Prop
  | .ok out => attemptFn (failed+1)=.ok out
  | .error fault => 0 < failed ∧ attemptFn failed=.error fault

/-- Failed attempts of a call in order. -/
structure FailedInOrder (attemptFn : ℕ → Except ToolFault String) (failures : List AttemptFailure) :
    Prop where
  /-- They are numbered from one without gaps. -/
  numbered : failures.map AttemptFailure.attempt=List.range' 1 failures.length
  /-- Each of them failed with the fault noted. -/
  failed : ∀ a∈failures, attemptFn a.attempt=.error a.fault

theorem FailedInOrder.concat {failures : List AttemptFailure} (h : FailedInOrder attemptFn failures)
    {a : AttemptFailure} (hnext : a.attempt=failures.length+1)
    (hfailed : attemptFn a.attempt=.error a.fault) : FailedInOrder attemptFn (failures++[a]) := by
  constructor
  · rw [List.map_append,h.numbered,List.length_append,List.length_singleton,List.range'_concat]
    simp [hnext,Nat.add_comm]
  · intro b hb
    rcases List.mem_append.mp hb with hb|hb
    · exact h.failed b hb
    · rw [List.mem_singleton.mp hb]
      exact hfailed

/-- The call may end with a failed attempt. -/
theorem FailedInOrder.final {failures : List AttemptFailure} (h : FailedInOrder attemptFn failures)
    {a : AttemptFailure} (hnext : a.attempt=failures.length+1)
    (hfailed : attemptFn a.attempt=.error a.fault) :
    FailedInOrder attemptFn (failures++[a]) ∧
      EndsAfter attemptFn (failures++[a]).length (.error a.fault) := by
  refine ⟨h.concat hnext hfailed,?_⟩
  rw [List.length_append,List.length_singleton,←hnext]
  exact ⟨by omega,hfailed⟩

/-- The retry loop returns every failed attempt in order, and the call ended
after them. -/
theorem retryFrom_ends (fuel : ℕ) {failures : List AttemptFailure}
    (h : FailedInOrder attemptFn failures) {attempt : ℕ} (hnext : attempt=failures.length+1) :
    FailedInOrder attemptFn (retryFrom policy idempotent attemptFn clock fuel attempt failures).2 ∧
      EndsAfter attemptFn
        (retryFrom policy idempotent attemptFn clock fuel attempt failures).2.length
        (retryFrom policy idempotent attemptFn clock fuel attempt failures).1 := by
  induction fuel generalizing failures attempt with
  | zero =>
    rw [retryFrom]
    cases hr : attemptFn attempt with
    | ok v => exact ⟨h,hnext ▸ hr⟩
    | error fault => exact h.final (a:=⟨attempt,fault,_,_⟩) hnext hr
  | succ fuel ih =>
    rw [retryFrom]
    cases hr : attemptFn attempt with
    | ok v => exact ⟨h,hnext ▸ hr⟩
    | error fault =>
      simp only []
      split
      · refine ih (h.concat hnext hr) ?_
        rw [List.length_append,List.length_singleton,hnext]
      · exact h.final (a:=⟨attempt,fault,_,_⟩) hnext hr

/-- The attempts of a call by their number. -/
def attempts (env : AgentEnv) (engine : AgentEngine) (turn position : ℕ) (name : String)
    (args : JsonValue) (attempt : ℕ) : Except ToolFault String :=
  attemptTool engine.policy.toolTimeout (skillEffectProfile name).idempotent
    (env.attempt turn position attempt name args)

/-- A call ends after its failed attempts. -/
theorem callEnd_ends (env : AgentEnv) (engine : AgentEngine) (turn position : ℕ) (name : String)
    (args : JsonValue) :
    FailedInOrder (attempts env engine turn position name args)
        (callEnd env engine turn position name args).2 ∧
      EndsAfter (attempts env engine turn position name args)
        (callEnd env engine turn position name args).2.length
        (callEnd env engine turn position name args).1 := by
  have hnone : FailedInOrder (attempts env engine turn position name args) [] := ⟨rfl,nofun⟩
  exact retryFrom_ends MAX_ATTEMPTS_CEILING hnone rfl

/-- The records of a call: its failed attempts, the terminal one last. -/
def callRecords (c : ToolExecutionRecord) : List FailureRecord := c.retryFailures++c.failure.toList

/-- All failure records of a run, call by call. -/
def allRecords (result : AgentExecutionResult) : List FailureRecord :=
  (allCalls result).flatMap callRecords

/-- A call that failed is named by the records of the next one. -/
def failedCall (c : ToolExecutionRecord) : Option String := if c.success then none else some c.callId

/-- What an attached bus is told of the records. -/
def publishedOf (engine : AgentEngine) (runId : String) (records : List FailureRecord) :
    List StepFailedEvent :=
  match engine.events with
  | some sessionId => records.map fun f => ⟨f,sessionId,runId,f.sequence⟩
  | none => []

theorem publishedOf_append (engine : AgentEngine) (runId : String) (xs ys : List FailureRecord) :
    publishedOf engine runId (xs++ys)=publishedOf engine runId xs++publishedOf engine runId ys := by
  unfold publishedOf
  split
  · exact List.map_append
  · rfl

/-- A stamped record carries the number, the call and the parent it is given and
the attempt it is made of. -/
theorem stampFailure_eq (env : AgentEnv) (runId : String) (turn : ℕ) (tc : ToolCallItem)
    (args : JsonValue) (parent : Option String) (sequence : ℕ) (a : AttemptFailure) :
    ∃ cause truncated, stampFailure env runId turn tc args parent sequence a=
      ⟨sequence,runId,turn,tc.id,parent,tc.name,a.attempt,a.fault.cls,a.fault.certainty,
        a.createdAt,a.failedAt,cause,truncated⟩ :=
  FailureRecord.pushCause_eq _ _ _ _ _

/-- Stamping keeps what does not depend on the number. -/
theorem stampFailures_map {β : Type} {args : JsonValue} {parent : Option String}
    (g : FailureRecord → β) (k : AttemptFailure → β)
    (hg : ∀ sequence a, g (stampFailure env runId turn tc args parent sequence a)=k a)
    (failureSeq : ℕ) (failures : List AttemptFailure) :
    (stampFailures env runId turn tc args parent failureSeq failures).map g=failures.map k := by
  induction failures generalizing failureSeq with
  | nil => rfl
  | cons a rest ih => rw [stampFailures,List.map_cons,List.map_cons,hg,ih]

/-- Stamping numbers on from the failures before. -/
theorem stampFailures_sequence {args : JsonValue} {parent : Option String} (failureSeq : ℕ)
    (failures : List AttemptFailure) :
    (stampFailures env runId turn tc args parent failureSeq failures).map FailureRecord.sequence=
      List.range' (failureSeq+1) failures.length := by
  induction failures generalizing failureSeq with
  | nil => rfl
  | cons a rest ih =>
    obtain ⟨cause,truncated,hstamp⟩ := stampFailure_eq env runId turn tc args parent (failureSeq+1) a
    rw [stampFailures,List.map_cons,ih,hstamp,List.length_cons,List.range'_succ]

theorem length_stampFailures {args : JsonValue} {parent : Option String} (failureSeq : ℕ)
    (failures : List AttemptFailure) :
    (stampFailures env runId turn tc args parent failureSeq failures).length=failures.length := by
  induction failures generalizing failureSeq with
  | nil => rfl
  | cons a rest ih => rw [stampFailures,List.length_cons,List.length_cons,ih]

theorem mem_stampFailures {args : JsonValue} {parent : Option String} {failureSeq : ℕ}
    {failures : List AttemptFailure} {f : FailureRecord}
    (h : f∈stampFailures env runId turn tc args parent failureSeq failures) :
    ∃ sequence, ∃ a∈failures, stampFailure env runId turn tc args parent sequence a=f := by
  induction failures generalizing failureSeq with
  | nil => cases h
  | cons a rest ih =>
    rw [stampFailures] at h
    rcases List.mem_cons.mp h with rfl|h
    · exact ⟨_,a,List.mem_cons_self,rfl⟩
    · obtain ⟨sequence,b,hb,hf⟩ := ih h
      exact ⟨sequence,b,List.mem_cons_of_mem a hb,hf⟩

/-- A list is its front and its last element. -/
theorem dropLast_append_toList {α : Type} (xs : List α) : xs.dropLast++xs.getLast?.toList=xs := by
  cases xs using List.reverseRecOn with
  | nil => rfl
  | append_singleton xs x => rw [List.dropLast_concat,List.getLast?_concat,Option.toList_some]

/-- The record of a call carries its identifier, its tool and its arguments, and
its failure records are the stamped ones. -/
theorem runCall_record {r : ToolExecutionRecord}
    (h : (runCall env engine runId turn tc s).records=s.records++[r]) :
    r.callId=tc.id ∧ r.toolName=tc.name ∧ r.arguments=callArguments env tc ∧
      callRecords r=stampFailures env runId turn tc (callArguments env tc) s.lastFailedCall
        s.failureSeq
        (callEnd env engine turn s.records.length tc.name (callArguments env tc)).2 ∧
      (runCall env engine runId turn tc s).lastFailedCall=failedCall r := by
  obtain ⟨-,heq⟩ := List.append_inj' h rfl
  rw [List.cons.injEq] at heq
  rw [←heq.1]
  cases hend : (callEnd env engine turn s.records.length tc.name (callArguments env tc)).1 with
  | ok out =>
    refine ⟨rfl,rfl,rfl,?_,?_⟩
    · exact List.append_nil _
    · rw [runCall]
      simp only [hend]
      rfl
  | error fault =>
    refine ⟨rfl,rfl,rfl,?_,?_⟩
    · exact dropLast_append_toList _
    · rw [runCall]
      simp only [hend]
      rfl

/-- What the loops carry from call to call: the calls so far, the number of the
last failure, the call before when it failed, and the published events. -/
structure Progress where
  /-- The calls so far. -/
  calls : List ToolExecutionRecord
  /-- Number of the last failure. -/
  failureSeq : ℕ
  /-- The call before, when it failed. -/
  lastFailedCall : Option String
  /-- The published events. -/
  published : List StepFailedEvent

/-- The progress inside a turn, after the calls of earlier turns. -/
def callProgress (earlier : List ToolExecutionRecord) (s : CallState) : Progress :=
  ⟨earlier++s.records,s.failureSeq,s.lastFailedCall,s.published⟩

/-- The progress between turns. -/
def turnProgress (s : AgentState) : Progress :=
  ⟨s.steps.flatMap AgentStep.toolCalls,s.failureSeq,s.lastFailedCall,s.published⟩

/-- The progress after one more call. -/
def Progress.add (engine : AgentEngine) (runId : String) (p : Progress) (r : ToolExecutionRecord) :
    Progress :=
  ⟨p.calls++[r],p.failureSeq+(callRecords r).length,failedCall r,
    p.published++publishedOf engine runId (callRecords r)⟩

/-- The records of a call follow on what came before it. -/
structure Follows (p : Progress) (r : ToolExecutionRecord) : Prop where
  /-- They are numbered on from the last failure. -/
  sequences : (callRecords r).map FailureRecord.sequence=
    List.range' (p.failureSeq+1) (callRecords r).length
  /-- They name the call before if it failed. -/
  parents : ∀ f∈callRecords r, f.parentCallId=p.lastFailedCall

/-- A call adds a record that follows on. -/
theorem runCall_adds (env : AgentEnv) (engine : AgentEngine) (runId : String) (turn : ℕ)
    (tc : ToolCallItem) (earlier : List ToolExecutionRecord) (s : CallState) :
    ∃ r, Follows (callProgress earlier s) r ∧
      callProgress earlier (runCall env engine runId turn tc s)=
        (callProgress earlier s).add engine runId r := by
  obtain ⟨r,hrecords,-⟩ := runCall_records env engine runId turn tc s
  obtain ⟨-,-,-,hstamped,hlast⟩ := runCall_record hrecords
  refine ⟨r,⟨?_,?_⟩,?_⟩
  · rw [hstamped,stampFailures_sequence,length_stampFailures]
    rfl
  · intro f hf
    rw [hstamped] at hf
    obtain ⟨sequence,a,-,rfl⟩ := mem_stampFailures hf
    obtain ⟨cause,truncated,hstamp⟩ := stampFailure_eq env runId turn tc (callArguments env tc)
      s.lastFailedCall sequence a
    rw [hstamp]
    rfl
  · have hpublished : (runCall env engine runId turn tc s).published=
        s.published++publishedOf engine runId (callRecords r) := by
      rw [hstamped]
      rfl
    have hseq : (runCall env engine runId turn tc s).failureSeq=
        s.failureSeq+(callRecords r).length := by
      rw [hstamped]
      rfl
    rw [callProgress,hrecords,hlast,hpublished,hseq,←List.append_assoc]
    rfl

/-- What holds of the progress between any two calls. -/
structure Recorded (engine : AgentEngine) (runId : String) (p : Progress) : Prop where
  /-- The records are numbered from one without gaps. -/
  sequences : (p.calls.flatMap callRecords).map FailureRecord.sequence=List.range' 1 p.failureSeq
  /-- The call before is remembered when it failed. -/
  last : p.lastFailedCall=p.calls.getLast?.bind failedCall
  /-- A record names the call right before its own if that one failed. -/
  parents : ∀ before c after, p.calls=before++c::after →
    ∀ f∈callRecords c, f.parentCallId=before.getLast?.bind failedCall
  /-- An attached bus was told of exactly the records, in order. -/
  published : p.published=publishedOf engine runId (p.calls.flatMap callRecords)

/-- One more call keeps it. -/
theorem Recorded.add {p : Progress} {r : ToolExecutionRecord} (h : Recorded engine runId p)
    (hr : Follows p r) : Recorded engine runId (p.add engine runId r) := by
  have hrecords : (p.calls++[r]).flatMap callRecords=p.calls.flatMap callRecords++callRecords r := by
    simp
  refine ⟨?_,?_,?_,?_⟩
  · simp only [Progress.add]
    rw [hrecords,List.map_append,h.sequences,hr.sequences,Nat.add_comm p.failureSeq 1,
      List.range'_append_1]
  · simp only [Progress.add]
    rw [List.getLast?_concat]
    rfl
  · intro before c after hcalls f hf
    simp only [Progress.add] at hcalls
    cases after using List.reverseRecOn with
    | nil =>
      obtain ⟨rfl,hc⟩ := List.append_inj' hcalls rfl
      rw [List.cons.injEq] at hc
      rw [←hc.1] at hf
      rw [hr.parents f hf,h.last]
    | append_singleton after x _ =>
      rw [←List.cons_append,←List.append_assoc] at hcalls
      obtain ⟨hbefore,-⟩ := List.append_inj' hcalls rfl
      exact h.parents before c after hbefore f hf
  · simp only [Progress.add]
    rw [hrecords,publishedOf_append,h.published]

theorem runCalls_recorded {earlier : List ToolExecutionRecord} (calls : List ToolCallItem)
    (h : Recorded engine runId (callProgress earlier s)) :
    Recorded engine runId (callProgress earlier (runCalls env engine runId turn calls s)) := by
  induction calls generalizing s with
  | nil => exact h
  | cons tc rest ih =>
    obtain ⟨r,hr,hadd⟩ := runCall_adds env engine runId turn tc earlier s
    have hnext : Recorded engine runId
        (callProgress earlier (runCall env engine runId turn tc s)) := by
      rw [hadd]
      exact h.add hr
    rw [runCalls]
    split
    · exact hnext
    · exact ih hnext

/-- A turn with tool calls keeps it. -/
theorem toolTurn_recorded {res : ChatTurnResponse} {calls : List ToolCallItem} {s : AgentState}
    (h : Recorded engine runId (turnProgress s)) :
    Recorded engine runId (turnProgress (toolTurn env engine runId turn res calls s).1) := by
  let begun : CallState := ⟨s.messages++[assistantMessage res.content calls],[],s.failureSeq,
    s.lastFailedCall,none,s.published⟩
  have hbegun : Recorded engine runId (callProgress (s.steps.flatMap AgentStep.toolCalls) begun) := by
    rw [callProgress,List.append_nil]
    exact h
  have hdone : Recorded engine runId (callProgress (s.steps.flatMap AgentStep.toolCalls)
    (runCalls env engine runId turn calls begun)) := runCalls_recorded calls hbegun
  simpa [turnProgress,toolTurn,callProgress] using hdone

/-- The turns of a task keep it. -/
theorem agentLoop_recorded (left turn : ℕ) (s : AgentState)
    (h : Recorded engine runId (turnProgress s)) :
    Recorded engine runId (turnProgress (agentLoop env engine runId left turn s).2) := by
  induction left generalizing turn s with
  | zero => exact h
  | succ left ih =>
    rw [agentLoop]
    simp only []
    split
    · exact h
    · split
      · simpa [turnProgress] using h
      · split
        · exact toolTurn_recorded h
        · exact ih (turn+1) _ (toolTurn_recorded h)

/-- The identifier of the run. -/
def runIdentifier (run : AgentRun) : String := runIdOf run.env run.engine

/-- The events published on the bus of the run. -/
def publishedEvents (run : AgentRun) : List StepFailedEvent :=
  (executeTask run.env run.engine run.goal run.systemOverride run.maxTurns).2

/-- The attempts of the call at a position of a turn, by their number. -/
def attemptsOf (run : AgentRun) (step : AgentStep) (position : ℕ) (r : ToolExecutionRecord) :
    ℕ → Except ToolFault String :=
  attempts run.env run.engine step.stepIndex position r.toolName r.arguments

/-- A failure record tells of the attempt of its number, which failed. -/
structure TellsOf (attemptFn : ℕ → Except ToolFault String) (r : ToolExecutionRecord)
    (f : FailureRecord) : Prop where
  /-- It names the call and its tool. -/
  call : f.toolCallId=r.callId ∧ f.toolName=r.toolName
  /-- It has the class and the certainty of the fault. -/
  fault : ∃ fault, attemptFn f.attempt=.error fault ∧ f.cls=fault.cls ∧
    f.effectCertainty=fault.certainty

/-- The records of a call tell of its failed attempts, which are all but a last
successful one. -/
structure TellsAll (attemptFn : ℕ → Except ToolFault String) (ended : Except ToolFault String)
    (r : ToolExecutionRecord) : Prop where
  /-- They are numbered by attempt. -/
  numbered : (callRecords r).map FailureRecord.attempt=List.range' 1 (callRecords r).length
  /-- Each of them tells of its attempt. -/
  tells : ∀ f∈callRecords r, TellsOf attemptFn r f
  /-- The call ended after them. -/
  ended : EndsAfter attemptFn (callRecords r).length ended
  /-- A call succeeded exactly when it has no terminal failure. -/
  success : r.success=true ↔ r.failure=none

/-- The failure of a call that reflects its end is absent exactly on success. -/
theorem success_iff {ended : Except ToolFault String} {r : ToolExecutionRecord}
    (h : Reflects ended r) : r.success=true ↔ r.failure=none := by
  cases ended with
  | ok out => exact ⟨fun _ => h.2,fun _ => h.1⟩
  | error fault =>
    obtain ⟨hfail,f,hf,-⟩ := h
    rw [hfail,hf]
    exact ⟨nofun,nofun⟩

/-- Every call leaves records that tell of its failed attempts. -/
theorem runCall_tells {r : ToolExecutionRecord}
    (h : (runCall env engine runId turn tc s).records=s.records++[r]) :
    TellsAll (attempts env engine turn s.records.length r.toolName r.arguments)
      (callEnd env engine turn s.records.length r.toolName r.arguments).1 r := by
  obtain ⟨hid,hname,hargs,hstamped,-⟩ := runCall_record h
  obtain ⟨r',hrecords,hreflects⟩ := runCall_records env engine runId turn tc s
  rw [h] at hrecords
  obtain ⟨-,⟨⟩⟩ := List.append_inj' hrecords rfl
  obtain ⟨hfailed,hends⟩ := callEnd_ends env engine turn s.records.length tc.name
    (callArguments env tc)
  have hlength := congrArg List.length hstamped
  rw [length_stampFailures] at hlength
  rw [hname,hargs] at hreflects ⊢
  refine ⟨?_,?_,?_,success_iff hreflects⟩
  · rw [hlength,←hfailed.numbered,hstamped]
    refine stampFailures_map _ _ (fun sequence a => ?_) _ _
    obtain ⟨cause,truncated,hstamp⟩ := stampFailure_eq env runId turn tc (callArguments env tc)
      s.lastFailedCall sequence a
    rw [hstamp]
  · intro f hf
    rw [hstamped] at hf
    obtain ⟨sequence,a,ha,rfl⟩ := mem_stampFailures hf
    obtain ⟨cause,truncated,hstamp⟩ := stampFailure_eq env runId turn tc (callArguments env tc)
      s.lastFailedCall sequence a
    rw [hstamp]
    exact ⟨⟨hid.symm,hname.symm⟩,a.fault,hfailed.failed a ha,rfl,rfl⟩
  · rw [hlength]
    exact hends

/-- Failure provenance of a run: the records, call by call, are numbered from one
without gaps; within a call they are its failed attempts in order, and the call
succeeded exactly when it has no terminal failure; a record names the call right
before its own if that one failed; and an attached bus was told of exactly these
records in this order under their numbers. -/
theorem provenance_complete (run : AgentRun) :
    (allRecords run.result).map FailureRecord.sequence=
        List.range' 1 (allRecords run.result).length ∧
      (∀ step∈run.result.steps, ∀ position r, step.toolCalls[position]?=some r →
        TellsAll (attemptsOf run step position r) (run.endOf step position r) r) ∧
      (∀ before c after, allCalls run.result=before++c::after →
        ∀ f∈callRecords c, f.parentCallId=before.getLast?.bind failedCall) ∧
      ∀ sessionId, run.engine.events=some sessionId → publishedEvents run=
        (allRecords run.result).map fun f => ⟨f,sessionId,runIdentifier run,f.sequence⟩ := by
  obtain ⟨s,hloop,hsteps,-,hpublished⟩ := executeTask_ok run.ran
  have hstart : Recorded run.engine (runIdentifier run)
      (turnProgress (startOf run.env run.goal run.systemOverride)) := by
    refine ⟨rfl,rfl,?_,?_⟩
    · intro before c after hcalls
      simp [turnProgress,startOf,AgentState.initial] at hcalls
    · unfold publishedOf
      split <;> rfl
  have hend : Recorded run.engine (runIdentifier run) (turnProgress (agentLoop run.env run.engine
      (runIdentifier run) run.maxTurns 1 (startOf run.env run.goal run.systemOverride)).2) :=
    agentLoop_recorded run.maxTurns 1 _ hstart
  rw [runIdentifier,hloop] at hend
  have hcalls : (turnProgress s).calls=allCalls run.result := by
    rw [allCalls,hsteps]
    rfl
  have hsequences := hend.sequences
  have hcount := congrArg List.length hsequences
  rw [List.length_map,List.length_range',hcalls] at hcount
  rw [hcalls,←hcount] at hsequences
  refine ⟨hsequences,?_,?_,?_⟩
  · exact executeTask_atEach (P:=fun turn position r => TellsAll
      (attempts run.env run.engine turn position r.toolName r.arguments)
      (callEnd run.env run.engine turn position r.toolName r.arguments).1 r)
      (fun turn tc s r h => runCall_tells h) run.ran
  · rw [←hcalls]
    exact hend.parents
  · intro sessionId hbus
    have hevents := hend.published
    rw [publishedOf,hbus,hcalls] at hevents
    rw [publishedEvents,hpublished]
    exact hevents

end AegisRuntime.AgentRecords
