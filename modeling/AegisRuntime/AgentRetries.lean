import AegisRuntime.AgentHalts

/-!
# Bounds on retries

Which attempts `retry_loop` makes, why it makes another one and why it stops, and
what follows for the dispatches of a whole run: the call at a position of a turn
is dispatched at most as often as it made attempts, and only once unless its tool
is listed as idempotent.
-/

namespace AegisRuntime.AgentRetries

open FailureRecords JsonValues AgentLoop AgentRecords AgentHalts

variable {policy : RetryPolicy} {idempotent : Bool} {attemptFn : ℕ → Except ToolFault String}
  {clock : ℕ → ℤ×ℤ} {env : AgentEnv} {engine : AgentEngine} {runId : String} {turn : ℕ}

/-- The numbers with which the loop of `retry_loop` calls `attempt_fn`, from an
attempt on. -/
def attemptCalls (policy : RetryPolicy) (idempotent : Bool)
    (attemptFn : ℕ → Except ToolFault String) : ℕ → ℕ → List ℕ
  | 0,attempt => [attempt]
  | fuel+1,attempt =>
    match attemptFn attempt with
    | .ok _ => [attempt]
    | .error fault =>
      if triesAgain policy idempotent fault attempt then
        attempt::attemptCalls policy idempotent attemptFn fuel (attempt+1)
      else [attempt]

/-- The most attempts a policy allows. -/
def attemptBound (policy : RetryPolicy) : ℕ := max 1 (min policy.maxAttempts MAX_ATTEMPTS_CEILING)

/-- A fault after which another attempt may be made. -/
def Transient (idempotent : Bool) (fault : ToolFault) : Prop :=
  fault.cls=.unavailable ∧ fault.certainty=.noEffect ∧ idempotent=true

theorem retryEligibility_eq (policy : RetryPolicy) (idempotent : Bool) (fault : ToolFault) :
    retryEligibility fault.cls fault.certainty idempotent policy=.notRetryable ∨
      Transient idempotent fault ∧ 1 < min policy.maxAttempts MAX_ATTEMPTS_CEILING ∧
        retryEligibility fault.cls fault.certainty idempotent policy=
          .retryable (min policy.maxAttempts MAX_ATTEMPTS_CEILING) := by
  unfold retryEligibility
  simp only []
  split
  · next h =>
    simp only [Bool.and_eq_true,decide_eq_true_eq] at h
    exact Or.inr ⟨⟨h.1.1.1,h.1.1.2,h.1.2⟩,h.2,rfl⟩
  · exact Or.inl rfl

/-- Another attempt is made after a transient fault below the bound. -/
theorem triesAgain_of_true {fault : ToolFault} {attempt : ℕ}
    (h : triesAgain policy idempotent fault attempt=true) :
    Transient idempotent fault ∧ attempt < attemptBound policy := by
  unfold triesAgain at h
  rcases retryEligibility_eq policy idempotent fault with hno|⟨htransient,-,hyes⟩
  · rw [hno] at h
    cases h
  · rw [hyes] at h
    have hlt : attempt < min policy.maxAttempts MAX_ATTEMPTS_CEILING := of_decide_eq_true h
    exact ⟨htransient,lt_of_lt_of_le hlt (le_max_right _ _)⟩

/-- The loop stops below the bound only on a fault that is not retryable. -/
theorem triesAgain_of_false {fault : ToolFault} {attempt : ℕ}
    (h : triesAgain policy idempotent fault attempt=false) (hlt : attempt < attemptBound policy) :
    retryEligibility fault.cls fault.certainty idempotent policy=.notRetryable := by
  unfold triesAgain at h
  rcases retryEligibility_eq policy idempotent fault with hno|⟨-,hmany,hyes⟩
  · exact hno
  · rw [hyes] at h
    have hge := of_decide_eq_false h
    rw [attemptBound,max_eq_right hmany.le] at hlt
    exact absurd hlt hge

/-- The failed attempt of a number, if the attempt failed. -/
def failedAttempt (attemptFn : ℕ → Except ToolFault String) (clock : ℕ → ℤ×ℤ) (attempt : ℕ) :
    Option AttemptFailure :=
  match attemptFn attempt with
  | .ok _ => none
  | .error fault => some ⟨attempt,fault,(clock attempt).1,(clock attempt).2⟩

/-- What the loop has done when it returns, from an attempt on. -/
structure RetriesUpTo (policy : RetryPolicy) (idempotent : Bool)
    (attemptFn : ℕ → Except ToolFault String) (clock : ℕ → ℤ×ℤ) (attempt : ℕ)
    (failures : List AttemptFailure) (calls : List ℕ)
    (done : Except ToolFault String×List AttemptFailure) (last : ℕ) : Prop where
  /-- The last attempt is not before the first. -/
  le : attempt ≤ last
  /-- The attempts are made one after the other. -/
  inOrder : calls=List.range' attempt (last+1-attempt)
  /-- The attempts before the last one failed and were tried again. -/
  again : ∀ k, attempt ≤ k → k < last → ∃ fault, attemptFn k=.error fault ∧
    triesAgain policy idempotent fault k=true
  /-- The last one succeeded or was not tried again. -/
  stops : ∀ fault, attemptFn last=.error fault → triesAgain policy idempotent fault last=false
  /-- Its result is returned. -/
  result : done.1=attemptFn last
  /-- So are the failed attempts. -/
  noted : done.2=failures++calls.filterMap (failedAttempt attemptFn clock)
  /-- The attempts made are the earlier failures and the ones up to the last. -/
  made : attemptsMade done+attempt=failures.length+last+1

/-- The loop ends with an attempt. -/
theorem RetriesUpTo.once (clock : ℕ → ℤ×ℤ) {attempt : ℕ} (failures : List AttemptFailure)
    (hstop : ∀ fault, attemptFn attempt=.error fault →
      triesAgain policy idempotent fault attempt=false) :
    RetriesUpTo policy idempotent attemptFn clock attempt failures [attempt]
      (attemptFn attempt,failures++[attempt].filterMap (failedAttempt attemptFn clock))
      attempt := by
  refine ⟨Nat.le_refl _,?_,fun k hle hlt => absurd hlt (Nat.not_lt.mpr hle),hstop,rfl,rfl,?_⟩
  · rw [Nat.add_sub_cancel_left]
    rfl
  · cases hr : attemptFn attempt with
    | ok v => simp [attemptsMade,failedAttempt,hr]; omega
    | error fault => simp [attemptsMade,failedAttempt,hr]; omega

/-- A result that is not tried again ends the loop, with any fuel. -/
theorem retryFrom_stop (clock : ℕ → ℤ×ℤ) (fuel : ℕ) {attempt : ℕ} (failures : List AttemptFailure)
    (hstop : ∀ fault, attemptFn attempt=.error fault →
      triesAgain policy idempotent fault attempt=false) :
    attemptCalls policy idempotent attemptFn fuel attempt=[attempt] ∧
      retryFrom policy idempotent attemptFn clock fuel attempt failures=
        (attemptFn attempt,failures++[attempt].filterMap (failedAttempt attemptFn clock)) := by
  cases hr : attemptFn attempt with
  | ok v => cases fuel <;> simp [attemptCalls,retryFrom,failedAttempt,hr]
  | error fault =>
    have hfinal := hstop fault hr
    cases fuel <;> simp [attemptCalls,retryFrom,failedAttempt,hr,hfinal]

/-- The loop goes on after an attempt. -/
theorem RetriesUpTo.cons {attempt last : ℕ} {failures : List AttemptFailure} {calls : List ℕ}
    {done : Except ToolFault String×List AttemptFailure} {fault : ToolFault}
    (hfailed : attemptFn attempt=.error fault)
    (hagain : triesAgain policy idempotent fault attempt=true)
    (h : RetriesUpTo policy idempotent attemptFn clock (attempt+1)
      (failures++[⟨attempt,fault,(clock attempt).1,(clock attempt).2⟩]) calls done last) :
    RetriesUpTo policy idempotent attemptFn clock attempt failures (attempt::calls) done last := by
  have hle := h.le
  refine ⟨by omega,?_,?_,h.stops,h.result,?_,?_⟩
  · rw [h.inOrder,←List.range'_succ]
    congr 1
    omega
  · intro k hk hlt
    rcases Nat.eq_or_lt_of_le hk with rfl|hk
    · exact ⟨fault,hfailed,hagain⟩
    · exact h.again k hk hlt
  · have hnoted : failedAttempt attemptFn clock attempt=
        some ⟨attempt,fault,(clock attempt).1,(clock attempt).2⟩ := by
      rw [failedAttempt,hfailed]
    rw [h.noted,List.append_assoc,List.filterMap_cons_some hnoted]
    rfl
  · have hmade := h.made
    rw [List.length_append,List.length_singleton] at hmade
    omega

/-- What the loop does from an attempt on, with enough fuel left. -/
theorem retryFrom_upTo (policy : RetryPolicy) (idempotent : Bool)
    (attemptFn : ℕ → Except ToolFault String) (clock : ℕ → ℤ×ℤ) (fuel attempt : ℕ)
    (failures : List AttemptFailure) (hfuel : MAX_ATTEMPTS_CEILING ≤ attempt+fuel) :
    ∃ last, RetriesUpTo policy idempotent attemptFn clock attempt failures
      (attemptCalls policy idempotent attemptFn fuel attempt)
      (retryFrom policy idempotent attemptFn clock fuel attempt failures) last := by
  induction fuel generalizing attempt failures with
  | zero =>
    have hstop : ∀ fault, attemptFn attempt=.error fault →
        triesAgain policy idempotent fault attempt=false := by
      intro fault _
      by_contra hagain
      have hlt := attempt_lt_of_triesAgain (Bool.not_eq_false _ ▸ hagain)
      omega
    obtain ⟨hcalls,hdone⟩ := retryFrom_stop clock 0 failures hstop
    rw [hcalls,hdone]
    exact ⟨attempt,RetriesUpTo.once clock failures hstop⟩
  | succ fuel ih =>
    by_cases hmore : ∃ fault, attemptFn attempt=.error fault ∧
        triesAgain policy idempotent fault attempt=true
    · obtain ⟨fault,hr,hagain⟩ := hmore
      obtain ⟨last,hlast⟩ := ih (attempt+1)
        (failures++[⟨attempt,fault,(clock attempt).1,(clock attempt).2⟩]) (by omega)
      rw [attemptCalls,retryFrom,hr]
      simp only [hagain,if_true]
      exact ⟨last,hlast.cons hr hagain⟩
    · have hstop : ∀ fault, attemptFn attempt=.error fault →
          triesAgain policy idempotent fault attempt=false := by
        intro fault hr
        exact Bool.eq_false_iff.mpr fun hagain => hmore ⟨fault,hr,hagain⟩
      obtain ⟨hcalls,hdone⟩ := retryFrom_stop clock (fuel+1) failures hstop
      rw [hcalls,hdone]
      exact ⟨attempt,RetriesUpTo.once clock failures hstop⟩

/-- Whether the exchange is a dispatch of the call at a position of a turn. -/
def dispatches (turn position : ℕ) : Interaction → Bool
  | .dispatch turn' position' _ => turn'==turn && position'==position
  | _ => false

/-- How often the call at a position of a turn is dispatched. -/
def dispatchCount (turn position : ℕ) (trace : List Interaction) : ℕ :=
  trace.countP (dispatches turn position)

theorem dispatchCount_append (turn position : ℕ) (xs ys : List Interaction) :
    dispatchCount turn position (xs++ys)=
      dispatchCount turn position xs+dispatchCount turn position ys :=
  List.countP_append

/-- Exchanges without a dispatch of the call do not count. -/
theorem dispatchCount_eq_zero {turn position : ℕ} {trace : List Interaction}
    (h : ∀ attempt, Interaction.dispatch turn position attempt∉trace) :
    dispatchCount turn position trace=0 := by
  rw [dispatchCount,List.countP_eq_zero]
  intro i hi hcounts
  cases i with
  | request | callEnded => cases hcounts
  | dispatch turn' position' attempt =>
    rw [dispatches,Bool.and_eq_true,beq_iff_eq,beq_iff_eq] at hcounts
    rw [hcounts.1,hcounts.2] at hi
    exact h attempt hi

/-- A call dispatches at its own place only. -/
theorem place_of_callTrace {t p k : ℕ} (h : .dispatch t p k∈callTrace env engine turn tc s) :
    t=turn ∧ p=s.records.length := by
  rcases List.mem_append.mp h with h|h
  · obtain ⟨attempt,-,heq⟩ := List.mem_map.mp h
    cases heq
    exact ⟨rfl,rfl⟩
  · cases List.mem_singleton.mp h

/-- A call is dispatched at most as often as it made attempts. -/
theorem dispatchCount_callTrace (env : AgentEnv) (engine : AgentEngine) (turn : ℕ)
    (tc : ToolCallItem) (s : CallState) :
    dispatchCount turn s.records.length (callTrace env engine turn tc s) ≤
      attemptsMade (callEnd env engine turn s.records.length tc.name (callArguments env tc)) := by
  have hended : ∀ ended, dispatchCount turn s.records.length
      [.callEnded turn s.records.length ended]=0 := fun ended => rfl
  rw [callTrace,dispatchCount_append,hended,Nat.add_zero]
  refine List.countP_le_length.trans ?_
  rw [List.length_map]
  refine (List.length_filter_le _ _).trans ?_
  rw [List.length_range']

/-- The exchanges of the calls of a turn from a position on, and the records they
leave. -/
structure CallsDispatched (env : AgentEnv) (engine : AgentEngine) (turn first : ℕ)
    (records : List ToolExecutionRecord) (trace : List Interaction) : Prop where
  /-- Every dispatch is one of a call with a record. -/
  place : ∀ t p k, .dispatch t p k∈trace → t=turn ∧ first ≤ p ∧ p < records.length
  /-- A call is dispatched at most as often as it made attempts. -/
  count : ∀ p r, first ≤ p → records[p]?=some r → dispatchCount turn p trace ≤
    attemptsMade (callEnd env engine turn p r.toolName r.arguments)

/-- The records of a turn begin with the ones before. -/
theorem runCalls_extends (env : AgentEnv) (engine : AgentEngine) (runId : String) (turn : ℕ)
    (calls : List ToolCallItem) (s : CallState) :
    s.records<+:(runCalls env engine runId turn calls s).records := by
  induction calls generalizing s with
  | nil => exact List.prefix_refl _
  | cons tc rest ih =>
    obtain ⟨r,hrecords,-⟩ := runCall_records env engine runId turn tc s
    have hcall : s.records<+:(runCall env engine runId turn tc s).records := by
      rw [hrecords]
      exact List.prefix_append _ _
    rw [runCalls]
    split
    · exact hcall
    · exact hcall.trans (ih _)

/-- One more call before the others. -/
theorem CallsDispatched.cons {records : List ToolExecutionRecord} {r : ToolExecutionRecord}
    {trace : List Interaction} (hcall : (runCall env engine runId turn tc s).records=s.records++[r])
    (hbegins : s.records++[r]<+:records)
    (h : CallsDispatched env engine turn (s.records.length+1) records trace) :
    CallsDispatched env engine turn s.records.length records
      (callTrace env engine turn tc s++trace) := by
  obtain ⟨-,hname,hargs,-⟩ := runCall_record hcall
  have hlength := hbegins.length_le
  rw [List.length_append,List.length_singleton] at hlength
  constructor
  · intro t p k hk
    rcases List.mem_append.mp hk with hk|hk
    · obtain ⟨ht,hp⟩ := place_of_callTrace hk
      exact ⟨ht,by omega,by omega⟩
    · obtain ⟨ht,hp,hlt⟩ := h.place t p k hk
      exact ⟨ht,by omega,hlt⟩
  · intro p r' hp hget
    rw [dispatchCount_append]
    rcases Nat.eq_or_lt_of_le hp with rfl|hlt
    · have hnone : dispatchCount turn s.records.length trace=0 := by
        refine dispatchCount_eq_zero fun k hk => ?_
        have hlater := (h.place _ _ k hk).2.1
        omega
      have hr : r'=r := by
        have hfirst := List.prefix_iff_getElem?.mp hbegins s.records.length (by simp)
        rw [hget] at hfirst
        simpa using hfirst
      rw [hnone,Nat.add_zero,hr,hname,hargs]
      exact dispatchCount_callTrace env engine turn tc s
    · have hnone : dispatchCount turn p (callTrace env engine turn tc s)=0 := by
        refine dispatchCount_eq_zero fun k hk => ?_
        have hplace := (place_of_callTrace hk).2
        omega
      rw [hnone,Nat.zero_add]
      exact h.count p r' hlt hget

/-- What the calls of a turn dispatch. -/
theorem callsTrace_dispatched (calls : List ToolCallItem) (s : CallState) :
    CallsDispatched env engine turn s.records.length
      (runCalls env engine runId turn calls s).records
      (callsTrace env engine runId turn calls s) := by
  induction calls generalizing s with
  | nil =>
    refine ⟨fun t p k hk => absurd hk List.not_mem_nil,fun p r hp hget => Nat.zero_le _⟩
  | cons tc rest ih =>
    obtain ⟨r,hrecords,-⟩ := runCall_records env engine runId turn tc s
    have hlength : (runCall env engine runId turn tc s).records.length=s.records.length+1 := by
      rw [hrecords,List.length_append,List.length_singleton]
    have hrest := ih (runCall env engine runId turn tc s)
    have hbegins := runCalls_extends env engine runId turn rest
      (runCall env engine runId turn tc s)
    rw [hlength] at hrest
    rw [hrecords] at hbegins
    rw [callsTrace,runCalls]
    split
    · refine CallsDispatched.cons hrecords ?_ ⟨fun t p k hk => ?_,fun p r' hp hget => Nat.zero_le _⟩
      · rw [hrecords]
      · cases hk
    · exact hrest.cons hrecords hbegins

/-- The exchanges of the turns from a turn on, and the steps they leave. -/
structure TurnsDispatched (env : AgentEnv) (engine : AgentEngine) (turn : ℕ)
    (steps : List AgentStep) (trace : List Interaction) : Prop where
  /-- The steps are numbered from the turn on. -/
  later : ∀ step∈steps, turn ≤ step.stepIndex
  /-- No two of them have the same number. -/
  numbered : (steps.map AgentStep.stepIndex).Nodup
  /-- Every dispatch is one of a call with a record. -/
  place : ∀ t p k, .dispatch t p k∈trace →
    ∃ step∈steps, step.stepIndex=t ∧ p < step.toolCalls.length
  /-- A call is dispatched at most as often as it made attempts. -/
  count : ∀ step∈steps, ∀ p r, step.toolCalls[p]?=some r →
    dispatchCount step.stepIndex p trace ≤
      attemptsMade (callEnd env engine step.stepIndex p r.toolName r.arguments)

/-- The exchanges of one turn before those of later ones. -/
theorem TurnsDispatched.cons {steps : List AgentStep} {step : AgentStep}
    {first rest : List Interaction} (hstep : step.stepIndex=turn)
    (hfirst : CallsDispatched env engine turn 0 step.toolCalls first)
    (h : TurnsDispatched env engine (turn+1) steps rest) :
    TurnsDispatched env engine turn (step::steps) (.request turn::(first++rest)) := by
  have hsplit : ∀ t p, dispatchCount t p (.request turn::(first++rest))=
      dispatchCount t p first+dispatchCount t p rest := by
    intro t p
    rw [←List.singleton_append,dispatchCount_append,dispatchCount_append]
    exact Nat.zero_add _
  constructor
  · intro step' hmem
    rcases List.mem_cons.mp hmem with rfl|hmem
    · exact hstep.ge
    · exact Nat.le_of_succ_le (h.later step' hmem)
  · rw [List.map_cons,List.nodup_cons]
    refine ⟨fun hmem => ?_,h.numbered⟩
    obtain ⟨step',hmem,heq⟩ := List.mem_map.mp hmem
    have hlater := h.later step' hmem
    omega
  · intro t p k hk
    rcases List.mem_append.mp ((List.mem_cons.mp hk).resolve_left (by simp)) with hk|hk
    · obtain ⟨ht,-,hp⟩ := hfirst.place t p k hk
      exact ⟨step,List.mem_cons_self,hstep.trans ht.symm,hp⟩
    · obtain ⟨step',hmem,ht,hp⟩ := h.place t p k hk
      exact ⟨step',List.mem_cons_of_mem step hmem,ht,hp⟩
  · intro step' hmem p r hget
    rw [hsplit]
    rcases List.mem_cons.mp hmem with rfl|hmem
    · have hnone : dispatchCount step'.stepIndex p rest=0 := by
        refine dispatchCount_eq_zero fun k hk => ?_
        obtain ⟨later,hlater,ht,-⟩ := h.place _ p k hk
        have hle := h.later later hlater
        omega
      rw [hnone,Nat.add_zero,hstep]
      exact hfirst.count p r (Nat.zero_le p) hget
    · have hnone : dispatchCount step'.stepIndex p first=0 := by
        refine dispatchCount_eq_zero fun k hk => ?_
        have ht := (hfirst.place _ p k hk).1
        have hle := h.later step' hmem
        omega
      rw [hnone,Nat.zero_add]
      exact h.count step' hmem p r hget

/-- A turn that dispatches nothing. -/
theorem TurnsDispatched.idle (env : AgentEnv) (engine : AgentEngine) (turn : ℕ)
    {steps : List AgentStep} {trace : List Interaction}
    (hsteps : ∀ step∈steps, step.stepIndex=turn) (hshort : steps.length ≤ 1)
    (htrace : ∀ i∈trace, i=.request turn) : TurnsDispatched env engine turn steps trace := by
  have hquiet : ∀ t p k, .dispatch t p k∉trace := by
    intro t p k hk
    cases htrace _ hk
  refine ⟨fun step hstep => (hsteps step hstep).ge,?_,fun t p k hk => absurd hk (hquiet t p k),?_⟩
  · rw [List.nodup_iff_count_le_one]
    intro t
    refine List.count_le_length.trans ?_
    rw [List.length_map]
    exact hshort
  · intro step hstep p r hget
    rw [dispatchCount_eq_zero (hquiet step.stepIndex p)]
    exact Nat.zero_le _

/-- What the turns dispatch. -/
theorem loopTrace_dispatched (env : AgentEnv) (engine : AgentEngine) (runId : String)
    (left turn : ℕ) (s : AgentState) :
    ∃ steps, (agentLoop env engine runId left turn s).2.steps=s.steps++steps ∧
      TurnsDispatched env engine turn steps (loopTrace env engine runId left turn s) := by
  induction left generalizing turn s with
  | zero =>
    refine ⟨[],(List.append_nil _).symm,?_⟩
    exact TurnsDispatched.idle env engine turn (List.forall_mem_nil _) (Nat.zero_le _)
      (List.forall_mem_nil _)
  | succ left ih =>
    have hrequest : ∀ i∈[Interaction.request turn], i=.request turn := fun i hi =>
      List.mem_singleton.mp hi
    have hcalls : ∀ (res : ChatTurnResponse) (calls : List ToolCallItem),
        ∃ step : AgentStep, step.stepIndex=turn ∧
          (toolTurn env engine runId turn res calls (begunTurn turn s)).1.steps=s.steps++[step] ∧
          CallsDispatched env engine turn 0 step.toolCalls (callsTrace env engine runId turn calls
            (callsBegin res calls (begunTurn turn s))) := fun res calls =>
      ⟨_,rfl,rfl,callsTrace_dispatched calls (callsBegin res calls (begunTurn turn s))⟩
    have hcase := turn_cases env engine runId left turn s
    generalize agentLoop env engine runId (left+1) turn s=loop at hcase ⊢
    generalize loopTrace env engine runId (left+1) turn s=trace at hcase ⊢
    cases hcase with
    | fails e =>
      refine ⟨[],(List.append_nil _).symm,?_⟩
      exact TurnsDispatched.idle env engine turn (List.forall_mem_nil _) (Nat.zero_le _) hrequest
    | answers res =>
      refine ⟨[⟨turn,res.reasoning,[]⟩],rfl,?_⟩
      exact TurnsDispatched.idle env engine turn (by simp) (by simp) hrequest
    | halts res calls reason halted =>
      obtain ⟨step,hindex,hsteps,hfirst⟩ := hcalls res calls
      refine ⟨[step],hsteps,?_⟩
      have hnone := TurnsDispatched.idle env engine (turn+1) (List.forall_mem_nil _)
        (Nat.zero_le _) (List.forall_mem_nil _)
      have hturn := hnone.cons hindex hfirst
      rw [List.append_nil] at hturn
      exact hturn
    | goesOn res calls quiet =>
      obtain ⟨step,hindex,hsteps,hfirst⟩ := hcalls res calls
      obtain ⟨steps,hmore,hrest⟩ := ih (turn+1)
        (toolTurn env engine runId turn res calls (begunTurn turn s)).1
      refine ⟨step::steps,?_,hrest.cons hindex hfirst⟩
      rw [hmore,hsteps,List.append_assoc,List.singleton_append]

/-- The steps of a task, also of one whose model fails on the way. -/
def taskSteps (env : AgentEnv) (engine : AgentEngine) (goal : String)
    (systemOverride : Option String) (maxTurns : ℕ) : List AgentStep :=
  (agentLoop env engine (runIdOf env engine) maxTurns 1 (startOf env goal systemOverride)).2.steps

/-- `retry_loop` as a whole: how many attempts it makes, why it makes another one,
why it stops early, and what it returns. -/
structure BoundedRetries (policy : RetryPolicy) (idempotent : Bool)
    (attemptFn : ℕ → Except ToolFault String) (clock : ℕ → ℤ×ℤ)
    (done : Except ToolFault String×List AttemptFailure) (made : ℕ) : Prop where
  /-- The attempts are made one after the other, numbered from one on. -/
  calls : attemptCalls policy idempotent attemptFn MAX_ATTEMPTS_CEILING 1=List.range' 1 made
  /-- There is at least one. -/
  some : 1 ≤ made
  /-- There are no more than the policy allows. -/
  bounded : made ≤ attemptBound policy
  /-- Every attempt before the last one failed with a transient fault. -/
  transient : ∀ k, 1 ≤ k → k < made → ∃ fault, attemptFn k=.error fault ∧
    Transient idempotent fault
  /-- Below the bound only a success or a fault that is not retryable ends the loop. -/
  early : made < attemptBound policy → (∃ out, attemptFn made=.ok out) ∨
    ∃ fault, attemptFn made=.error fault ∧
      retryEligibility fault.cls fault.certainty idempotent policy=.notRetryable
  /-- The result of the last attempt is returned. -/
  result : done.1=attemptFn made
  /-- So are exactly the failed attempts in order, -/
  failures : done.2=(List.range' 1 made).filterMap (failedAttempt attemptFn clock)
  /-- which are numbered from one on. -/
  numbered : done.2.map AttemptFailure.attempt=List.range' 1 done.2.length

theorem retryLoop_bounded (policy : RetryPolicy) (idempotent : Bool)
    (attemptFn : ℕ → Except ToolFault String) (clock : ℕ → ℤ×ℤ) :
    BoundedRetries policy idempotent attemptFn clock
      (retryLoop policy idempotent attemptFn clock)
      (attemptsMade (retryLoop policy idempotent attemptFn clock)) := by
  obtain ⟨last,h⟩ := retryFrom_upTo policy idempotent attemptFn clock MAX_ATTEMPTS_CEILING 1 []
    (Nat.le_add_left _ _)
  have hmade : attemptsMade (retryLoop policy idempotent attemptFn clock)=last := by
    have hcount := h.made
    rw [List.length_nil,Nat.zero_add] at hcount
    exact Nat.succ.inj hcount
  have hcalls := h.inOrder
  rw [Nat.add_sub_cancel] at hcalls
  have hnone : FailedInOrder attemptFn [] := ⟨rfl,List.forall_mem_nil _⟩
  have hordered : FailedInOrder attemptFn (retryLoop policy idempotent attemptFn clock).2 :=
    (retryFrom_ends MAX_ATTEMPTS_CEILING hnone rfl).1
  rw [hmade]
  refine ⟨hcalls,h.le,?_,?_,?_,h.result,?_,hordered.numbered⟩
  · by_contra hover
    rw [Nat.not_le] at hover
    have hpos : 1 ≤ attemptBound policy := le_max_left _ _
    obtain ⟨fault,-,hagain⟩ := h.again (attemptBound policy) hpos hover
    exact absurd (triesAgain_of_true hagain).2 (Nat.lt_irrefl _)
  · intro k hk hlt
    obtain ⟨fault,hfailed,hagain⟩ := h.again k hk hlt
    exact ⟨fault,hfailed,(triesAgain_of_true hagain).1⟩
  · intro hlt
    cases hr : attemptFn last with
    | ok out => exact Or.inl ⟨out,rfl⟩
    | error fault => exact Or.inr ⟨fault,rfl,triesAgain_of_false (h.stops fault hr) hlt⟩
  · rw [←hcalls]
    exact h.noted

/-- Retries are bounded, and safe in their effects. Of every policy, idempotence
and sequence of attempt results, `retry_loop` makes at most as many attempts as the
policy and the ceiling allow, each but the last failed with a transient fault of an
idempotent call, and it returns the last result and the failed attempts. In every
task, each dispatch is one of a call with a record, and a call whose tool is not
listed as idempotent is dispatched at most once. -/
theorem retries_bounded_and_safe :
    (∀ (policy : RetryPolicy) (idempotent : Bool) (attemptFn : ℕ → Except ToolFault String)
      (clock : ℕ → ℤ×ℤ), BoundedRetries policy idempotent attemptFn clock
        (retryLoop policy idempotent attemptFn clock)
        (attemptsMade (retryLoop policy idempotent attemptFn clock))) ∧
      ∀ (env : AgentEnv) (engine : AgentEngine) (goal : String) (systemOverride : Option String)
        (maxTurns : ℕ),
        (∀ result, (executeTask env engine goal systemOverride maxTurns).1=.ok result →
          result.steps=taskSteps env engine goal systemOverride maxTurns) ∧
        ((taskSteps env engine goal systemOverride maxTurns).map AgentStep.stepIndex).Nodup ∧
        (∀ turn position attempt,
          .dispatch turn position attempt∈taskTrace env engine goal systemOverride maxTurns →
          ∃ step∈taskSteps env engine goal systemOverride maxTurns, step.stepIndex=turn ∧
            position < step.toolCalls.length) ∧
        ∀ step∈taskSteps env engine goal systemOverride maxTurns, ∀ position r,
          step.toolCalls[position]?=some r → (skillEffectProfile r.toolName).idempotent=false →
          dispatchCount step.stepIndex position
            (taskTrace env engine goal systemOverride maxTurns) ≤ 1 := by
  refine ⟨retryLoop_bounded,fun env engine goal systemOverride maxTurns => ?_⟩
  obtain ⟨steps,hsteps,hturns⟩ := loopTrace_dispatched env engine (runIdOf env engine)
    maxTurns 1 (startOf env goal systemOverride)
  have htask : taskSteps env engine goal systemOverride maxTurns=steps := hsteps
  rw [htask]
  refine ⟨fun result hran => ?_,hturns.numbered,hturns.place,?_⟩
  · obtain ⟨s,hloop,hresult,-⟩ := executeTask_ok hran
    rw [hresult,←htask,taskSteps,hloop]
  · intro step hstep position r hget hmutating
    refine (hturns.count step hstep position r hget).trans ?_
    have hretries := retryLoop_bounded engine.policy.retry
      (skillEffectProfile r.toolName).idempotent
      (attempts env engine step.stepIndex position r.toolName r.arguments)
      (fun attempt => ((env.attempt step.stepIndex position attempt r.toolName
        r.arguments).createdAt,
        (env.attempt step.stepIndex position attempt r.toolName r.arguments).failedAt))
    by_contra hmany
    obtain ⟨fault,-,htransient⟩ := hretries.transient 1 (Nat.le_refl 1) (Nat.not_le.mp hmany)
    rw [htransient.2.2] at hmutating
    cases hmutating

end AegisRuntime.AgentRetries
