import AegisRuntime.AgentRecords

/-!
# Halts of an agent run

What a run asks of its surroundings, in order: model requests, dispatches of
attempts, and the ends of calls. A call that ends waiting for approval or
cancelled is the last thing in that order, the run then returns without a final
answer, and the outcome of the run tells the approval and never a success.
-/

namespace AegisRuntime.AgentHalts

open JsonValues FailureRecords AgentLoop AgentOutcomes AgentRecords WorkflowLedger

variable {env : AgentEnv} {engine : AgentEngine} {runId : String} {turn : ℕ}
  {tc : ToolCallItem} {s : CallState}

/-- One exchange of a run with its surroundings. -/
inductive Interaction where
  /-- The model is asked in a turn. -/
  | request (turn : ℕ)
  /-- An attempt of the call at a position of a turn is dispatched. -/
  | dispatch (turn position attempt : ℕ)
  /-- The call at a position of a turn ends. -/
  | callEnded (turn position : ℕ) (ended : Except ToolFault String)

/-- How many attempts a call made: the failed ones and a last successful one. -/
def attemptsMade : Except ToolFault String×List AttemptFailure → ℕ
  | (.ok _,failures) => failures.length+1
  | (.error _,failures) => failures.length

/-- The exchanges of one call. An attempt whose token has fired before is not
dispatched. -/
def callTrace (env : AgentEnv) (engine : AgentEngine) (turn : ℕ) (tc : ToolCallItem)
    (s : CallState) : List Interaction :=
  let args := callArguments env tc
  let ended := callEnd env engine turn s.records.length tc.name args
  let dispatched := (List.range' 1 (attemptsMade ended)).filter fun attempt =>
    !(env.attempt turn s.records.length attempt tc.name args).cancelledBefore
  dispatched.map (.dispatch turn s.records.length)++[.callEnded turn s.records.length ended.1]

/-- The exchanges of the loop over the calls of one turn. -/
def callsTrace (env : AgentEnv) (engine : AgentEngine) (runId : String) (turn : ℕ) :
    List ToolCallItem → CallState → List Interaction
  | [],_ => []
  | tc::rest,s =>
    let next := runCall env engine runId turn tc s
    callTrace env engine turn tc s++
      if next.halted.isSome then [] else callsTrace env engine runId turn rest next

/-- The state in which the calls of a turn begin. -/
def callsBegin (res : ChatTurnResponse) (calls : List ToolCallItem) (s : AgentState) : CallState :=
  ⟨s.messages++[assistantMessage res.content calls],[],s.failureSeq,s.lastFailedCall,none,
    s.published⟩

/-- The exchanges of the loop over the turns. -/
def loopTrace (env : AgentEnv) (engine : AgentEngine) (runId : String) :
    ℕ → ℕ → AgentState → List Interaction
  | 0,_,_ => []
  | left+1,turn,s =>
    let begun := { s with
      turnsTaken := turn
      messages := (pruneContextWindow s.messages DEFAULT_MAX_CONTEXT_TOKENS).1 }
    .request turn::
      match env.infer turn begun.messages with
      | .error _ => []
      | .ok res =>
        match res.toolCalls.getD [] with
        | [] => []
        | tc::rest =>
          let after := toolTurn env engine runId turn res (tc::rest) begun
          callsTrace env engine runId turn (tc::rest) (callsBegin res (tc::rest) begun)++
            match after.2 with
            | some _ => []
            | none => loopTrace env engine runId left (turn+1) after.1

/-- The exchanges of a task, in order. -/
def taskTrace (env : AgentEnv) (engine : AgentEngine) (goal : String)
    (systemOverride : Option String) (maxTurns : ℕ) : List Interaction :=
  loopTrace env engine (runIdOf env engine) maxTurns 1 (startOf env goal systemOverride)

/-- The end of a call, if the exchange is one. -/
def Interaction.ended : Interaction → Option (Except ToolFault String)
  | .callEnded _ _ ended => some ended
  | _ => none

/-- Whether the exchange is the end of a call that waits for approval or was
cancelled. -/
def Interaction.halts : Interaction → Bool
  | .callEnded _ _ (.error fault) =>
    decide (fault.cls=.approvalPending) || decide (fault.cls=.cancelled)
  | _ => false

/-- A halt is reached at the end of the exchanges or not at all. -/
inductive Stops : List Interaction → Bool → Prop where
  /-- No call halts. -/
  | goesOn {trace : List Interaction} (calm : ∀ i∈trace, i.halts=false) : Stops trace false
  /-- The last exchange is the first that halts. -/
  | halted {before : List Interaction} {i : Interaction} (calm : ∀ j∈before, j.halts=false)
    (halts : i.halts=true) : Stops (before++[i]) true

/-- Calm exchanges before do not change where it stops. -/
theorem Stops.append {first trace : List Interaction} {halted : Bool} (h : Stops trace halted)
    (hcalm : ∀ i∈first, i.halts=false) : Stops (first++trace) halted := by
  have hboth : ∀ {rest : List Interaction}, (∀ i∈rest, i.halts=false) →
      ∀ i∈first++rest, i.halts=false := by
    intro rest hrest i hi
    rcases List.mem_append.mp hi with hi|hi
    · exact hcalm i hi
    · exact hrest i hi
  cases h with
  | goesOn calm => exact Stops.goesOn (hboth calm)
  | halted calm halts =>
    rw [←List.append_assoc]
    exact Stops.halted (hboth calm) halts

/-- Where a halt is reached, it is the last exchange. -/
theorem Stops.last {trace before after : List Interaction} {i : Interaction} {halted : Bool}
    (h : Stops trace halted) (hsplit : trace=before++i::after) (hi : i.halts=true) :
    halted=true ∧ after=[] := by
  cases h with
  | goesOn calm =>
    rw [calm i (by rw [hsplit]; simp)] at hi
    cases hi
  | halted calm halts =>
    refine ⟨rfl,?_⟩
    cases after using List.reverseRecOn with
    | nil => rfl
    | append_singleton after j _ =>
      rw [←List.cons_append,←List.append_assoc] at hsplit
      obtain ⟨hbefore,-⟩ := List.append_inj' hsplit rfl
      rw [calm i (by rw [hbefore]; simp)] at hi
      cases hi

theorem Stops.calm {trace : List Interaction} (h : Stops trace false) : ∀ i∈trace, i.halts=false := by
  cases h with
  | goesOn calm => exact calm

/-- The loop over the calls is left for exactly the classes that halt. -/
theorem haltReason_isSome (callId : String) (cls : FailureClass) :
    (haltReason callId cls).isSome=
      (decide (cls=.approvalPending) || decide (cls=.cancelled)) := by
  cases cls <;> rfl

/-- A call halts the turn exactly when its end halts. -/
theorem runCall_halted (env : AgentEnv) (engine : AgentEngine) (runId : String) (turn : ℕ)
    (tc : ToolCallItem) (hopen : s.halted=none) :
    (runCall env engine runId turn tc s).halted.isSome=(Interaction.callEnded turn s.records.length
      (callEnd env engine turn s.records.length tc.name (callArguments env tc)).1).halts := by
  rw [runCall]
  simp only [hopen]
  cases (callEnd env engine turn s.records.length tc.name (callArguments env tc)).1 with
  | ok out => rfl
  | error fault =>
    simp only [Option.or_none,haltReason_isSome]
    rfl

theorem callTrace_stops (env : AgentEnv) (engine : AgentEngine) (runId : String) (turn : ℕ)
    (tc : ToolCallItem) (hopen : s.halted=none) :
    Stops (callTrace env engine turn tc s) (runCall env engine runId turn tc s).halted.isSome := by
  have hdispatched : ∀ attempts : List ℕ,
      ∀ i∈attempts.map (Interaction.dispatch turn s.records.length), i.halts=false := by
    intro attempts i hi
    obtain ⟨attempt,-,rfl⟩ := List.mem_map.mp hi
    rfl
  rw [runCall_halted env engine runId turn tc hopen]
  refine Stops.append ?_ (hdispatched _)
  cases hhalts : (Interaction.callEnded turn s.records.length
      (callEnd env engine turn s.records.length tc.name (callArguments env tc)).1).halts with
  | false =>
    refine Stops.goesOn fun i hi => ?_
    rw [List.mem_singleton.mp hi]
    exact hhalts
  | true =>
    have hnone : ∀ j∈([] : List Interaction), j.halts=false := List.forall_mem_nil _
    exact Stops.halted hnone hhalts

/-- The loop over the calls stops where a call halts. -/
theorem callsTrace_stops (calls : List ToolCallItem) (hopen : s.halted=none) :
    Stops (callsTrace env engine runId turn calls s)
      (runCalls env engine runId turn calls s).halted.isSome := by
  induction calls generalizing s with
  | nil =>
    rw [runCalls,hopen]
    exact Stops.goesOn (List.forall_mem_nil _)
  | cons tc rest ih =>
    have hcall := callTrace_stops env engine runId turn tc hopen
    rw [callsTrace,runCalls]
    cases hhalted : (runCall env engine runId turn tc s).halted with
    | some reason =>
      rw [hhalted] at hcall
      simpa [hhalted] using hcall
    | none =>
      rw [hhalted] at hcall
      simpa [hhalted] using (ih hhalted).append hcall.calm

theorem toolTurn_stops (env : AgentEnv) (engine : AgentEngine) (runId : String) (turn : ℕ)
    (res : ChatTurnResponse) (calls : List ToolCallItem) (s : AgentState) :
    Stops (callsTrace env engine runId turn calls (callsBegin res calls s))
      (toolTurn env engine runId turn res calls s).2.isSome :=
  callsTrace_stops calls rfl

/-- The state after the window of a turn was trimmed. -/
def begunTurn (turn : ℕ) (s : AgentState) : AgentState := { s with
  turnsTaken := turn
  messages := (pruneContextWindow s.messages DEFAULT_MAX_CONTEXT_TOKENS).1 }

/-- What one turn makes of the loop and of the exchanges. -/
inductive TurnCase (env : AgentEnv) (engine : AgentEngine) (runId : String) (left turn : ℕ)
    (s : AgentState) : Except String Unit×AgentState → List Interaction → Prop where
  /-- The model fails. -/
  | fails (e : String) : TurnCase env engine runId left turn s (.error e,begunTurn turn s)
      [.request turn]
  /-- The model gives its final answer. -/
  | answers (res : ChatTurnResponse) : TurnCase env engine runId left turn s
      (.ok (),{ begunTurn turn s with
        finalResponse := finalText res.content res.reasoning
        steps := s.steps++[⟨turn,res.reasoning,[]⟩]
        completed := true }) [.request turn]
  /-- A call halts the run. -/
  | halts (res : ChatTurnResponse) (calls : List ToolCallItem) (reason : String)
    (halted : (toolTurn env engine runId turn res calls (begunTurn turn s)).2=some reason) :
    TurnCase env engine runId left turn s
      (.ok (),{ (toolTurn env engine runId turn res calls (begunTurn turn s)).1 with
        finalResponse := reason })
      (.request turn::callsTrace env engine runId turn calls
        (callsBegin res calls (begunTurn turn s)))
  /-- The calls are done and the next turn begins. -/
  | goesOn (res : ChatTurnResponse) (calls : List ToolCallItem)
    (quiet : (toolTurn env engine runId turn res calls (begunTurn turn s)).2=none) :
    TurnCase env engine runId left turn s
      (agentLoop env engine runId left (turn+1)
        (toolTurn env engine runId turn res calls (begunTurn turn s)).1)
      (.request turn::(callsTrace env engine runId turn calls
          (callsBegin res calls (begunTurn turn s))++
        loopTrace env engine runId left (turn+1)
          (toolTurn env engine runId turn res calls (begunTurn turn s)).1))

theorem turn_cases (env : AgentEnv) (engine : AgentEngine) (runId : String) (left turn : ℕ)
    (s : AgentState) : TurnCase env engine runId left turn s
      (agentLoop env engine runId (left+1) turn s)
      (loopTrace env engine runId (left+1) turn s) := by
  rw [agentLoop,loopTrace]
  simp only []
  rw [←begunTurn]
  cases env.infer turn (pruneContextWindow s.messages DEFAULT_MAX_CONTEXT_TOKENS).1 with
  | error e => exact TurnCase.fails e
  | ok res =>
    simp only []
    cases res.toolCalls.getD [] with
    | nil => exact TurnCase.answers res
    | cons tc rest =>
      simp only []
      cases hafter : (toolTurn env engine runId turn res (tc::rest) (begunTurn turn s)).2 with
      | none => exact TurnCase.goesOn res (tc::rest) hafter
      | some reason =>
        rw [List.append_nil]
        exact TurnCase.halts res (tc::rest) reason hafter

/-- The loop over the turns stops where a call halts, and is then left without a
final answer. -/
theorem loopTrace_stops (left turn : ℕ) (s : AgentState) (hopen : s.completed=false) :
    ∃ halted, Stops (loopTrace env engine runId left turn s) halted ∧
      (halted=true → (agentLoop env engine runId left turn s).1=.ok () ∧
        (agentLoop env engine runId left turn s).2.completed=false) := by
  induction left generalizing turn s with
  | zero => exact ⟨false,Stops.goesOn (List.forall_mem_nil _),nofun⟩
  | succ left ih =>
    have hrequest : ∀ i∈[Interaction.request turn], i.halts=false := by
      intro i hi
      rw [List.mem_singleton.mp hi]
      rfl
    have hcase := turn_cases env engine runId left turn s
    generalize agentLoop env engine runId (left+1) turn s=loop at hcase ⊢
    generalize loopTrace env engine runId (left+1) turn s=trace at hcase ⊢
    cases hcase with
    | fails e => exact ⟨false,Stops.goesOn hrequest,nofun⟩
    | answers res => exact ⟨false,Stops.goesOn hrequest,nofun⟩
    | halts res calls reason halted =>
      have hturn := toolTurn_stops env engine runId turn res calls (begunTurn turn s)
      rw [halted] at hturn
      exact ⟨true,hturn.append hrequest,fun _ => ⟨rfl,hopen⟩⟩
    | goesOn res calls quiet =>
      have hturn := toolTurn_stops env engine runId turn res calls (begunTurn turn s)
      rw [quiet] at hturn
      obtain ⟨halted,hstops,hend⟩ := ih (turn+1)
        (toolTurn env engine runId turn res calls (begunTurn turn s)).1 hopen
      exact ⟨halted,(hstops.append hturn.calm).append hrequest,hend⟩

/-- The ends of calls in the exchanges, in order. -/
def endsOf (trace : List Interaction) : List (Except ToolFault String) :=
  trace.filterMap Interaction.ended

theorem endsOf_callTrace (env : AgentEnv) (engine : AgentEngine) (turn : ℕ) (tc : ToolCallItem)
    (s : CallState) : endsOf (callTrace env engine turn tc s)=
      [(callEnd env engine turn s.records.length tc.name (callArguments env tc)).1] := by
  have hdispatched : ∀ attempts : List ℕ,
      endsOf (attempts.map (Interaction.dispatch turn s.records.length))=[] := by
    intro attempts
    rw [endsOf,List.filterMap_map,List.filterMap_eq_nil_iff]
    intro attempt _
    rfl
  rw [callTrace,endsOf,List.filterMap_append,←endsOf,hdispatched]
  rfl

/-- The records of a turn tell of the ends of its calls, in order. -/
theorem callsTrace_reflects (calls : List ToolCallItem) {ends : List (Except ToolFault String)}
    (h : List.Forall₂ Reflects ends s.records) :
    List.Forall₂ Reflects (ends++endsOf (callsTrace env engine runId turn calls s))
      (runCalls env engine runId turn calls s).records := by
  induction calls generalizing s ends with
  | nil =>
    rw [callsTrace,endsOf,List.filterMap_nil,List.append_nil]
    exact h
  | cons tc rest ih =>
    obtain ⟨r,hrecords,hr⟩ := runCall_records env engine runId turn tc s
    obtain ⟨-,hname,hargs,-⟩ := runCall_record hrecords
    rw [hname,hargs] at hr
    have hnext : List.Forall₂ Reflects (ends++endsOf (callTrace env engine turn tc s))
        (runCall env engine runId turn tc s).records := by
      rw [hrecords,endsOf_callTrace]
      exact List.rel_append h (List.Forall₂.cons hr List.Forall₂.nil)
    rw [callsTrace,runCalls,endsOf,List.filterMap_append,←endsOf,←List.append_assoc]
    split
    · rw [List.filterMap_nil,List.append_nil]
      exact hnext
    · exact ih hnext

/-- The records of all turns tell of the ends of their calls, in order. -/
theorem loopTrace_reflects (left turn : ℕ) (s : AgentState)
    {ends : List (Except ToolFault String)}
    (h : List.Forall₂ Reflects ends (s.steps.flatMap AgentStep.toolCalls)) :
    List.Forall₂ Reflects (ends++endsOf (loopTrace env engine runId left turn s))
      ((agentLoop env engine runId left turn s).2.steps.flatMap AgentStep.toolCalls) := by
  induction left generalizing turn s ends with
  | zero =>
    rw [loopTrace,endsOf,List.filterMap_nil,List.append_nil]
    exact h
  | succ left ih =>
    have hrequest : endsOf [Interaction.request turn]=[] := rfl
    have hturn : ∀ (res : ChatTurnResponse) (calls : List ToolCallItem),
        List.Forall₂ Reflects (ends++endsOf (callsTrace env engine runId turn calls
          (callsBegin res calls (begunTurn turn s))))
        ((toolTurn env engine runId turn res calls (begunTurn turn s)).1.steps.flatMap
          AgentStep.toolCalls) := by
      intro res calls
      have hcalls : List.Forall₂ Reflects ([]++endsOf (callsTrace env engine runId turn calls
          (callsBegin res calls (begunTurn turn s))))
        (runCalls env engine runId turn calls (callsBegin res calls (begunTurn turn s))).records :=
        callsTrace_reflects calls List.Forall₂.nil
      have hsteps : (toolTurn env engine runId turn res calls (begunTurn turn s)).1.steps.flatMap
          AgentStep.toolCalls=s.steps.flatMap AgentStep.toolCalls++
            (runCalls env engine runId turn calls
              (callsBegin res calls (begunTurn turn s))).records := by
        simp [toolTurn,callsBegin,begunTurn]
      rw [hsteps]
      exact List.rel_append h hcalls
    have hcase := turn_cases env engine runId left turn s
    generalize agentLoop env engine runId (left+1) turn s=loop at hcase ⊢
    generalize loopTrace env engine runId (left+1) turn s=trace at hcase ⊢
    cases hcase with
    | fails e =>
      rw [hrequest,List.append_nil]
      exact h
    | answers res =>
      rw [hrequest,List.append_nil]
      simpa using h
    | halts res calls reason halted => exact hturn res calls
    | goesOn res calls quiet =>
      have hrest := ih (turn+1) _ (hturn res calls)
      rw [List.append_assoc,endsOf,endsOf,←List.filterMap_append] at hrest
      exact hrest

/-- An outcome waits for approval exactly when the last failure of the run does. -/
theorem agentOutcome_approval_iff {result : AgentExecutionResult} :
    agentOutcome result=.approvalPending ↔
      ∃ f, lastFailure result=some f ∧ f.cls=.approvalPending := by
  unfold agentOutcome
  cases lastFailure result with
  | none =>
    simp only []
    split
    · simp
    · split <;> simp
  | some f =>
    simp only []
    by_cases hpending : f.cls=.approvalPending
    · rw [if_pos hpending]
      exact ⟨fun _ => ⟨f,rfl,hpending⟩,fun _ => rfl⟩
    · rw [if_neg hpending]
      simp [hpending]

/-- An outcome is a success only of a completed run without a failed call. -/
theorem success_of_agentOutcome {result : AgentExecutionResult} {value : JsonValue}
    (h : agentOutcome result=.completed value) :
    result.completed=true ∧ ∀ c∈allCalls result, c.success=true := by
  unfold agentOutcome at h
  cases hlast : lastFailure result with
  | none =>
    rw [hlast] at h
    simp only [] at h
    split at h
    · cases h
    · next hgood =>
      split at h
      · next hdone =>
        refine ⟨hdone,fun c hc => ?_⟩
        rw [Bool.not_eq_true,List.any_eq_false] at hgood
        simpa using hgood c hc
      · cases h
  | some f =>
    rw [hlast] at h
    simp only [] at h
    split at h <;> cases h

/-- Where the last call of a run waits for approval, the outcome tells it. -/
theorem approval_of_last {result : AgentExecutionResult} {ends : List (Except ToolFault String)}
    {fault : ToolFault} (h : List.Forall₂ Reflects (ends++[.error fault]) (allCalls result))
    (hcls : fault.cls=.approvalPending) : agentOutcome result=.approvalPending := by
  rw [←List.forall₂_reverse_iff,List.reverse_concat] at h
  cases hcalls : (allCalls result).reverse with
  | nil =>
    rw [hcalls] at h
    cases h
  | cons c rest =>
    rw [hcalls] at h
    obtain ⟨-,f,hf,hfcls,-⟩ := (List.forall₂_cons.mp h).1
    have hlast : lastFailure result=some f := by
      rw [lastFailure,←List.reverse_reverse (allCalls result),hcalls,List.reverse_cons,
        List.filterMap_append,List.filterMap_cons_some hf,List.filterMap_nil,List.getLast?_concat]
    exact agentOutcome_approval_iff.mpr ⟨f,hlast,hfcls.trans hcls⟩

/-- Related lists have related elements. -/
theorem exists_of_forall₂ {α β : Type} {R : α → β → Prop} {xs : List α} {ys : List β}
    (h : List.Forall₂ R xs ys) {y : β} (hy : y∈ys) : ∃ x∈xs, R x y := by
  induction h with
  | nil => cases hy
  | cons hr _ ih =>
    rcases List.mem_cons.mp hy with rfl|hy
    · exact ⟨_,List.mem_cons_self,hr⟩
    · obtain ⟨x,hx,hxy⟩ := ih hy
      exact ⟨x,List.mem_cons_of_mem _ hx,hxy⟩

/-- The calls of a run tell of the ends among its exchanges, in order. -/
theorem taskTrace_reflects {goal : String} {systemOverride : Option String} {maxTurns : ℕ}
    {result : AgentExecutionResult}
    (h : (executeTask env engine goal systemOverride maxTurns).1=.ok result) :
    List.Forall₂ Reflects (endsOf (taskTrace env engine goal systemOverride maxTurns))
      (allCalls result) := by
  obtain ⟨s,hloop,hsteps,-⟩ := executeTask_ok h
  have hall : List.Forall₂ Reflects
      ([]++endsOf (taskTrace env engine goal systemOverride maxTurns))
      ((agentLoop env engine (runIdOf env engine) maxTurns 1
        (startOf env goal systemOverride)).2.steps.flatMap AgentStep.toolCalls) :=
    loopTrace_reflects maxTurns 1 _ List.Forall₂.nil
  rw [hloop,List.nil_append] at hall
  rw [allCalls,hsteps]
  exact hall

/-- A halting end is the last exchange of a task, which then returns without a
final answer. -/
theorem nothing_after_halt {goal : String} {systemOverride : Option String} {maxTurns : ℕ}
    {before after : List Interaction} {i : Interaction}
    (hsplit : taskTrace env engine goal systemOverride maxTurns=before++i::after)
    (hi : i.halts=true) : after=[] ∧ ∃ result,
      (executeTask env engine goal systemOverride maxTurns).1=.ok result ∧
        result.completed=false := by
  have hstart : (startOf env goal systemOverride).completed=false := rfl
  obtain ⟨halted,hstops,hend⟩ := loopTrace_stops maxTurns 1 _ hstart
  obtain ⟨htrue,hlast⟩ := hstops.last hsplit hi
  obtain ⟨hok,hopen⟩ := hend htrue
  obtain ⟨result,hresult,-,hcompleted,-⟩ := executeTask_of_loop (Prod.ext hok rfl)
  exact ⟨hlast,result,hresult,hcompleted.trans hopen⟩

/-- The outcome of a run waits for approval exactly when some call ended so. -/
theorem approval_iff {goal : String} {systemOverride : Option String} {maxTurns : ℕ}
    {result : AgentExecutionResult}
    (h : (executeTask env engine goal systemOverride maxTurns).1=.ok result) :
    agentOutcome result=.approvalPending ↔ ∃ fault : ToolFault,
      .error fault∈endsOf (taskTrace env engine goal systemOverride maxTurns) ∧
        fault.cls=.approvalPending := by
  have hreflects := taskTrace_reflects h
  constructor
  · intro houtcome
    obtain ⟨f,hlast,hcls⟩ := agentOutcome_approval_iff.mp houtcome
    obtain ⟨c,hc,hfailure⟩ := List.mem_filterMap.mp (List.mem_of_getLast? hlast)
    obtain ⟨ended,hended,hr⟩ := exists_of_forall₂ hreflects hc
    cases ended with
    | ok out =>
      rw [hr.2] at hfailure
      cases hfailure
    | error fault =>
      obtain ⟨-,g,hg,hgcls,-⟩ := hr
      rw [hfailure,Option.some.injEq] at hg
      exact ⟨fault,hended,by rw [←hgcls,←hg,hcls]⟩
  · rintro ⟨fault,hmem,hcls⟩
    obtain ⟨i,hi,hended⟩ := List.mem_filterMap.mp hmem
    cases i with
    | request | dispatch => cases hended
    | callEnded turn position ended =>
      cases hended
      obtain ⟨before,after,hsplit⟩ := List.append_of_mem hi
      have hlast := (nothing_after_halt hsplit (by simp [Interaction.halts,hcls])).1
      rw [hsplit,hlast,endsOf,List.filterMap_append] at hreflects
      exact approval_of_last hreflects hcls

/-- A call that ends waiting for approval or cancelled is the last exchange of the
task, which returns without a final answer. The calls of a result tell of the ends
among the exchanges; the outcome waits for approval exactly when some call ended
so, and is a success only of a run that was completed and in which every call
succeeded. -/
theorem halted_never_continued (env : AgentEnv) (engine : AgentEngine) (goal : String)
    (systemOverride : Option String) (maxTurns : ℕ) :
    (∀ before i after, taskTrace env engine goal systemOverride maxTurns=before++i::after →
      i.halts=true → after=[] ∧ ∃ result,
        (executeTask env engine goal systemOverride maxTurns).1=.ok result ∧
          result.completed=false) ∧
      ∀ result, (executeTask env engine goal systemOverride maxTurns).1=.ok result →
        List.Forall₂ Reflects (endsOf (taskTrace env engine goal systemOverride maxTurns))
            (allCalls result) ∧
          (agentOutcome result=.approvalPending ↔ ∃ fault : ToolFault,
            .error fault∈endsOf (taskTrace env engine goal systemOverride maxTurns) ∧
              fault.cls=.approvalPending) ∧
          ((∃ value, agentOutcome result=.completed value) → result.completed=true ∧
            ∀ step∈result.steps, ∀ c∈step.toolCalls, c.success=true) := by
  refine ⟨fun before i after hsplit hi => nothing_after_halt hsplit hi,fun result hran => ?_⟩
  refine ⟨taskTrace_reflects hran,approval_iff hran,?_⟩
  rintro ⟨value,houtcome⟩
  obtain ⟨hdone,hall⟩ := success_of_agentOutcome houtcome
  exact ⟨hdone,fun step hstep c hc => hall c (List.mem_flatMap.mpr ⟨step,hstep,hc⟩)⟩

end AegisRuntime.AgentHalts
