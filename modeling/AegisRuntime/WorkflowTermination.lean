import AegisRuntime.FairExecutions
import AegisRuntime.KeyedTables
import AegisRuntime.WorkflowPermits

/-!
# The coordinator's loop ends

Each round of the loop after the first is paid for by the join of a body, by the
one restart that leads to the cancel, or by the one sight of the deadline, and a
round is short. A coordinator that steps when it can therefore only stops at the
wait for a body that has not ended or after it returned, and where every body
ends it returns, with nothing live and an empty join set.
-/

namespace AegisRuntime.WorkflowTermination

open KeyedTables LabelledRuns FairExecutions FailureRecords WorkflowGraph WorkflowLedger
open WorkflowCoordinator WorkflowMoves WorkflowHistory WorkflowPasses WorkflowSteps WorkflowRuns
open WorkflowTraces WorkflowReports WorkflowPermits

variable {spec : WorkflowSpec} {host : Host} {ex : WorkflowExecutor}

/-- Whether an action is the coordinator's own. -/
def ofCoordinator : Action spec → Bool
  | .advance | .wakeCancel | .wakeDeadline | .wakeJoin _ | .wakeEmpty => true
  | .cancelCaller | .tripRunToken | .deadlinePasses | .bodyEnds _ _ => false

/-- The coordinator begins a round of its loop. -/
def beginsRound (s : State spec) : Action spec → Bool
  | .advance =>
    match s.pc with
    | .loopHead => true
    | _ => false
  | _ => false

/-- The start pass restarts the loop. -/
def restartsPass (s : State spec) : Action spec → Bool
  | .advance =>
    match s.pc with
    | .startPass (t::_) =>
      decide (s.recorder.stateOf t=.ready) && (s.callerCancelled || s.runCancelled || s.expired)
    | _ => false
  | _ => false

/-- The wait ends with the caller's cancel. -/
def wakesForCancel (_ : State spec) : Action spec → Bool
  | .wakeCancel => true
  | _ => false

/-- The wait ends with the deadline. -/
def wakesForDeadline (_ : State spec) : Action spec → Bool
  | .wakeDeadline => true
  | _ => false

/-- The wait ends with a finished body. -/
def joinsBody (_ : State spec) : Action spec → Bool
  | .wakeJoin _ => true
  | _ => false

/-- Whether the coordinator is about to begin a round. -/
def atHead : Pc spec → ℕ
  | .loopHead => 1
  | _ => 0

/-- Steps the coordinator can take before it begins another round. -/
def stepsLeft (n : ℕ) : Pc spec → ℕ
  | .loopHead => 3*n+6
  | .cancelCheck => 3*n+5
  | .startPass rest => 3*rest.length+4
  | .acquire _ rest => 3*rest.length+6
  | .launch _ rest => 3*rest.length+5
  | .liveCheck => 3
  | .select => 2
  | .exit => 1
  | .returned _ _ | .panicked => 0

/-- Tasks whose bodies can still be started. -/
def unstarted (rec : Recorder spec) : List spec.Task :=
  spec.ids.filter fun t => decide (rank (rec.stateOf t).kind < 2)

/-- No move makes a task startable again. -/
theorem unstarted_of_move {rec rec' : Recorder spec} {m : Move spec}
    (h : moveStep host ex rec m=some rec') : (unstarted rec').Sublist (unstarted rec) := by
  obtain ⟨entry,hcase,rfl⟩ := moveStep_cases h
  have hlt := hcase.admissible.edge.rank_lt
  refine List.monotone_filter_right spec.ids fun t ht => ?_
  rw [decide_eq_true_eq] at ht ⊢
  rw [enter_stateOf] at ht
  split at ht
  · subst_vars
    exact hlt.trans ht
  · exact ht

theorem unstarted_of_moves {rec rec' : Recorder spec} {moves : List (Move spec)}
    (h : runs (moveStep host ex) rec moves=some rec') :
    (unstarted rec').length ≤ (unstarted rec).length :=
  run_invariant (I:=fun now => (unstarted now).length ≤ (unstarted rec).length) (Nat.le_refl _)
    (fun _ _ _ hle hstep => (unstarted_of_move hstep).length_le.trans hle) h

/-- A start uses up a startable task. -/
theorem unstarted_start (host : Host) (ex : WorkflowExecutor) {rec : Recorder spec} {t : spec.Task}
    (h : rec.stateOf t=.ready) :
    (unstarted (rec.transition host t .running none)).length < (unstarted rec).length := by
  have hsub := unstarted_of_move (transition_running_move host ex h)
  refine Nat.lt_of_le_of_ne hsub.length_le fun heq => ?_
  have hmem : t∈unstarted rec := by simp [unstarted,h,TaskState.kind,rank]
  rw [←hsub.eq_of_length heq] at hmem
  simp [unstarted,Recorder.stateOf,TaskState.kind,rank] at hmem

/-- What the rounds of a run are paid for with. -/
structure Accounts (host : Host) (ex : WorkflowExecutor) (acts : List (Action spec))
    (s : State spec) : Prop where
  /-- Every round after the first follows a join, a restart or a wake-up. -/
  rounds : tally (step host ex) beginsRound (initial ex spec) acts+atHead s.pc=
    1+tally (step host ex) joinsBody (initial ex spec) acts+
      tally (step host ex) restartsPass (initial ex spec) acts+
      tally (step host ex) wakesForCancel (initial ex spec) acts+
      tally (step host ex) wakesForDeadline (initial ex spec) acts
  /-- The pass restarts, or the caller's cancel wakes the coordinator, at most once. -/
  stops : tally (step host ex) restartsPass (initial ex spec) acts+
    tally (step host ex) wakesForCancel (initial ex spec) acts ≤ 1
  /-- From then on the coordinator is stopping. -/
  stopping : 0 < tally (step host ex) restartsPass (initial ex spec) acts+
    tally (step host ex) wakesForCancel (initial ex spec) acts → Stopping s
  /-- The deadline wakes the coordinator at most once. -/
  deadlines : tally (step host ex) wakesForDeadline (initial ex spec) acts ≤
    s.budgetExhausted.toNat
  /-- Every spawned body is joined or still in the join set. -/
  joins : tally (step host ex) joinsBody (initial ex spec) acts+s.bodies.length=s.nextJoin
  /-- Every spawned body belongs to a task of its own. -/
  spawned : s.nextJoin+(unstarted s.recorder).length ≤ spec.len
  /-- The coordinator's steps fit into its rounds. -/
  steps : acts.countP ofCoordinator+stepsLeft spec.len s.pc ≤ (3*spec.len+6)*
    (tally (step host ex) beginsRound (initial ex spec) acts+atHead s.pc)

theorem Accounts.start (host : Host) (ex : WorkflowExecutor) (spec : WorkflowSpec) :
    Accounts host ex [] (initial ex spec) := by
  refine ⟨rfl,Nat.zero_le _,nofun,Nat.zero_le _,rfl,?_,?_⟩
  · have hle := List.length_filter_le
      (fun t => decide (rank ((initial ex spec).recorder.stateOf t).kind < 2)) spec.ids
    rw [spec.length_ids] at hle
    simpa [unstarted,initial] using hle
  · simp [initial,stepsLeft,atHead]

/-- What a step adds to the tallies of rounds, and where it leads. -/
theorem rounds_step {s s' : State spec} {a : Action spec} (hi : ExecInv host ex s)
    (hstep : step host ex s a=some s') :
    (beginsRound s a).toNat+atHead s'.pc=atHead s.pc+(joinsBody s a).toNat+
      (restartsPass s a).toNat+(wakesForCancel s a).toNat+(wakesForDeadline s a).toNat := by
  cases step_cases hstep with
  | passStops t rest pc ready stop =>
    have hr : restartsPass s .advance=true := by
      simpa [restartsPass,pc,ready,or_assoc] using stop
    simp [beginsRound,wakesForCancel,wakesForDeadline,joinsBody,hr,pc,atHead]
  | passSkips t rest pc other =>
    simp [beginsRound,restartsPass,wakesForCancel,wakesForDeadline,joinsBody,pc,other,atHead]
  | passTries t rest pc ready caller run time =>
    simp [beginsRound,restartsPass,wakesForCancel,wakesForDeadline,joinsBody,pc,caller,run,time,
      atHead]
  | joinPanics joinId b e pc found ended untracked =>
    rw [(hi.joined found).1] at untracked
    cases untracked
  | cancelCaller | tripRunToken | deadlinePasses | bodyEnds =>
    simp [beginsRound,restartsPass,wakesForCancel,wakesForDeadline,joinsBody]
  | exits pc =>
    simp [beginsRound,restartsPass,wakesForCancel,wakesForDeadline,joinsBody,pc,atHead,exitStep]
  | launches t rest pc =>
    simp [beginsRound,restartsPass,wakesForCancel,wakesForDeadline,joinsBody,pc,atHead,launchStep]
  | headExpires pc | headPasses pc | checkCancels pc | checkSeen pc | checkClear pc | passDone pc
  | acquireFails _ _ pc | acquires _ _ pc | liveNone pc | liveSome pc | wakeCancel pc
  | wakeDeadline pc | joins _ _ _ _ pc | wakeEmpty pc =>
    simp [beginsRound,restartsPass,wakesForCancel,wakesForDeadline,joinsBody,pc,atHead]

/-- A coordinator in its start pass or waiting, with the cancel unseen, is not
stopping. -/
theorem not_stopping {s : State spec} (hunseen : s.cancelSeen=false)
    (pc : (∃ rest, s.pc=.startPass rest) ∨ s.pc=.select) : ¬Stopping s := by
  rintro (hseen|⟨hpc,-⟩|⟨hpc,-⟩)
  · rw [hunseen] at hseen
    cases hseen
  · rw [hpc] at pc
    rcases pc with ⟨rest,h⟩|h <;> cases h
  · rw [hpc] at pc
    rcases pc with ⟨rest,h⟩|h <;> cases h

/-- A restart or a wake-up for the caller's cancel happens to a coordinator that
is not stopping yet, is the only one of its step, and makes it stop. -/
theorem stops_step {s s' : State spec} {a : Action spec} (hi : ExecInv host ex s)
    (hstep : step host ex s a=some s')
    (h : restartsPass s a=true ∨ wakesForCancel s a=true) :
    ¬Stopping s ∧ (restartsPass s a).toNat+(wakesForCancel s a).toNat=1 ∧ Stopping s' := by
  have hobs : observes s a=true := by
    rcases h with h|h
    · cases a with
      | advance =>
        rw [restartsPass] at h
        split at h
        · next t rest pc => simpa [observes,pc] using h
        · cases h
      | _ => cases h
    · cases a with
      | wakeCancel => rfl
      | _ => cases h
  refine ⟨?_,?_,stopping_of_observes hi hobs hstep⟩
  · rcases h with h|h
    · cases a with
      | advance =>
        rw [restartsPass] at h
        split at h
        · next t rest pc => exact not_stopping (hi.starting (by rw [pc]; rfl)) (Or.inl ⟨_,pc⟩)
        · cases h
      | _ => cases h
    · cases step_cases hstep with
      | wakeCancel pc fresh => exact not_stopping fresh (Or.inr pc)
      | _ => cases h
  · rcases h with h|h
    · cases a with
      | advance => rw [h]; rfl
      | _ => cases h
    · cases a with
      | wakeCancel => rfl
      | _ => cases h

/-- The deadline wakes a coordinator that has not seen it, and then it has. -/
theorem deadlines_step {s s' : State spec} {a : Action spec} (hstep : step host ex s a=some s') :
    s.budgetExhausted.toNat+(wakesForDeadline s a).toNat ≤ s'.budgetExhausted.toNat := by
  cases step_cases hstep with
  | wakeDeadline pc fresh => simp [wakesForDeadline,fresh]
  | headExpires pc fresh => simp [wakesForDeadline,fresh]
  | _ => exact Nat.le_refl _

/-- A join takes one body out of the join set, a launch adds one, and nothing else
touches it. -/
theorem joins_step {s s' : State spec} {a : Action spec} (hi : ExecInv host ex s)
    (hstep : step host ex s a=some s') :
    (joinsBody s a).toNat+s'.bodies.length+s.nextJoin=s.bodies.length+s'.nextJoin := by
  cases step_cases hstep with
  | bodyEnds t e => simp [joinsBody]
  | launches t rest pc =>
    simp only [joinsBody,launchStep,List.length_append,List.length_singleton]
    simp only [Bool.toNat_false]
    omega
  | joins joinId b e t pc found =>
    obtain ⟨-,pre,post,hsplit,hrest⟩ := split_joined hi.joinIds found
    have hlen := congrArg List.length hsplit
    simp only [List.length_append,List.length_cons] at hlen
    simp only [joinsBody,hrest,List.length_append,Bool.toNat_true]
    omega
  | joinPanics joinId b e pc found ended untracked =>
    rw [(hi.joined found).1] at untracked
    cases untracked
  | _ => simp [joinsBody,exitStep]

/-- A launch uses up a task that could still be started. -/
theorem spawned_step {s s' : State spec} {a : Action spec} (hi : ExecInv host ex s)
    (hstep : step host ex s a=some s') :
    s'.nextJoin+(unstarted s'.recorder).length ≤ s.nextJoin+(unstarted s.recorder).length := by
  obtain ⟨moves,hmoves,-⟩ := step_moves hi hstep
  have hle := unstarted_of_moves hmoves
  cases step_cases hstep with
  | launches t rest pc =>
    have hlt := unstarted_start host ex (hi.ready t (by rw [pc]; rfl))
    simp only [launchStep]
    omega
  | _ => exact Nat.add_le_add_left hle _

/-- A step of the coordinator uses up one of the steps left in its round, unless
it leads to another round. -/
theorem steps_step {s s' : State spec} {a : Action spec} (hi : ExecInv host ex s)
    (hstep : step host ex s a=some s') :
    (ofCoordinator a).toNat+stepsLeft spec.len s'.pc ≤
      stepsLeft spec.len s.pc+(3*spec.len+6)*((beginsRound s a).toNat+atHead s'.pc-atHead s.pc) := by
  cases step_cases hstep with
  | cancelCaller | tripRunToken | deadlinePasses | bodyEnds => simp [ofCoordinator]
  | headExpires pc | headPasses pc => simp [ofCoordinator,pc,stepsLeft]; omega
  | checkCancels pc | checkSeen pc => simp [ofCoordinator,pc,stepsLeft]; omega
  | checkClear pc => simp [ofCoordinator,pc,stepsLeft,spec.length_ids]; omega
  | passSkips t rest pc | passTries t rest pc => simp [ofCoordinator,pc,stepsLeft]; omega
  | acquireFails t rest pc | acquires t rest pc => simp [ofCoordinator,pc,stepsLeft]; omega
  | launches t rest pc => simp [ofCoordinator,pc,stepsLeft,launchStep]; omega
  | exits pc => simp [ofCoordinator,pc,stepsLeft,exitStep]
  | passDone pc | liveSome pc | wakeEmpty pc => simp [ofCoordinator,pc,stepsLeft]
  | liveNone pc => simp [ofCoordinator,pc,stepsLeft]; omega
  | joinPanics joinId b e pc found ended untracked =>
    rw [(hi.joined found).1] at untracked
    cases untracked
  | passStops t rest pc => simp [ofCoordinator,pc,stepsLeft,atHead,beginsRound]
  | wakeCancel pc | wakeDeadline pc | joins _ _ _ _ pc =>
    simp [ofCoordinator,pc,stepsLeft,atHead,beginsRound]

/-- One step keeps the accounts. -/
theorem Accounts.step {acts : List (Action spec)} {s s' : State spec} {a : Action spec}
    (h : Accounts host ex acts s) (hs : runs (step host ex) (initial ex spec) acts=some s)
    (hstep : step host ex s a=some s') : Accounts host ex (acts++[a]) s' := by
  have hi := execInv_of_run hs
  have hrounds := rounds_step hi hstep
  have htally : ∀ test, tally (WorkflowCoordinator.step host ex) test (initial ex spec) (acts++[a])=
      tally (WorkflowCoordinator.step host ex) test (initial ex spec) acts+(test s a).toNat :=
    fun test => tally_concat hs a
  have hstops : (restartsPass s a).toNat+(wakesForCancel s a).toNat=0 ∨
      ¬Stopping s ∧ (restartsPass s a).toNat+(wakesForCancel s a).toNat=1 ∧ Stopping s' := by
    by_cases hr : restartsPass s a=true ∨ wakesForCancel s a=true
    · exact Or.inr (stops_step hi hstep hr)
    · rw [not_or,Bool.not_eq_true,Bool.not_eq_true] at hr
      rw [hr.1,hr.2]
      exact Or.inl rfl
  refine ⟨?_,?_,?_,?_,?_,?_,?_⟩
  · have hold := h.rounds
    simp only [htally]
    omega
  · have hle := h.stops
    simp only [htally]
    rcases hstops with hnone|⟨hnot,hone,-⟩
    · omega
    · have hzero := mt h.stopping hnot
      omega
  · simp only [htally]
    intro hpos
    rcases hstops with hnone|⟨-,-,hstop⟩
    · exact (h.stopping (by omega)).step hstep
    · exact hstop
  · have hle := h.deadlines
    have hnow := deadlines_step hstep
    rw [htally]
    omega
  · have hold := h.joins
    have hnow := joins_step hi hstep
    rw [htally]
    omega
  · exact (spawned_step hi hstep).trans h.spawned
  · have hle := h.steps
    have hnow := steps_step hi hstep
    rw [htally,List.countP_append,List.countP_singleton]
    have hmono : atHead s.pc ≤ (beginsRound s a).toNat+atHead s'.pc := by omega
    have hcount : (if ofCoordinator a=true then 1 else 0)=(ofCoordinator a).toNat := by
      cases ofCoordinator a <;> rfl
    rw [hcount]
    calc acts.countP ofCoordinator+(ofCoordinator a).toNat+stepsLeft spec.len s'.pc
        ≤ acts.countP ofCoordinator+(stepsLeft spec.len s.pc+
          (3*spec.len+6)*((beginsRound s a).toNat+atHead s'.pc-atHead s.pc)) := by omega
      _ ≤ (3*spec.len+6)*(tally (WorkflowCoordinator.step host ex) beginsRound (initial ex spec) acts+
          atHead s.pc)+(3*spec.len+6)*((beginsRound s a).toNat+atHead s'.pc-atHead s.pc) := by omega
      _ = (3*spec.len+6)*(tally (WorkflowCoordinator.step host ex) beginsRound (initial ex spec) acts+
          (beginsRound s a).toNat+atHead s'.pc) := by
        rw [←Nat.mul_add]
        congr 1
        omega

theorem accounts_of_run {acts : List (Action spec)} {s : State spec}
    (h : runs (step host ex) (initial ex spec) acts=some s) : Accounts host ex acts s :=
  history_invariant (Accounts.start host ex spec)
    (fun _ _ _ _ hs hacc hstep => hacc.step hs hstep) h

/-- Along every run the loop makes at most three rounds more than there are
tasks, each of its restarts and wake-ups happens at most once, and the
coordinator takes boundedly many steps. -/
theorem rounds_bounded {acts : List (Action spec)} {s : State spec}
    (h : runs (step host ex) (initial ex spec) acts=some s) :
    tally (step host ex) beginsRound (initial ex spec) acts ≤ spec.len+3 ∧
      tally (step host ex) restartsPass (initial ex spec) acts ≤ 1 ∧
      tally (step host ex) wakesForCancel (initial ex spec) acts ≤ 1 ∧
      tally (step host ex) wakesForDeadline (initial ex spec) acts ≤ 1 ∧
      acts.countP ofCoordinator ≤ (3*spec.len+6)*(spec.len+3) := by
  have ha := accounts_of_run h
  have hrounds := ha.rounds
  have hstops := ha.stops
  have hdeadlines := ha.deadlines.trans (Bool.toNat_le _)
  have hjoins := ha.joins
  have hspawned := ha.spawned
  refine ⟨by omega,by omega,by omega,hdeadlines,?_⟩
  calc acts.countP ofCoordinator
      ≤ acts.countP ofCoordinator+stepsLeft spec.len s.pc := Nat.le_add_right _ _
    _ ≤ (3*spec.len+6)*(tally (step host ex) beginsRound (initial ex spec) acts+atHead s.pc) := ha.steps
    _ ≤ (3*spec.len+6)*(spec.len+3) := Nat.mul_le_mul_left _ (by omega)

/-- Actions of others leave the coordinator where it stands. -/
theorem pc_of_others {s s' : State spec} {a : Action spec} (ha : ofCoordinator a=false)
    (hstep : step host ex s a=some s') : s'.pc=s.pc := by
  cases step_cases hstep with
  | cancelCaller | tripRunToken | deadlinePasses | bodyEnds => rfl
  | _ => cases ha

/-- The coordinator waits only while a body is live. -/
theorem live_of_select {acts : List (Action spec)} {s : State spec}
    (h : runs (step host ex) (initial ex spec) acts=some s) : s.pc=.select → s.live≠0 := by
  refine run_invariant (I:=fun s => s.pc=.select → s.live≠0) (fun hpc => by cases hpc) ?_ h
  intro t a u hold hstep hu
  cases step_cases hstep with
  | cancelCaller | tripRunToken | deadlinePasses | bodyEnds => exact hold hu
  | liveSome pc busy => exact busy
  | _ => cases hu

/-- A finished body can be joined while the coordinator waits. -/
theorem join_enabled {s : State spec} (hi : ExecInv host ex s) (pc : s.pc=.select) {b : Body spec}
    (hb : b∈s.bodies) (hended : b.ended≠none) :
    (step host ex s (.wakeJoin b.joinId)).isSome=true := by
  obtain ⟨e,he⟩ := Option.ne_none_iff_exists'.mp hended
  have hfound : s.bodies.find? (fun b' => b'.joinId=b.joinId)=some b :=
    find?_of_nodup hi.joinIds hb
  simp [step,waits_eq_true_iff.mpr pc,joinable,hfound,he]

/-- Where the coordinator can do nothing it has returned, or waits and no body has
ended. -/
theorem stopped_cases {s : State spec} (hi : ExecInv host ex s)
    (h : ∀ a, ofCoordinator a=true → step host ex s a=none) :
    (∃ done rep, s.pc=.returned done rep) ∨ s.pc=.select ∧ ∀ b∈s.bodies, b.ended=none := by
  have hadvance : advanceStep host ex s=none := h .advance rfl
  cases pc : s.pc with
  | returned done rep => exact Or.inl ⟨done,rep,rfl⟩
  | select =>
    refine Or.inr ⟨rfl,fun b hb => ?_⟩
    by_contra hended
    have hjoin := join_enabled hi pc hb hended
    rw [h _ rfl] at hjoin
    cases hjoin
  | panicked => exact absurd pc hi.safe
  | _ => simp [advanceStep,pc] at hadvance

/-- A run as the runtime schedules it: the coordinator does not stay idle while it
can go on, and every body that was started ends. -/
structure Scheduled (x : Execution (step host ex) (initial ex spec)) : Prop where
  /-- The coordinator goes on when it can. -/
  coordinator : x.FairTo ofCoordinator
  /-- Every started body ends. -/
  bodies : ∀ i, ∀ b∈(x.state i).bodies, b.ended=none → ∃ j≥i, ∃ e, x.act j=some (.bodyEnds b.task e)

/-- Some body has ended and waits to be joined. -/
def Joinable (s : State spec) : Prop := s.pc=.select ∧ ∃ b∈s.bodies, b.ended≠none

/-- It keeps waiting while others act. -/
theorem Joinable.others {s s' : State spec} {a : Action spec} (h : Joinable s)
    (hi : ExecInv host ex s) (ha : ofCoordinator a=false) (hstep : step host ex s a=some s') :
    Joinable s' := by
  obtain ⟨pc,b,hb,hended⟩ := h
  obtain ⟨e,he⟩ := Option.ne_none_iff_exists'.mp hended
  obtain ⟨-,hforth,-⟩ := step_bodies hi hstep
  refine ⟨(pc_of_others ha hstep).trans pc,?_⟩
  rcases hforth b hb e he with ⟨b',hb',-,he'⟩|⟨joinId,rfl,-⟩
  · exact ⟨b',hb',by rw [he']; nofun⟩
  · cases ha

/-- A scheduled execution returns. -/
theorem eventually_returns {x : Execution (step host ex) (initial ex spec)} (h : Scheduled x) :
    ∃ n done rep, (x.state n).pc=.returned done rep := by
  have hinv : ∀ i, ExecInv host ex (x.state i) := fun i => execInv_of_run (x.runs_taken i)
  -- the coordinator takes boundedly many steps, so it is silent from some moment on
  obtain ⟨n,hsilent⟩ := x.eventually_silent ofCoordinator
    fun acts s hrun => (rounds_bounded hrun).2.2.2.2
  obtain ⟨i,hi,hoff⟩ := h.coordinator.disabled hsilent (Nat.le_refl n)
  rcases stopped_cases (hinv i) hoff with ⟨done,rep,pc⟩|⟨pc,-⟩
  · exact ⟨i,done,rep,pc⟩
  exfalso
  -- it would wait for a live body, which ends and can then be joined for good
  have hpc : ∀ j≥i, (x.state j).pc=.select := x.invariant_from (I:=fun s => s.pc=.select) pc
    fun j hj a ha hold => (pc_of_others (hsilent j (by omega) a ha) (x.moves j a ha)).trans hold
  obtain ⟨b,hb⟩ : ∃ b, b∈(x.state i).bodies := by
    have hlive := live_of_select (x.runs_taken i) pc
    rw [(hinv i).live] at hlive
    exact List.exists_mem_of_length_pos (Nat.pos_of_ne_zero hlive)
  have hjoinable : ∃ k≥i, Joinable (x.state k) := by
    by_cases hended : b.ended=none
    · obtain ⟨j,hj,e,ha⟩ := h.bodies i b hb hended
      obtain ⟨b',hb',-,he'⟩ := (step_bodies (hinv j) (x.moves j _ ha)).2.2 _ _ rfl
      exact ⟨j+1,by omega,hpc (j+1) (by omega),b',hb',by rw [he']; nofun⟩
    · exact ⟨i,Nat.le_refl i,pc,b,hb,hended⟩
  obtain ⟨k,hk,hwaiting⟩ := hjoinable
  have hforever : ∀ j≥k, Joinable (x.state j) := x.invariant_from hwaiting
    fun j hj a ha hold => hold.others (hinv j) (hsilent j (by omega) a ha) (x.moves j a ha)
  obtain ⟨m,hm,hoff'⟩ := h.coordinator.disabled hsilent (show n ≤ k by omega)
  obtain ⟨pc',b',hb',hended'⟩ := hforever m hm
  have hjoin := join_enabled (hinv m) pc' hb' hended'
  rw [hoff' _ rfl] at hjoin
  cases hjoin

/-- A coordinator that has returned does nothing more. -/
theorem stops_of_returned {s : State spec} {done : Recorder spec} {rep : WorkflowReport spec}
    (pc : s.pc=.returned done rep) {a : Action spec} (ha : ofCoordinator a=true) :
    step host ex s a=none := by
  cases a with
  | advance => simp [step,advanceStep,pc]
  | wakeCancel | wakeDeadline | wakeJoin | wakeEmpty => simp [step,waits,pc]
  | _ => cases ha

/-- A finished run that stays as it is afterwards is scheduled: the coordinator has
nothing left to do, and every body it started has ended. -/
theorem scheduled_of_finished (r : FinishedRun host ex spec) : Scheduled (Execution.ofRun r.ran) := by
  constructor
  · intro i henabled
    obtain ⟨a,ha,hstep⟩ := henabled (max i r.actions.length) (Nat.le_max_left _ _)
    rw [Execution.ofRun_state r.ran (Nat.le_max_right _ _),stops_of_returned r.returned ha] at hstep
    cases hstep
  · intro i b hb hopen
    let now : Moment host ex spec := ⟨r.actions.take i,_,Execution.runs_take r.ran i⟩
    have hflight : b.task∈inFlight now.state :=
      List.mem_map_of_mem (List.mem_filter.mpr ⟨hb,by rw [hopen]; rfl⟩)
    obtain ⟨hstarted,hnone⟩ := (mem_inFlight_iff now b.task).mp hflight
    -- at the end the task has started and is no longer in flight, so its body ended
    have hdone : ¬(runningEvents b.task (lastMoment r).log≠[] ∧
        ∀ e, .bodyEnds b.task e∉(lastMoment r).actions) := by
      rw [←mem_inFlight_iff,inFlight,unended,lastMoment,r.execInv.left (by rw [r.returned]; rfl)]
      exact List.not_mem_nil
    have hgrow : now.log<+:(lastMoment r).log := by
      have hran := r.ran
      rw [←List.take_append_drop i r.actions] at hran
      obtain ⟨t,ht,hrest⟩ := runs_append_iff.mp hran
      rw [now.reached] at ht
      cases ht
      exact events_grow (execInv_of_run now.reached) hrest
    have hstill : runningEvents b.task (lastMoment r).log≠[] := by
      obtain ⟨later,hlater⟩ := hgrow
      rw [←hlater,runningEvents,List.filter_append]
      exact List.append_ne_nil_of_left_ne_nil hstarted _
    obtain ⟨e,he⟩ : ∃ e, .bodyEnds b.task e∈r.actions := by
      by_contra hnever
      exact hdone ⟨hstill,fun e he => hnever ⟨e,he⟩⟩
    rw [←List.take_append_drop i r.actions] at he
    obtain ⟨k,hk⟩ := List.mem_iff_getElem?.mp ((List.mem_append.mp he).resolve_left (hnone e))
    exact ⟨i+k,Nat.le_add_right i k,e,by rw [←hk]; exact (List.getElem?_drop ..).symm⟩

/-- Along every run the loop makes at most three rounds more than there are tasks,
restarts its pass at most once and is woken by the caller's cancel and by the
deadline at most once each, no `expect` fails, and it is left only with nothing
live and an empty join set. In every execution in which the coordinator goes on
when it can and every started body ends, the run returns. -/
theorem coordinator_terminates (host : Host) (ex : WorkflowExecutor) (spec : WorkflowSpec) :
    (∀ (acts : List (Action spec)) (s : State spec),
      runs (step host ex) (initial ex spec) acts=some s →
        tally (step host ex) beginsRound (initial ex spec) acts ≤ spec.len+3 ∧
        tally (step host ex) restartsPass (initial ex spec) acts ≤ 1 ∧
        tally (step host ex) wakesForCancel (initial ex spec) acts ≤ 1 ∧
        tally (step host ex) wakesForDeadline (initial ex spec) acts ≤ 1 ∧
        s.pc≠.panicked ∧ (left s.pc=true → s.live=0 ∧ s.bodies=[])) ∧
      ∀ x : Execution (step host ex) (initial ex spec), Scheduled x →
        ∃ n done rep, (x.state n).pc=.returned done rep := by
  refine ⟨fun acts s hrun => ?_,fun x hx => eventually_returns hx⟩
  obtain ⟨hrounds,hpass,hcancel,hdeadline,-⟩ := rounds_bounded hrun
  have hi := execInv_of_run hrun
  refine ⟨hrounds,hpass,hcancel,hdeadline,hi.safe,fun hleft => ?_⟩
  have hempty := hi.left hleft
  exact ⟨by rw [hi.live,hempty]; rfl,hempty⟩

end AegisRuntime.WorkflowTermination
