import AegisRuntime.WorkflowReports

/-!
# The reference meaning of a graph and the runs that compute it

Given how every body ends, a task is skipped after a predecessor that ended
without success, ends as its body does after completed predecessors, and stays
pending behind anything else. The coordinator never loses a wake-up: it leaves
its loop only with nothing ready, nothing running and nothing left to propagate,
so a run without a cancel ends in exactly these states, whatever the order.
-/

namespace AegisRuntime.WorkflowMeaning

open LabelledRuns PrecedenceGraphs FailureRecords WorkflowGraph WorkflowLedger
open WorkflowCoordinator WorkflowMoves WorkflowHistory WorkflowPasses WorkflowSteps WorkflowRuns
open WorkflowTraces

variable {spec : WorkflowSpec} {host : Host} {ex : WorkflowExecutor}

/-- Kinds that skip the dependents of a task. -/
def badKind : StateKind → Bool
  | .failed | .cancelled | .skipped => true
  | _ => false

theorem endedBadly_eq_badKind (s : TaskState) : endedBadly s=badKind s.kind := by
  cases s <;> rfl

theorem eq_completed_iff_kind {s : TaskState} : s=.completed ↔ s.kind=.completed := by
  cases s <;> simp [TaskState.kind]

/-- The kind a task ends in, from the end of its body and the kinds of its
predecessors. -/
def taskMeaning (out : spec.Task → BodyEnd) (t : spec.Task) (preds : List StateKind) : StateKind :=
  if preds.any badKind then .skipped
  else if preds.all fun k => decide (k=.completed) then endKind (out t)
  else .pending

/-- The reference meaning, by recursion over the graph. -/
noncomputable def fin (out : spec.Task → BodyEnd) : spec.Task → StateKind :=
  evaluate spec.deps_wellFounded (taskMeaning out)

theorem fin_eq (out : spec.Task → BodyEnd) (t : spec.Task) :
    fin out t=taskMeaning out t ((spec.deps t).map (fin out)) :=
  evaluate_eq spec.deps_wellFounded (taskMeaning out) t

/-- No task is left ready or running by the reference meaning. -/
theorem fin_settled (out : spec.Task → BodyEnd) (t : spec.Task) :
    fin out t≠.ready ∧ fin out t≠.running := by
  rw [fin_eq,taskMeaning]
  split
  · exact ⟨StateKind.noConfusion,StateKind.noConfusion⟩
  split
  · have hle := three_le_rank_endKind (out t)
    refine ⟨fun h => ?_,fun h => ?_⟩ <;> rw [h] at hle <;> exact absurd hle (by decide)
  · exact ⟨StateKind.noConfusion,StateKind.noConfusion⟩

/-- A ledger at rest: nothing is ready, nothing runs, nothing can be propagated. -/
structure AtRest (rec : Recorder spec) : Prop where
  /-- Nothing is ready. -/
  ready : ∀ t, rec.stateOf t≠.ready
  /-- Nothing runs. -/
  running : ∀ t, rec.stateOf t≠.running
  /-- No propagation rule applies. -/
  stuck : ∀ t, Stuck rec t

/-- A task that is neither ready nor running and has not ended or waited is pending. -/
theorem pending_of_rank {s : TaskState} (hrank : ¬3 ≤ rank s.kind) (hready : s≠.ready)
    (hrunning : s≠.running) : s=.pending := by
  cases s with
  | pending => rfl
  | ready => exact absurd rfl hready
  | running => exact absurd rfl hrunning
  | _ => exact absurd (by simp [TaskState.kind,rank]) hrank

/-- Moves without cancellations that settle only the given ends lead, once at
rest, to the reference meaning. -/
theorem kind_eq_fin {moves : List (Move spec)} {rec : Recorder spec} {out : spec.Task → BodyEnd}
    (h : MoveHistory moves rec) (hrest : AtRest rec) (hcancel : ∀ m∈moves, m.cancels=false)
    (hout : ∀ t e, Move.settle t e∈moves → e=out t) (t : spec.Task) :
    (rec.stateOf t).kind=fin out t := by
  induction t using spec.deps_wellFounded.induction with
  | _ t ih =>
    have hpreds : (spec.deps t).map (fin out)=(spec.deps t).map fun d => (rec.stateOf d).kind :=
      List.map_congr_left fun d hd => (ih d hd).symm
    rw [fin_eq,hpreds,taskMeaning]
    have hbad : ((spec.deps t).map fun d => (rec.stateOf d).kind).any badKind=
        (spec.deps t).any fun d => endedBadly (rec.stateOf d) := by
      simp only [List.any_map,Function.comp_def,endedBadly_eq_badKind]
    have hgood : (((spec.deps t).map fun d => (rec.stateOf d).kind).all fun k =>
        decide (k=.completed))=(spec.deps t).all fun d => decide (rec.stateOf d=.completed) := by
      simp only [List.all_map,Function.comp_def,eq_completed_iff_kind]
    rw [hbad,hgood]
    by_cases hrank : 3 ≤ rank (rec.stateOf t).kind
    · cases h.origin t hrank with
      | settled e mem kind =>
        have hdone := h.deps t e mem
        rw [if_neg,if_pos,kind,hout t e mem]
        · simpa using hdone
        · rw [Bool.not_eq_true,List.any_eq_false]
          intro d hd
          rw [hdone d hd]
          exact Bool.noConfusion
      | skipped bad mem ended state =>
        rw [if_pos (List.any_eq_true.mpr ⟨bad,mem,ended⟩),state]
        rfl
      | unstarted mem => exact absurd (hcancel _ mem) (by simp [Move.cancels])
      | waiting mem => exact absurd (hcancel _ mem) (by simp [Move.cancels])
    · have hpending := pending_of_rank hrank (hrest.ready t) (hrest.running t)
      obtain ⟨hnone,hopen⟩ := hrest.stuck t hpending
      rw [if_neg,if_neg,hpending]
      · rfl
      · simpa using hopen
      · rw [Bool.not_eq_true,List.any_eq_false]
        intro d hd
        rw [hnone d hd]
        exact Bool.noConfusion

/-- Tasks the start pass has still to look at. -/
def queue : Pc spec → Option (List spec.Task)
  | .startPass rest => some rest
  | .acquire t rest | .launch t rest => some (t::rest)
  | _ => none

/-- Whether the coordinator has propagated in this round of its loop. -/
def propagated : Pc spec → Bool
  | .loopHead | .cancelCheck | .panicked => false
  | _ => true

/-- Whether the coordinator is about to wait. -/
def waiting : Pc spec → Bool
  | .liveCheck | .select => true
  | _ => false

/-- What keeps the coordinator from losing a wake-up while no cancel was seen. -/
structure WakeInv (s : State spec) : Prop where
  /-- The last propagation reached a fixpoint that starts do not disturb. -/
  stuck : propagated s.pc=true → ∀ t, Stuck s.recorder t
  /-- The start pass forgets no ready task. -/
  queued : ∀ rest, queue s.pc=some rest → ∀ t, s.recorder.stateOf t=.ready → t∈rest
  /-- The coordinator waits with a ready task only for a body that holds a permit. -/
  held : waiting s.pc=true → (∀ t, s.recorder.stateOf t≠.ready) ∨ s.live≠0
  /-- It leaves the loop only with nothing ready. -/
  finished : left s.pc=true → ∀ t, s.recorder.stateOf t≠.ready

theorem outside_of_unpropagated {pc : Pc spec} (h : propagated pc=false) :
    queue pc=none ∧ waiting pc=false ∧ left pc=false := by
  cases pc <;> first | exact ⟨rfl,rfl,rfl⟩ | cases h

theorem outside_of_queue {pc : Pc spec} {rest : List spec.Task} (h : queue pc=some rest) :
    waiting pc=false ∧ left pc=false := by
  cases pc <;> first | exact ⟨rfl,rfl⟩ | cases h

theorem outside_of_waiting {pc : Pc spec} (h : waiting pc=true) :
    queue pc=none ∧ left pc=false := by
  cases pc <;> first | exact ⟨rfl,rfl⟩ | cases h

theorem outside_of_left {pc : Pc spec} (h : left pc=true) :
    queue pc=none ∧ waiting pc=false := by
  cases pc <;> first | exact ⟨rfl,rfl⟩ | cases h

/-- Before the propagation of a round nothing is claimed. -/
theorem WakeInv.of_unpropagated {s : State spec} (h : propagated s.pc=false) : WakeInv s := by
  obtain ⟨hqueue,hwaiting,hleft⟩ := outside_of_unpropagated h
  refine ⟨fun hp => ?_,fun rest hrest => ?_,fun hw => ?_,fun hl => ?_⟩
  · rw [h] at hp
    cases hp
  · rw [hqueue] at hrest
    cases hrest
  · rw [hwaiting] at hw
    cases hw
  · rw [hleft] at hl
    cases hl

/-- In the start pass only the queue matters. -/
theorem WakeInv.of_queue {s : State spec} {rest : List spec.Task} (h : queue s.pc=some rest)
    (hstuck : ∀ t, Stuck s.recorder t)
    (hqueued : ∀ t, s.recorder.stateOf t=.ready → t∈rest) : WakeInv s := by
  obtain ⟨hwaiting,hleft⟩ := outside_of_queue h
  refine ⟨fun _ => hstuck,fun rest' hrest => ?_,fun hw => ?_,fun hl => ?_⟩
  · rw [h,Option.some.injEq] at hrest
    rwa [←hrest]
  · rw [hwaiting] at hw
    cases hw
  · rw [hleft] at hl
    cases hl

/-- Around the wait only what is awaited matters. -/
theorem WakeInv.of_waiting {s : State spec} (h : waiting s.pc=true)
    (hstuck : ∀ t, Stuck s.recorder t)
    (hheld : (∀ t, s.recorder.stateOf t≠.ready) ∨ s.live≠0) : WakeInv s := by
  obtain ⟨hqueue,hleft⟩ := outside_of_waiting h
  refine ⟨fun _ => hstuck,fun rest hrest => ?_,fun _ => hheld,fun hl => ?_⟩
  · rw [hqueue] at hrest
    cases hrest
  · rw [hleft] at hl
    cases hl

/-- After the loop nothing may be ready. -/
theorem WakeInv.of_left {s : State spec} (h : left s.pc=true) (hstuck : ∀ t, Stuck s.recorder t)
    (hfinished : ∀ t, s.recorder.stateOf t≠.ready) : WakeInv s := by
  obtain ⟨hqueue,hwaiting⟩ := outside_of_left h
  refine ⟨fun _ => hstuck,fun rest hrest => ?_,fun hw => ?_,fun _ => hfinished⟩
  · rw [hqueue] at hrest
    cases hrest
  · rw [hwaiting] at hw
    cases hw

/-- A start neither ends a predecessor nor completes one. -/
theorem stuck_launch {rec : Recorder spec} {u : spec.Task} (h : Stuck rec u) (t : spec.Task) :
    Stuck (rec.transition host t .running none) u := by
  have hstate : ∀ d, (rec.transition host t .running none).stateOf d=
      if d=t then .running else rec.stateOf d := by
    intro d
    simp [Recorder.stateOf,Function.update_apply]
  intro hu
  rw [hstate] at hu
  split at hu
  · cases hu
  obtain ⟨hgood,hopen⟩ := h hu
  refine ⟨fun d hd => ?_,fun hall => hopen fun d hd => ?_⟩
  · rw [hstate]
    split
    · rfl
    · exact hgood d hd
  · have hd' := hall d hd
    rw [hstate] at hd'
    split at hd'
    · cases hd'
    · exact hd'

/-- No step that leaves the cancel unseen loses a wake-up. -/
theorem WakeInv.step {s s' : State spec} {a : Action spec} (h : WakeInv s) (hi : ExecInv host ex s)
    (hunseen : s'.cancelSeen=false) (hstep : step host ex s a=some s') : WakeInv s' := by
  cases step_cases hstep with
  | cancelCaller | tripRunToken | deadlinePasses | bodyEnds => exact ⟨h.stuck,h.queued,h.held,h.finished⟩
  | headExpires | headPasses | passStops | wakeCancel | wakeDeadline | joins | joinPanics =>
    exact WakeInv.of_unpropagated rfl
  | checkCancels => cases hunseen
  | checkSeen pc seen =>
    simp only [seen] at hunseen
    cases hunseen
  | checkClear pc fresh =>
    obtain ⟨moves,-,-,hstuck⟩ := propagate_spec host ex s.recorder
    exact WakeInv.of_queue rfl hstuck fun t _ => spec.mem_ids t
  | passDone pc =>
    have hstuck := h.stuck (by rw [pc]; rfl)
    have hqueued := h.queued [] (by rw [pc]; rfl)
    exact WakeInv.of_waiting rfl hstuck (Or.inl fun t ht => List.not_mem_nil (hqueued t ht))
  | passSkips t rest pc other =>
    have hqueued := h.queued (t::rest) (by rw [pc]; rfl)
    refine WakeInv.of_queue rfl (h.stuck (by rw [pc]; rfl)) fun u hu => ?_
    have hne : u≠t := fun heq => other (by rw [←heq]; exact hu)
    exact List.mem_of_ne_of_mem hne (hqueued u hu)
  | passTries t rest pc =>
    exact WakeInv.of_queue rfl (h.stuck (by rw [pc]; rfl)) (h.queued (t::rest) (by rw [pc]; rfl))
  | acquireFails t rest pc empty =>
    -- all permits are out, and there is at least one, so some body is live
    have hp := hi.permits
    have hpos := ex.maxParallel_pos
    have hle := List.length_filter_le (fun b : Body spec => b.ended.isNone) s.bodies
    have hlive := hi.live
    simp only [pc,WorkflowRuns.held,unended,empty] at hp
    have hbusy : s.live≠0 := by omega
    exact WakeInv.of_waiting rfl (h.stuck (by rw [pc]; rfl)) (Or.inr hbusy)
  | acquires t rest pc =>
    exact WakeInv.of_queue rfl (h.stuck (by rw [pc]; rfl)) (h.queued (t::rest) (by rw [pc]; rfl))
  | launches t rest pc =>
    have hstuck := h.stuck (by rw [pc]; rfl)
    have hqueued := h.queued (t::rest) (by rw [pc]; rfl)
    refine WakeInv.of_queue rfl (fun u => stuck_launch (hstuck u) t) fun u hu => ?_
    simp only [launchStep,Recorder.stateOf,Recorder.transition_states,Function.update_apply] at hu
    split at hu
    · cases hu
    rename_i hne
    exact List.mem_of_ne_of_mem hne (hqueued u hu)
  | liveNone pc idle =>
    have hheld := h.held (by rw [pc]; rfl)
    exact WakeInv.of_left rfl (h.stuck (by rw [pc]; rfl)) (hheld.resolve_right (not_not.mpr idle))
  | liveSome pc =>
    exact WakeInv.of_waiting rfl (h.stuck (by rw [pc]; rfl)) (h.held (by rw [pc]; rfl))
  | exits pc =>
    have hsame : (exitStep host ex s).recorder=s.recorder := by
      have hs : s.cancelSeen=false := hunseen
      simp [exitStep,hs]
    refine WakeInv.of_left rfl ?_ ?_ <;> rw [hsame]
    · exact h.stuck (by rw [pc]; rfl)
    · exact h.finished (by rw [pc]; rfl)
  | wakeEmpty pc empty =>
    have hheld := h.held (by rw [pc]; rfl)
    have hidle : s.live=0 := by rw [hi.live,empty]; rfl
    exact WakeInv.of_left rfl (h.stuck (by rw [pc]; rfl)) (hheld.resolve_right (not_not.mpr hidle))

theorem wakeInv_of_run {acts : List (Action spec)} {s : State spec}
    (h : runs (step host ex) (initial ex spec) acts=some s) (hunseen : s.cancelSeen=false) :
    WakeInv s := by
  refine history_invariant (I:=fun _ s => s.cancelSeen=false → WakeInv s)
    (fun _ => WakeInv.of_unpropagated rfl) ?_ h hunseen
  intro acts t a u ht hwake hstep hu
  refine (hwake ?_).step (execInv_of_run ht) hu hstep
  rw [←Bool.not_eq_true]
  intro hseen
  rw [step_cancelSeen hstep hseen] at hu
  cases hu

/-- A finished run that sees no cancel and no deadline and in which every body
ends as assigned. -/
structure QuietRun (host : Host) (ex : WorkflowExecutor) (out : spec.Task → BodyEnd) extends
    FinishedRun host ex spec where
  /-- No step observes a cancel or the deadline. -/
  quiet : ∀ before a after s, actions=before++a::after →
    runs (step host ex) (initial ex spec) before=some s → observes s a=false
  /-- Every body ends as assigned. -/
  assigned : ∀ t e, .bodyEnds t e∈actions → e=out t

/-- Whether no action of a list observes a cancel or the deadline. -/
def quietly (host : Host) (ex : WorkflowExecutor) : State spec → List (Action spec) → Bool
  | _,[] => true
  | s,a::acts => !observes s a &&
    match step host ex s a with
    | some s' => quietly host ex s' acts
    | none => true

theorem quietly_eq_along (acts : List (Action spec)) (s : State spec) :
    quietly host ex s acts=along (step host ex) (fun s a => !observes s a) s acts := by
  induction acts generalizing s with
  | nil => rfl
  | cons a acts ih =>
    rw [quietly,along]
    cases step host ex s a with
    | none => rfl
    | some s' => exact congrArg (!observes s a && ·) (ih s')

theorem quiet_of_quietly {acts : List (Action spec)} {s : State spec}
    (h : quietly host ex s acts=true) : ∀ before a after t, acts=before++a::after →
      runs (step host ex) s before=some t → observes t a=false := by
  rw [quietly_eq_along] at h
  intro before a after t hsplit ht
  have htest := test_of_along h before a after t hsplit ht
  rwa [Bool.not_eq_true'] at htest

/-- A quiet run ends at rest. -/
theorem QuietRun.atRest {out : spec.Task → BodyEnd} (r : QuietRun host ex out) :
    r.final.cancelSeen=false ∧ AtRest r.final.recorder := by
  have hunseen : r.final.cancelSeen=false := by
    rw [←Bool.not_eq_true]
    intro hseen
    obtain ⟨before,a,after,s,hsplit,hs,hobs⟩ := observed_of_cancelSeen r.ran hseen
    rw [r.quiet before a after s hsplit hs] at hobs
    cases hobs
  have hleft : left r.final.pc=true := by
    rw [r.returned]
    rfl
  have hwake := wakeInv_of_run r.ran hunseen
  refine ⟨hunseen,hwake.finished hleft,fun t ht => ?_,hwake.stuck (by rw [r.returned]; rfl)⟩
  rw [r.execInv.running t,r.execInv.left hleft] at ht
  cases ht

/-- A quiet run ends with exactly the reference meaning, so nothing is left
ready or running and any two such runs agree, and every skipped task names a
direct predecessor that ended without success. -/
theorem run_computes_meaning {out : spec.Task → BodyEnd} (r : QuietRun host ex out) :
    (∀ t, (r.report.snapshot.states t).kind=fin out t) ∧
      (∀ t, (r.report.snapshot.states t).kind≠.ready ∧ (r.report.snapshot.states t).kind≠.running) ∧
      (∀ (host' : Host) (ex' : WorkflowExecutor) (r' : QuietRun host' ex' out) (t : spec.Task),
        (r'.report.snapshot.states t).kind=(r.report.snapshot.states t).kind) ∧
      ∀ t p, r.report.snapshot.states t=.skipped p →
        ∃ bad∈spec.deps t, p=bad.1 ∧ endedBadly (r.report.snapshot.states bad)=true := by
  have hkind : ∀ {host' : Host} {ex' : WorkflowExecutor} (r' : QuietRun host' ex' out) (t : spec.Task),
      (r'.report.snapshot.states t).kind=fin out t := by
    intro host' ex' r' t
    obtain ⟨-,moves,hexplains,hhistory⟩ := r'.history
    rw [r'.states_eq]
    refine kind_eq_fin hhistory r'.atRest.2 (hexplains.cancels r'.atRest.1) (fun u e hmem => ?_) t
    exact r'.assigned u e (hexplains.settled u e hmem)
  refine ⟨hkind r,fun t => ?_,fun host' ex' r' t => (hkind r' t).trans (hkind r t).symm,?_⟩
  · rw [hkind r t]
    exact fin_settled out t
  · intro t p hp
    obtain ⟨-,moves,hexplains,hhistory⟩ := r.history
    rw [r.states_eq] at hp ⊢
    have hrank : 3 ≤ rank (r.final.recorder.stateOf t).kind := by
      rw [hp]
      exact Nat.le_succ 3
    cases hhistory.origin t hrank with
    | settled e mem kind =>
      rw [hp] at kind
      rcases e with ((_|_|_|_)|_|_)|_ <;> cases kind
    | skipped bad mem ended state =>
      rw [hp] at state
      cases state
      exact ⟨bad,mem,rfl,ended⟩
    | unstarted mem state => rw [hp] at state; cases state
    | waiting mem reported state => rw [hp] at state; cases state

/-- The run in which the only task completes is quiet. -/
def soleTaskRun : QuietRun stillHost onePermit fun _ : oneTask.Task =>
    .finish (.outcome (.completed .null)) where
  toFinishedRun := FinishedRun.ofActions stillHost onePermit soleTaskCompletes rfl
  quiet := quiet_of_quietly (rfl : quietly stillHost onePermit (initial onePermit oneTask)
    soleTaskCompletes=true)
  assigned := by
    intro t e hmem
    have hends : Action.bodyEnds t e∈soleTaskCompletes := hmem
    simp [soleTaskCompletes] at hends
    exact hends.2

end AegisRuntime.WorkflowMeaning
