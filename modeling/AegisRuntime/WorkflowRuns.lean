import AegisRuntime.WorkflowPasses
import AegisRuntime.WorkflowSteps

/-!
# The invariant of the coordinator and its refinement of the lifecycle machine

The bodies in the join set are exactly the running tasks, each tracked once, and
the permits taken are those of the bodies still running. Every step of the
coordinator is a run of lifecycle moves, so every run of the executor is one,
with each settlement matched to the body that ended.
-/

namespace AegisRuntime.WorkflowRuns

open LabelledRuns FailureRecords WorkflowGraph WorkflowLedger
open WorkflowCoordinator WorkflowMoves WorkflowHistory WorkflowPasses WorkflowSteps

variable {spec : WorkflowSpec}

/-- Permits the coordinator itself holds. -/
def held : Pc spec → ℕ
  | .launch _ _ => 1
  | _ => 0

/-- The task the coordinator is about to start. -/
def target : Pc spec → Option spec.Task
  | .acquire t _ | .launch t _ => some t
  | _ => none

/-- Whether the coordinator is in its start pass. -/
def starting : Pc spec → Bool
  | .startPass _ | .acquire _ _ | .launch _ _ => true
  | _ => false

/-- Whether the coordinator has left its loop. -/
def left : Pc spec → Bool
  | .exit | .returned _ _ => true
  | _ => false

/-- Bodies that have not ended. -/
def unended (bodies : List (Body spec)) : List (Body spec) := bodies.filter fun b => b.ended.isNone

/-- What the coordinator keeps true. -/
structure ExecInv (host : Host) (ex : WorkflowExecutor) (s : State spec) : Prop where
  /-- The running tasks are those of the join set. -/
  running : ∀ t, s.recorder.stateOf t=.running ↔ t∈s.bodies.map Body.task
  /-- No task has two bodies. -/
  tasks : (s.bodies.map Body.task).Nodup
  /-- No two bodies share an identifier. -/
  joinIds : (s.bodies.map Body.joinId).Nodup
  /-- Identifiers in use were handed out. -/
  fresh : ∀ b∈s.bodies, b.joinId < s.nextJoin
  /-- Every body is tracked under its identifier. -/
  tracked : s.byJoinId=s.bodies.map fun b => (b.joinId,b.task)
  /-- The counter counts the join set. -/
  live : s.live=s.bodies.length
  /-- Permits are conserved. -/
  permits : s.available+(unended s.bodies).length+held s.pc=ex.config.maxParallel
  /-- A task about to start is ready. -/
  ready : ∀ t, target s.pc=some t → s.recorder.stateOf t=.ready
  /-- The start pass begins only while no cancel was seen. -/
  starting : starting s.pc=true → s.cancelSeen=false
  /-- An exhausted budget has tripped the run token. -/
  budget : s.budgetExhausted=true → s.runCancelled=true
  /-- No `expect` has failed. -/
  safe : s.pc≠.panicked
  /-- The loop is left with an empty join set. -/
  left : left s.pc=true → s.bodies=[]
  /-- A report is made from the last ledger; after a cancel that ledger is terminal. -/
  reported : ∀ done rep, s.pc=.returned done rep →
    report host s.recorder s.peak s.budgetExhausted s.cancelSeen=(done,rep) ∧
      (s.cancelSeen=true → ∀ t, (s.recorder.stateOf t).isTerminal=true)

variable {host : Host} {ex : WorkflowExecutor}

theorem ExecInv.initial (spec : WorkflowSpec) : ExecInv host ex (initial ex spec) := by
  refine ⟨fun t => ?_,List.nodup_nil,List.nodup_nil,nofun,rfl,rfl,rfl,nofun,nofun,nofun,nofun,nofun,
    nofun⟩
  simp [WorkflowCoordinator.initial,Recorder.start,Recorder.stateOf]

theorem endBody_task (t : spec.Task) (e : BodyEnd) (b : Body spec) : (endBody t e b).task=b.task := by
  unfold endBody
  split <;> rfl

theorem endBody_joinId (t : spec.Task) (e : BodyEnd) (b : Body spec) :
    (endBody t e b).joinId=b.joinId := by
  unfold endBody
  split <;> rfl

theorem map_endBody (t : spec.Task) (e : BodyEnd) (bodies : List (Body spec)) :
    (bodies.map (endBody t e)).map Body.task=bodies.map Body.task ∧
      (bodies.map (endBody t e)).map Body.joinId=bodies.map Body.joinId ∧
      ((bodies.map (endBody t e)).map fun b => (b.joinId,b.task))=
        bodies.map fun b => (b.joinId,b.task) := by
  simp only [List.map_map,Function.comp_def,endBody_task,endBody_joinId,and_self]

/-- Exactly one running body ends when no task has two. -/
theorem unended_map_endBody {t : spec.Task} {e : BodyEnd} {bodies : List (Body spec)}
    (hnodup : (bodies.map Body.task).Nodup)
    (hruns : (bodies.any fun b => decide (b.task=t) && b.ended.isNone)=true) :
    (unended (bodies.map (endBody t e))).length+1=(unended bodies).length := by
  induction bodies with
  | nil => simp at hruns
  | cons b bodies ih =>
    rw [List.map_cons,List.nodup_cons] at hnodup
    rw [List.any_cons,Bool.or_eq_true] at hruns
    by_cases hb : b.task=t ∧ b.ended.isNone=true
    · -- the first match is the only body of the task
      have hrest : bodies.map (endBody t e)=bodies := by
        refine (List.map_congr_left fun b' hb' => ?_).trans (List.map_id bodies)
        rw [endBody,if_neg,id]
        rintro ⟨htask,-⟩
        exact hnodup.1 (List.mem_map.mpr ⟨b',hb',by rw [htask,hb.1]⟩)
      simp [unended,hrest,endBody,hb.1,hb.2]
    · have hany : (bodies.any fun b => decide (b.task=t) && b.ended.isNone)=true := by
        rcases hruns with hruns|hruns
        · simp only [Bool.and_eq_true,decide_eq_true_eq] at hruns
          exact absurd hruns hb
        · exact hruns
      have hrec := ih hnodup.2 hany
      have hsame : endBody t e b=b := if_neg hb
      simp only [unended,List.map_cons,hsame,List.filter_cons] at hrec ⊢
      split
      · simp only [List.length_cons]
        omega
      · exact hrec

/-- The tracking map and the join set answer alike. -/
theorem lookup_tracked (bodies : List (Body spec)) (joinId : ℕ) :
    (bodies.map fun b => (b.joinId,b.task)).lookup joinId=
      (bodies.find? fun b => b.joinId=joinId).map Body.task := by
  induction bodies with
  | nil => rfl
  | cons b bodies ih =>
    rw [List.map_cons,List.lookup_cons,List.find?_cons,ih]
    by_cases hb : b.joinId=joinId
    · simp [hb]
    · have hne : (joinId==b.joinId)=false := beq_eq_false_iff_ne.mpr (Ne.symm hb)
      simp [hb,hne]

/-- Joining a body takes exactly that body out of the join set. -/
theorem split_joined {bodies : List (Body spec)} {joinId : ℕ} {b : Body spec}
    (hnodup : (bodies.map Body.joinId).Nodup)
    (hfound : bodies.find? (fun b => b.joinId=joinId)=some b) :
    b.joinId=joinId ∧ ∃ pre post, bodies=pre++b::post ∧
      bodies.filter (fun b => decide (b.joinId≠joinId))=pre++post := by
  obtain ⟨hb,pre,post,rfl,hpre⟩ := List.find?_eq_some_iff_append.mp hfound
  rw [decide_eq_true_eq] at hb
  refine ⟨hb,pre,post,rfl,?_⟩
  have hothers : ∀ b'∈pre++post, b'.joinId≠joinId := by
    rw [List.map_append,List.map_cons,List.nodup_append,List.nodup_cons] at hnodup
    intro b' hb'
    rcases List.mem_append.mp hb' with hb'|hb'
    · simpa using hpre b' hb'
    · intro heq
      exact hnodup.2.1.1 (List.mem_map.mpr ⟨b',hb',heq.trans hb.symm⟩)
  rw [List.filter_append,List.filter_cons_of_neg (by simp [hb]),←List.filter_append,
    List.filter_eq_self]
  simpa using hothers

/-- Moving on without touching ledger, join set or permits. -/
theorem ExecInv.goto {s : State spec} (h : ExecInv host ex s) {pc : Pc spec}
    (hheld : held pc=held s.pc) (hready : ∀ t, target pc=some t → s.recorder.stateOf t=.ready)
    (hstarting : WorkflowRuns.starting pc=true → s.cancelSeen=false) (hsafe : pc≠.panicked)
    (hleft : WorkflowRuns.left pc=true → s.bodies=[]) (hreturned : ∀ done rep, pc≠.returned done rep) :
    ExecInv host ex {s with pc := pc} :=
  {h with
    permits := by
      show s.available+(unended s.bodies).length+held pc=_
      rw [hheld]
      exact h.permits
    ready := hready
    starting := hstarting
    safe := hsafe
    left := hleft
    reported := fun done rep hpc => absurd hpc (hreturned done rep)}

/-- Replacing the ledger by one with the same running tasks. -/
theorem ExecInv.rewrite {s : State spec} (h : ExecInv host ex s) {rec : Recorder spec}
    (hrunning : ∀ t, rec.stateOf t=.running ↔ s.recorder.stateOf t=.running)
    (htarget : target s.pc=none) (hreturned : ∀ done rep, s.pc≠.returned done rep) :
    ExecInv host ex {s with recorder := rec} :=
  {h with
    running := fun t => (hrunning t).trans (h.running t)
    ready := fun t ht => by
      rw [htarget] at ht
      cases ht
    reported := fun done rep hpc => absurd hpc (hreturned done rep)}

theorem cancelOpen_running_iff (host : Host) (ex : WorkflowExecutor) (rec : Recorder spec) (t : spec.Task) :
    (cancelOpen host ex rec).stateOf t=.running ↔ rec.stateOf t=.running := by
  obtain ⟨moves,hruns,hall⟩ := cancelOpen_moves host ex rec
  exact running_of_moves hruns (fun m hm => Or.inr (hall m hm)) t

theorem propagate_running_iff (host : Host) (ex : WorkflowExecutor) (rec : Recorder spec) (t : spec.Task) :
    (propagate host ex rec).stateOf t=.running ↔ rec.stateOf t=.running := by
  obtain ⟨moves,hruns,hall,-⟩ := propagate_spec host ex rec
  exact running_of_moves hruns (fun m hm => Or.inl (hall m hm)) t

/-- A running body is in the join set and has not ended. -/
theorem unended_ne_nil {s : State spec} {t : spec.Task} (h : bodyRuns s t=true) :
    unended s.bodies≠[] := by
  obtain ⟨b,hb,htest⟩ := List.any_eq_true.mp h
  rw [Bool.and_eq_true] at htest
  exact List.ne_nil_of_mem (List.mem_filter.mpr ⟨hb,htest.2⟩)

theorem bodies_ne_nil {s : State spec} {t : spec.Task} (h : bodyRuns s t=true) : s.bodies≠[] := by
  intro hnil
  have hrunning := unended_ne_nil h
  rw [hnil] at hrunning
  exact hrunning rfl

/-- The end of a body frees one permit. -/
theorem ExecInv.bodyEnds {s : State spec} (h : ExecInv host ex s) {t : spec.Task} {e : BodyEnd}
    (hruns : bodyRuns s t=true) : ExecInv host ex
      {s with bodies := s.bodies.map (endBody t e),available := s.available+1} := by
  obtain ⟨htasks,hjoins,hpairs⟩ := map_endBody t e s.bodies
  have hcount := unended_map_endBody (e:=e) h.tasks hruns
  have hbusy := bodies_ne_nil hruns
  refine {h with
    running := ?_
    tasks := ?_
    joinIds := ?_
    fresh := ?_
    tracked := ?_
    live := ?_
    permits := ?_
    left := ?_}
  · intro u
    rw [htasks]
    exact h.running u
  · rw [htasks]
    exact h.tasks
  · rw [hjoins]
    exact h.joinIds
  · intro b hb
    obtain ⟨b',hb',rfl⟩ := List.mem_map.mp hb
    rw [endBody_joinId]
    exact h.fresh b' hb'
  · rw [hpairs]
    exact h.tracked
  · rw [List.length_map]
    exact h.live
  · have hp := h.permits
    show s.available+1+(unended (s.bodies.map (endBody t e))).length+held s.pc=_
    omega
  · intro hleft
    exact absurd (h.left hleft) hbusy

/-- The launch hands the coordinator's permit to a fresh body. -/
theorem ExecInv.launch {s : State spec} (h : ExecInv host ex s) {t : spec.Task}
    {rest : List spec.Task} (hpc : s.pc=.launch t rest) :
    ExecInv host ex (launchStep host ex s t rest) := by
  have hready := h.ready t (by rw [hpc]; rfl)
  have hnew : t∉s.bodies.map Body.task := by
    intro hin
    rw [(h.running t).mpr hin] at hready
    cases hready
  refine ⟨?_,?_,?_,?_,?_,?_,?_,nofun,?_,h.budget,nofun,nofun,nofun⟩
  · intro u
    simp only [launchStep,Recorder.stateOf,Recorder.transition_states,List.map_append,List.map_cons,
      List.map_nil,List.mem_append,List.mem_singleton]
    by_cases hu : u=t
    · simp [hu]
    · simpa [hu,Recorder.stateOf] using h.running u
  · simp only [launchStep,List.map_append,List.map_cons,List.map_nil]
    exact List.nodup_append.mpr ⟨h.tasks,by simp,fun u hu v hv huv => hnew (by simp_all)⟩
  · simp only [launchStep,List.map_append,List.map_cons,List.map_nil]
    refine List.nodup_append.mpr ⟨h.joinIds,by simp,fun i hi j hj hij => ?_⟩
    obtain ⟨b,hb,rfl⟩ := List.mem_map.mp hi
    have hlt := h.fresh b hb
    rw [hij,List.mem_singleton.mp hj] at hlt
    exact Nat.lt_irrefl _ hlt
  · intro b hb
    simp only [launchStep,List.mem_append,List.mem_singleton] at hb ⊢
    rcases hb with hb|rfl
    · exact Nat.lt_succ_of_lt (h.fresh b hb)
    · exact Nat.lt_succ_self _
  · simp only [launchStep,List.map_append,h.tracked,List.map_cons,List.map_nil]
  · simp only [launchStep,List.length_append,h.live,List.length_cons,List.length_nil]
  · have hp := h.permits
    simp only [hpc,held,unended] at hp
    simp only [launchStep,unended,held,List.filter_append,List.length_append]
    simp only [List.filter_cons,Option.isNone_none,if_true,List.filter_nil,List.length_cons,
      List.length_nil]
    omega
  · intro _
    exact h.starting (by rw [hpc]; rfl)

/-- What the coordinator knows of a finished body it joins. -/
theorem ExecInv.joined {s : State spec} (h : ExecInv host ex s) {joinId : ℕ} {b : Body spec}
    (hfound : s.bodies.find? (fun b => b.joinId=joinId)=some b) :
    s.byJoinId.lookup joinId=some b.task ∧ s.recorder.stateOf b.task=.running := by
  refine ⟨?_,(h.running b.task).mpr (List.mem_map_of_mem (List.mem_of_find?_eq_some hfound))⟩
  rw [h.tracked,lookup_tracked,hfound]
  rfl

/-- Joining a body settles its task and forgets it. -/
theorem ExecInv.join {s : State spec} (h : ExecInv host ex s) {joinId : ℕ} {b : Body spec}
    {e : BodyEnd} (hpc : s.pc=.select)
    (hfound : s.bodies.find? (fun b => b.joinId=joinId)=some b) (hended : b.ended=some e) :
    ExecInv host ex {s with
      pc := .loopHead
      live := s.live-1
      bodies := s.bodies.filter fun b => decide (b.joinId≠joinId)
      byJoinId := s.byJoinId.filter fun entry => decide (entry.1≠joinId)
      recorder := settleJoined host ex s.recorder b.task e} := by
  obtain ⟨hid,pre,post,hsplit,hrest⟩ := split_joined h.joinIds hfound
  have htasks := h.tasks
  have hjoins := h.joinIds
  have hrunning := h.running
  have hlive := h.live
  have hp := h.permits
  rw [hsplit] at htasks hjoins hrunning hlive hp
  simp only [List.map_append,List.map_cons] at htasks hjoins hrunning
  refine ⟨?_,?_,?_,?_,?_,?_,?_,nofun,nofun,h.budget,nofun,nofun,nofun⟩ <;>
    simp only [hrest,List.map_append]
  · intro u
    rw [settleJoined_running_iff,hrunning u]
    have hout := (List.nodup_middle.mp htasks)
    rw [List.nodup_cons] at hout
    constructor
    · rintro ⟨hne,hu⟩
      simpa [hne] using hu
    · intro hu
      refine ⟨fun heq => hout.1 (heq ▸ hu),?_⟩
      rw [List.mem_append] at hu ⊢
      exact hu.imp_right (List.mem_cons_of_mem _)
  · exact (List.nodup_cons.mp (List.nodup_middle.mp htasks)).2
  · exact (List.nodup_cons.mp (List.nodup_middle.mp hjoins)).2
  · intro b' hb'
    refine h.fresh b' ?_
    rw [hsplit]
    rw [List.mem_append] at hb' ⊢
    exact hb'.imp_right (List.mem_cons_of_mem _)
  · rw [h.tracked,List.filter_map,←List.map_append,←hrest]
    rfl
  · rw [hlive]
    simp only [List.length_append,List.length_cons]
    omega
  · simp only [hpc,held,unended,List.filter_append,List.filter_cons,hended,Option.isNone_some,
      Bool.false_eq_true,if_false] at hp ⊢
    exact hp

/-- Leaving the loop settles what is open and reports. -/
theorem ExecInv.exits {s : State spec} (h : ExecInv host ex s) (hpc : s.pc=.exit) :
    ExecInv host ex (exitStep host ex s) := by
  have hempty := h.left (by rw [hpc]; rfl)
  have hidle : ∀ t, s.recorder.stateOf t≠.running := by
    intro t ht
    rw [h.running t,hempty] at ht
    cases ht
  refine ⟨?_,h.tasks,h.joinIds,h.fresh,h.tracked,h.live,?_,nofun,nofun,h.budget,nofun,
    fun _ => hempty,?_⟩
  · intro t
    simp only [exitStep]
    split
    · exact (cancelOpen_running_iff host ex s.recorder t).trans (h.running t)
    · exact h.running t
  · have hp := h.permits
    rw [hpc] at hp
    exact hp
  · intro done rep hreturned
    simp only [exitStep,Pc.returned.injEq] at hreturned ⊢
    obtain ⟨rfl,rfl⟩ := hreturned
    refine ⟨rfl,fun hseen t => ?_⟩
    rw [if_pos hseen,cancelOpen_stateOf]
    split
    · rename_i hs
      rw [settledOrRunning,Bool.or_eq_true] at hs
      exact hs.resolve_right (by simpa using hidle t)
    · rfl

/-- Every step keeps the invariant. -/
theorem ExecInv.step {s s' : State spec} {a : Action spec} (h : ExecInv host ex s)
    (hstep : step host ex s a=some s') : ExecInv host ex s' := by
  cases step_cases hstep with
  | cancelCaller => exact {h with}
  | tripRunToken => exact {h with budget := fun _ => rfl}
  | deadlinePasses => exact {h with}
  | bodyEnds t e hruns => exact h.bodyEnds hruns
  | headExpires pc =>
    have hgo : ExecInv host ex {s with pc := .cancelCheck} :=
      h.goto (by rw [pc]; rfl) nofun nofun nofun nofun nofun
    exact {hgo with
      budget := fun _ => rfl
      reported := nofun}
  | headPasses pc => exact h.goto (by rw [pc]; rfl) nofun nofun nofun nofun nofun
  | checkCancels pc =>
    have hrec := h.rewrite (cancelOpen_running_iff host ex s.recorder) (by rw [pc]; rfl)
      (by rw [pc]; nofun)
    have hgo : ExecInv host ex
        {s with pc := .liveCheck,recorder := cancelOpen host ex s.recorder} :=
      hrec.goto (by show _=held s.pc; rw [pc]; rfl) nofun nofun nofun nofun nofun
    exact {hgo with
      budget := fun _ => rfl
      starting := nofun
      reported := nofun}
  | checkSeen pc =>
    have hgo : ExecInv host ex {s with pc := .liveCheck} :=
      h.goto (by rw [pc]; rfl) nofun nofun nofun nofun nofun
    exact {hgo with
      budget := fun hb => by
        show (s.callerCancelled || s.runCancelled)=true
        rw [h.budget hb,Bool.or_true]}
  | checkClear pc fresh =>
    have hrec := h.rewrite (propagate_running_iff host ex s.recorder) (by rw [pc]; rfl)
      (by rw [pc]; nofun)
    exact hrec.goto (by show _=held s.pc; rw [pc]; rfl) nofun (fun _ => fresh) nofun nofun nofun
  | passDone pc => exact h.goto (by rw [pc]; rfl) nofun nofun nofun nofun nofun
  | passSkips t rest pc =>
    exact h.goto (by rw [pc]; rfl) nofun (fun _ => h.starting (by rw [pc]; rfl)) nofun nofun nofun
  | passStops t rest pc => exact h.goto (by rw [pc]; rfl) nofun nofun nofun nofun nofun
  | passTries t rest pc ready =>
    refine h.goto (by rw [pc]; rfl) ?_ (fun _ => h.starting (by rw [pc]; rfl)) nofun nofun nofun
    rintro u ⟨⟩
    exact ready
  | acquireFails t rest pc => exact h.goto (by rw [pc]; rfl) nofun nofun nofun nofun nofun
  | acquires t rest pc left =>
    have hp := h.permits
    rw [pc] at hp
    refine {h with
      permits := ?_
      ready := ?_
      starting := fun _ => h.starting (by rw [pc]; rfl)
      safe := nofun
      left := nofun
      reported := nofun}
    · simp only [held] at hp ⊢
      omega
    · rintro u ⟨⟩
      exact h.ready t (by rw [pc]; rfl)
  | launches t rest pc => exact h.launch pc
  | liveNone pc idle =>
    refine h.goto (by rw [pc]; rfl) nofun nofun nofun (fun _ => ?_) nofun
    rw [h.live] at idle
    exact List.length_eq_zero_iff.mp idle
  | liveSome pc => exact h.goto (by rw [pc]; rfl) nofun nofun nofun nofun nofun
  | exits pc => exact h.exits pc
  | wakeCancel pc =>
    have hgo : ExecInv host ex {s with pc := .loopHead} :=
      h.goto (by rw [pc]; rfl) nofun nofun nofun nofun nofun
    exact {hgo with budget := fun _ => rfl}
  | wakeDeadline pc =>
    have hgo : ExecInv host ex {s with pc := .loopHead} :=
      h.goto (by rw [pc]; rfl) nofun nofun nofun nofun nofun
    exact {hgo with
      budget := fun _ => rfl
      reported := nofun}
  | joins joinId b e t pc found ended tracked =>
    have ht := (h.joined found).1
    rw [tracked,Option.some.injEq] at ht
    subst ht
    exact h.join pc found ended
  | joinPanics joinId b e pc found ended untracked =>
    rw [(h.joined found).1] at untracked
    cases untracked
  | wakeEmpty pc empty => exact h.goto (by rw [pc]; rfl) nofun nofun nofun (fun _ => empty) nofun

/-- The invariant holds throughout every run. -/
theorem execInv_of_run {acts : List (Action spec)} {s : State spec}
    (h : runs (step host ex) (initial ex spec) acts=some s) : ExecInv host ex s :=
  run_invariant (ExecInv.initial spec) (fun _ _ _ hi hstep => hi.step hstep) h

end AegisRuntime.WorkflowRuns
