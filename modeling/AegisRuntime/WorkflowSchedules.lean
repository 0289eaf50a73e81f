import AegisRuntime.WorkflowMeaning
import AegisRuntime.WorkflowPermits

/-!
# Event order under one permit

With one permit and without a cancel the coordinator works in rounds: it
propagates, starts the first ready task and settles it. The rounds depend on the
ends of the bodies alone, so two runs that keep to them log the same events. A
run keeps to them exactly when no body ends while the start pass has a ready task
ahead: otherwise the pass takes the permit that the body dropped and starts that
task before the finished one is joined.
-/

namespace AegisRuntime.WorkflowSchedules

open LabelledRuns FailureRecords WorkflowGraph WorkflowLedger WorkflowCoordinator WorkflowMoves
open WorkflowPasses WorkflowSteps WorkflowRuns WorkflowTraces WorkflowMeaning WorkflowPermits

variable {spec : WorkflowSpec} {host host' : Host} {ex ex' : WorkflowExecutor}
  {out : spec.Task → BodyEnd}

/-- Two recorders that agree on the log and on the kind of every state. -/
structure Alike (rec rec' : Recorder spec) : Prop where
  /-- The number of the last event. -/
  seq : rec.ledger.seq=rec'.ledger.seq
  /-- The log. -/
  events : rec.ledger.events=rec'.ledger.events
  /-- The kinds. -/
  kinds : ∀ t, (rec.stateOf t).kind=(rec'.stateOf t).kind

/-- The first ready task of a list. -/
def firstReady (rec : Recorder spec) (ts : List spec.Task) : Option spec.Task :=
  ts.find? fun t => decide (rec.stateOf t=.ready)

variable {rec rec' : Recorder spec}

theorem Alike.pending_iff (h : Alike rec rec') (t : spec.Task) :
    rec.stateOf t=.pending ↔ rec'.stateOf t=.pending := by
  have hkind := h.kinds t
  cases hs : rec.stateOf t <;> cases hs' : rec'.stateOf t <;> simp_all [TaskState.kind]

theorem Alike.ready_iff (h : Alike rec rec') (t : spec.Task) :
    rec.stateOf t=.ready ↔ rec'.stateOf t=.ready := by
  have hkind := h.kinds t
  cases hs : rec.stateOf t <;> cases hs' : rec'.stateOf t <;> simp_all [TaskState.kind]

theorem Alike.completed_iff (h : Alike rec rec') (t : spec.Task) :
    rec.stateOf t=.completed ↔ rec'.stateOf t=.completed := by
  rw [eq_completed_iff_kind,eq_completed_iff_kind,h.kinds t]

theorem Alike.endedBadly_eq (h : Alike rec rec') (t : spec.Task) :
    endedBadly (rec.stateOf t)=endedBadly (rec'.stateOf t) := by
  rw [endedBadly_eq_badKind,endedBadly_eq_badKind,h.kinds t]

theorem Alike.firstReady_eq (h : Alike rec rec') (ts : List spec.Task) :
    firstReady rec ts=firstReady rec' ts := by
  have htest : (fun t => decide (rec.stateOf t=.ready))=
      fun t => decide (rec'.stateOf t=.ready) := by
    funext t
    rw [decide_eq_decide]
    exact h.ready_iff t
  rw [firstReady,firstReady,htest]

section Steps

variable (host host' : Host) (ex ex' : WorkflowExecutor)

/-- Entering states of one kind keeps recorders alike. -/
theorem Alike.enter (h : Alike rec rec') (t : spec.Task) (entry entry' : Entry)
    (hkind : entry.state.kind=entry'.state.kind) :
    Alike (enter host rec t entry) (enter host' rec' t entry') := by
  refine ⟨?_,?_,fun u => ?_⟩
  · rw [enter_seq,enter_seq,h.seq]
  · rw [enter_events,enter_events,h.seq,h.events,TaskState.name_eq_kind_name,
      TaskState.name_eq_kind_name,hkind]
  · rw [enter_stateOf,enter_stateOf]
    split
    · exact hkind
    · exact h.kinds u

theorem Alike.transition (h : Alike rec rec') (t : spec.Task) (state : TaskState) :
    Alike (rec.transition host t state none) (rec'.transition host' t state none) :=
  h.enter host host' t ⟨state,none,none⟩ ⟨state,none,none⟩ rfl

theorem Alike.recordEnd (h : Alike rec rec') (t : spec.Task) (f f' : FailureRecord)
    (state : TaskState) : Alike (recordEnd host rec t f state) (recordEnd host' rec' t f' state) :=
  h.enter host host' t ⟨state,some f,none⟩ ⟨state,some f',none⟩ rfl

/-- Recorders within a pass of `propagate` that agree, also on the flag. -/
def AlikePass (pass pass' : Recorder spec×Bool) : Prop := Alike pass.1 pass'.1 ∧ pass.2=pass'.2

/-- One visit of `propagate` decides alike. -/
theorem AlikePass.visit {pass pass' : Recorder spec×Bool} (h : AlikePass pass pass')
    (t : spec.Task) :
    AlikePass (propagateVisit host ex pass t) (propagateVisit host' ex' pass' t) := by
  obtain ⟨hrec,hflag⟩ := h
  have hbad : (spec.deps t).find? (fun d => endedBadly (pass.1.stateOf d))=
      (spec.deps t).find? fun d => endedBadly (pass'.1.stateOf d) := by
    simp only [hrec.endedBadly_eq]
  have hgood : ((spec.deps t).all fun d => decide (pass.1.stateOf d=.completed))=
      (spec.deps t).all fun d => decide (pass'.1.stateOf d=.completed) := by
    simp only [hrec.completed_iff]
  unfold propagateVisit
  simp only [ne_eq,hrec.pending_iff,hbad,hgood]
  split
  · exact ⟨hrec,hflag⟩
  · split
    · refine ⟨?_,rfl⟩
      dsimp only
      exact hrec.recordEnd host host' t _ _ _
    · split
      · exact ⟨hrec.transition host host' t .ready,rfl⟩
      · exact ⟨hrec,hflag⟩

theorem Alike.propagatePass (h : Alike rec rec') :
    AlikePass (propagatePass host ex rec) (propagatePass host' ex' rec') :=
  List.foldl_rel ⟨h,rfl⟩ fun t _ _ _ hpass => hpass.visit host host' ex ex' t

theorem Alike.propagateLoop (h : Alike rec rec') (fuel : ℕ) :
    Alike (propagateLoop host ex fuel rec) (propagateLoop host' ex' fuel rec') := by
  induction fuel generalizing rec rec' with
  | zero => exact h
  | succ fuel ih =>
    obtain ⟨hrec,hflag⟩ := h.propagatePass host host' ex ex'
    simp only [WorkflowCoordinator.propagateLoop,hflag]
    split
    · exact ih hrec
    · exact hrec

theorem Alike.propagate (h : Alike rec rec') : Alike (propagate host ex rec) (propagate host' ex' rec') :=
  h.propagateLoop host host' ex ex' (spec.len+1)

theorem Alike.settleJoined (h : Alike rec rec') (t : spec.Task) (e : BodyEnd) :
    Alike (settleJoined host ex rec t e) (settleJoined host' ex' rec' t e) := by
  rw [settleJoined_eq_enter,settleJoined_eq_enter]
  refine h.enter host host' t _ _ ?_
  rw [settleEntry_kind,settleEntry_kind]

end Steps

/-- One round of the coordinator: propagate, start the first ready task and
settle it as its body ends. -/
def nextRound (host : Host) (ex : WorkflowExecutor) (out : spec.Task → BodyEnd)
    (rec : Recorder spec) (_ : Unit) : Option (Recorder spec) :=
  let opened := propagate host ex rec
  (firstReady opened spec.ids).map fun t =>
    settleJoined host ex (opened.transition host t .running none) t (out t)

/-- Two coordinators work in step. -/
theorem nextRound_alike (h : Alike rec rec') :
    Option.Rel Alike (nextRound host ex out rec ()) (nextRound host' ex' out rec' ()) := by
  have hrec := h.propagate host host' ex ex'
  unfold nextRound
  simp only [hrec.firstReady_eq spec.ids]
  cases firstReady (propagate host' ex' rec') spec.ids with
  | none => exact .none
  | some t => exact .some ((hrec.transition host host' t .running).settleJoined host host' ex ex' t (out t))

section Places

variable (host : Host) (ex : WorkflowExecutor) (out : spec.Task → BodyEnd)

/-- A recorder between two rounds. -/
def Between (rec : Recorder spec) : Prop :=
  ∃ rounds, runs (nextRound host ex out)
    (Recorder.start spec ex.hasBus ex.config.runId ex.config.sessionId) rounds=some rec

/-- The start pass has started nothing, and the first ready task is ahead. -/
structure Choosing (rec : Recorder spec) (bodies : List (Body spec)) (rest : List spec.Task) :
    Prop where
  /-- The round has propagated. -/
  opened : ∃ before, Between host ex out before ∧ rec=propagate host ex before
  /-- The pass will come to the first ready task. -/
  first : firstReady rec rest=firstReady rec spec.ids
  /-- Nothing is in the join set. -/
  empty : bodies=[]

/-- The first ready task was started and is not joined. -/
structure Busy (rec : Recorder spec) (bodies : List (Body spec)) : Prop where
  /-- The round has started its task, whose body is alone in the join set. -/
  started : ∃ before b, Between host ex out before ∧
    firstReady (propagate host ex before) spec.ids=some b.task ∧
    rec=(propagate host ex before).transition host b.task .running none ∧ bodies=[b] ∧
    ∀ e, b.ended=some e → e=out b.task

/-- The round found nothing to start. -/
structure Finished (rec : Recorder spec) (bodies : List (Body spec)) : Prop where
  /-- The round has propagated. -/
  opened : ∃ before, Between host ex out before ∧ rec=propagate host ex before
  /-- Nothing is ready. -/
  idle : firstReady rec spec.ids=none
  /-- Nothing is in the join set. -/
  empty : bodies=[]

/-- What the coordinator has done of its round, by where it stands. -/
def SerialAt (rec : Recorder spec) (bodies : List (Body spec)) : Pc spec → Prop
  | .loopHead | .cancelCheck => Between host ex out rec ∧ bodies=[]
  | .startPass rest => Choosing host ex out rec bodies rest ∨ Busy host ex out rec bodies
  | .acquire t rest | .launch t rest =>
    Choosing host ex out rec bodies (t::rest) ∨ Busy host ex out rec bodies
  | .liveCheck => Finished host ex out rec bodies ∨ Busy host ex out rec bodies
  | .select => Busy host ex out rec bodies
  | .exit | .returned _ _ => Finished host ex out rec bodies
  | .panicked => False

/-- The start pass has no ready task ahead. -/
def PassClear (s : State spec) : Prop :=
  ∀ rest, queue s.pc=some rest → ∀ t∈rest, s.recorder.stateOf t≠.ready

/-- A coordinator that keeps to its rounds. -/
structure SerialInv (s : State spec) : Prop where
  /-- No cancel was seen. -/
  unseen : s.cancelSeen=false
  /-- The round is where the coordinator is. -/
  place : SerialAt host ex out s.recorder s.bodies s.pc
  /-- Once the body has ended, the pass has nothing left to start. -/
  clear : backlog s≠[] → PassClear s

end Places

/-- A body does not end while the start pass has a ready task ahead. -/
def EndsInOrder (s : State spec) (a : Action spec) : Prop := ∀ t e, a=.bodyEnds t e → PassClear s

/-- A step that sees no cancel or deadline, ends bodies as assigned and in order. -/
structure SerialStep (out : spec.Task → BodyEnd) (s : State spec) (a : Action spec) : Prop where
  /-- It sees no cancel and no deadline. -/
  quiet : observes s a=false
  /-- It ends the body of a task as assigned. -/
  assigned : ∀ t e, a=.bodyEnds t e → e=out t
  /-- It ends a body in order. -/
  inOrder : EndsInOrder s a

theorem firstReady_cons_of_ready {t : spec.Task} {rest : List spec.Task}
    (h : rec.stateOf t=.ready) : firstReady rec (t::rest)=some t :=
  List.find?_cons_of_pos (decide_eq_true h)

theorem firstReady_cons_of_ne {t : spec.Task} {rest : List spec.Task}
    (h : rec.stateOf t≠.ready) : firstReady rec (t::rest)=firstReady rec rest := by
  refine List.find?_cons_of_neg ?_
  rw [decide_eq_true_eq]
  exact h

/-- One more round. -/
theorem Between.round {before : Recorder spec} {t : spec.Task} (h : Between host ex out before)
    (hfirst : firstReady (propagate host ex before) spec.ids=some t) :
    Between host ex out (settleJoined host ex
      ((propagate host ex before).transition host t .running none) t (out t)) := by
  obtain ⟨rounds,hruns⟩ := h
  refine ⟨rounds++[()],runs_concat_iff.mpr ⟨before,hruns,?_⟩⟩
  simp only [nextRound,hfirst,Option.map_some]

/-- Outside the start pass nothing is ahead. -/
theorem passClear_of_none {s : State spec} (h : queue s.pc=none) : PassClear s := by
  intro rest hrest
  rw [h] at hrest
  cases hrest

/-- Going on in the pass leaves no more tasks ahead. -/
theorem SerialInv.goto {s : State spec} (h : SerialInv host ex out s) {pc : Pc spec}
    (place : SerialAt host ex out s.recorder s.bodies pc)
    (hahead : ∀ rest, queue pc=some rest →
      ∃ more, queue s.pc=some more ∧ ∀ t∈rest, t∈more) :
    SerialInv host ex out {s with pc := pc} := by
  refine ⟨h.unseen,place,fun hended rest hrest t ht => ?_⟩
  obtain ⟨more,hmore,hsub⟩ := hahead rest hrest
  exact h.clear hended more hmore t (hsub t ht)

/-- Outside the pass nothing is ahead. -/
theorem SerialInv.leave {s : State spec} (h : SerialInv host ex out s) {pc : Pc spec}
    (place : SerialAt host ex out s.recorder s.bodies pc) (houtside : queue pc=none) :
    SerialInv host ex out {s with pc := pc} :=
  ⟨h.unseen,place,fun _ => passClear_of_none houtside⟩

/-- The end of the only body. -/
theorem Busy.bodyEnds {s : State spec} (h : Busy host ex out s.recorder s.bodies) {t : spec.Task}
    {e : BodyEnd} (hruns : bodyRuns s t=true) (he : e=out t) :
    Busy host ex out s.recorder (s.bodies.map (endBody t e)) := by
  obtain ⟨before,b,hbetween,hfirst,hrec,hbodies,hends⟩ := h.started
  have htask : b.task=t ∧ b.ended.isNone=true := by
    simpa [bodyRuns,hbodies] using hruns
  refine ⟨before,endBody t e b,hbetween,?_,?_,by rw [hbodies]; rfl,?_⟩
  · rw [endBody_task]
    exact hfirst
  · rw [endBody_task]
    exact hrec
  · intro e' he'
    rw [endBody_task,htask.1]
    rw [endBody,if_pos htask] at he'
    cases he'
    exact he

theorem SerialInv.bodyEnds {s : State spec} (h : SerialInv host ex out s) {t : spec.Task}
    {e : BodyEnd} (hruns : bodyRuns s t=true) (hg : SerialStep out s (.bodyEnds t e)) :
    SerialInv host ex out
      {s with bodies := s.bodies.map (endBody t e),available := s.available+1} := by
  have hnone := bodies_ne_nil hruns
  have hbusy (hb : Busy host ex out s.recorder s.bodies) :
      Busy host ex out s.recorder (s.bodies.map (endBody t e)) :=
    hb.bodyEnds hruns (hg.assigned t e rfl)
  refine ⟨h.unseen,?_,fun _ => hg.inOrder t e rfl⟩
  have hplace := h.place
  change SerialAt host ex out s.recorder (s.bodies.map (endBody t e)) s.pc
  cases hpc : s.pc <;> rw [hpc] at hplace <;> simp only [SerialAt] at hplace ⊢
  case loopHead | cancelCheck => exact absurd hplace.2 hnone
  case startPass | acquire | launch =>
    rcases hplace with hchoosing|hb
    · exact absurd hchoosing.empty hnone
    · exact Or.inr (hbusy hb)
  case liveCheck =>
    rcases hplace with hfinished|hb
    · exact absurd hfinished.empty hnone
    · exact Or.inr (hbusy hb)
  case select => exact hbusy hplace
  case exit | returned => exact absurd hplace.empty hnone

/-- Starting the first ready task makes the coordinator busy with it. -/
theorem Choosing.launches {bodies : List (Body spec)} {rest : List spec.Task} {t : spec.Task}
    (h : Choosing host ex out rec bodies (t::rest)) (hready : rec.stateOf t=.ready) (joinId : ℕ) :
    Busy host ex out (rec.transition host t .running none) (bodies++[⟨joinId,t,none⟩]) := by
  obtain ⟨before,hbetween,rfl⟩ := h.opened
  refine ⟨before,⟨joinId,t,none⟩,hbetween,?_,rfl,by rw [h.empty]; rfl,nofun⟩
  rw [←h.first]
  exact firstReady_cons_of_ready hready

/-- Joining the only body ends the round. -/
theorem Busy.joins {bodies : List (Body spec)} (h : Busy host ex out rec bodies) {joinId : ℕ}
    {b : Body spec} {e : BodyEnd} (hfound : bodies.find? (fun b => b.joinId=joinId)=some b)
    (hended : b.ended=some e) :
    Between host ex out (settleJoined host ex rec b.task e) ∧
      (bodies.filter fun b => decide (b.joinId≠joinId))=[] := by
  obtain ⟨before,b',hbetween,hfirst,rfl,rfl,hends⟩ := h.started
  have hmem := List.mem_of_find?_eq_some hfound
  rw [List.mem_singleton] at hmem
  subst hmem
  have hid : b.joinId=joinId := by simpa using List.find?_some hfound
  refine ⟨?_,by simp [hid]⟩
  rw [hends e hended]
  exact hbetween.round hfirst

/-- With one permit nothing is started while a body is in the join set. -/
theorem SerialInv.not_busy {s : State spec} (h : SerialInv host ex out s) (hi : ExecInv host ex s)
    (hone : ex.config.maxParallel=1) {t : spec.Task} {rest : List spec.Task}
    (pc : s.pc=.launch t rest) : s.bodies=[] := by
  have hp := hi.permits
  have hcount := length_bodies s
  rw [pc,hone] at hp
  simp only [held] at hp
  by_contra hbodies
  have hpos := List.length_pos_iff.mpr hbodies
  have hended : backlog s≠[] := List.length_pos_iff.mp (by omega)
  exact h.clear hended (t::rest) (by rw [pc]; rfl) t List.mem_cons_self (hi.ready t (by rw [pc]; rfl))

/-- With one permit it is only a body that keeps the start pass from a permit. -/
theorem SerialInv.permit_left {s : State spec} (hi : ExecInv host ex s)
    (hone : ex.config.maxParallel=1) {t : spec.Task} {rest : List spec.Task}
    (pc : s.pc=.acquire t rest) (hempty : s.bodies=[]) : s.available≠0 := by
  have hp := hi.permits
  rw [pc,hone,hempty] at hp
  simp only [held,unended,List.filter_nil,List.length_nil] at hp
  omega

/-- A quiet step in order keeps the coordinator to its rounds. -/
theorem SerialInv.step {s s' : State spec} {a : Action spec} (h : SerialInv host ex out s)
    (hi : ExecInv host ex s) (hone : ex.config.maxParallel=1) (hg : SerialStep out s a)
    (hstep : step host ex s a=some s') : SerialInv host ex out s' := by
  have hplace := h.place
  have hquiet := hg.quiet
  have hunseen := h.unseen
  cases step_cases hstep with
  | cancelCaller | tripRunToken | deadlinePasses => exact ⟨h.unseen,h.place,h.clear⟩
  | bodyEnds t e runs => exact h.bodyEnds runs hg
  | headExpires pc fresh expired => simp [observes,pc,fresh,expired] at hquiet
  | headPasses pc =>
    rw [pc] at hplace
    exact h.leave hplace rfl
  | checkCancels pc fresh cancelled =>
    have hobs : observes s .advance=true := by simpa [observes,pc] using cancelled
    rw [hobs] at hquiet
    cases hquiet
  | checkSeen pc seen =>
    rw [seen] at hunseen
    cases hunseen
  | checkClear pc =>
    rw [pc] at hplace
    obtain ⟨hbetween,hempty⟩ := hplace
    refine ⟨hunseen,Or.inl ⟨⟨s.recorder,hbetween,rfl⟩,rfl,hempty⟩,fun hended => ?_⟩
    exact absurd (show backlog s=[] by rw [backlog,hempty]; rfl) hended
  | passDone pc =>
    rw [pc] at hplace
    refine h.leave ?_ rfl
    rcases hplace with hchoosing|hbusy
    · exact Or.inl ⟨hchoosing.opened,hchoosing.first.symm,hchoosing.empty⟩
    · exact Or.inr hbusy
  | passSkips t rest pc other =>
    rw [pc] at hplace
    refine h.goto ?_ ?_
    · rcases hplace with hchoosing|hbusy
      · refine Or.inl ⟨hchoosing.opened,?_,hchoosing.empty⟩
        rw [←hchoosing.first,firstReady_cons_of_ne other]
      · exact Or.inr hbusy
    · rintro rest' ⟨⟩
      exact ⟨t::rest,by rw [pc]; rfl,fun u hu => List.mem_cons_of_mem t hu⟩
  | passStops t rest pc ready stop =>
    rw [observes_of_passStops pc ready stop] at hquiet
    cases hquiet
  | passTries t rest pc =>
    rw [pc] at hplace
    refine h.goto hplace ?_
    rintro rest' ⟨⟩
    exact ⟨t::rest,by rw [pc]; rfl,fun u hu => hu⟩
  | acquireFails t rest pc empty =>
    rw [pc] at hplace
    refine h.leave ?_ rfl
    rcases hplace with hchoosing|hbusy
    · exact absurd empty (SerialInv.permit_left hi hone pc hchoosing.empty)
    · exact Or.inr hbusy
  | acquires t rest pc left =>
    rw [pc] at hplace
    refine ⟨hunseen,hplace,fun hended => ?_⟩
    rintro rest' ⟨⟩ u hu
    exact h.clear hended (t::rest) (by rw [pc]; rfl) u hu
  | launches t rest pc =>
    rw [pc] at hplace
    have hempty := h.not_busy hi hone pc
    rcases hplace with hchoosing|hbusy
    · refine ⟨hunseen,Or.inr (hchoosing.launches (hi.ready t (by rw [pc]; rfl)) s.nextJoin),?_⟩
      intro hended
      exact absurd (show backlog (launchStep host ex s t rest)=[] by
        simp [backlog,launchStep,hempty]) hended
    · obtain ⟨before,b,-,-,-,hbodies,-⟩ := hbusy.started
      rw [hempty] at hbodies
      cases hbodies
  | liveNone pc idle =>
    rw [pc] at hplace
    refine h.leave ?_ rfl
    rcases hplace with hfinished|hbusy
    · exact hfinished
    · obtain ⟨before,b,-,-,-,hbodies,-⟩ := hbusy.started
      rw [hi.live,hbodies] at idle
      cases idle
  | liveSome pc busy =>
    rw [pc] at hplace
    refine h.leave ?_ rfl
    rcases hplace with hfinished|hbusy
    · exact absurd (by rw [hi.live,hfinished.empty]; rfl) busy
    · exact hbusy
  | exits pc =>
    rw [pc] at hplace
    have hsame : (exitStep host ex s).recorder=s.recorder := by simp [exitStep,hunseen]
    refine ⟨hunseen,?_,fun _ => passClear_of_none rfl⟩
    change Finished host ex out (exitStep host ex s).recorder s.bodies
    rw [hsame]
    exact hplace
  | wakeCancel | wakeDeadline => cases hquiet
  | joins joinId b e t pc found ended tracked =>
    rw [pc] at hplace
    have hjoined := (hi.joined found).1
    rw [tracked,Option.some.injEq] at hjoined
    subst hjoined
    exact ⟨hunseen,hplace.joins found ended,fun _ => passClear_of_none rfl⟩
  | joinPanics joinId b e pc found ended untracked =>
    have hjoined := (hi.joined found).1
    rw [untracked] at hjoined
    cases hjoined
  | wakeEmpty pc empty =>
    rw [pc] at hplace
    obtain ⟨before,b,-,-,-,hbodies,-⟩ := Busy.started hplace
    rw [empty] at hbodies
    cases hbodies

theorem SerialInv.initial : SerialInv host ex out (initial ex spec) :=
  ⟨rfl,⟨⟨[],rfl⟩,rfl⟩,fun _ => passClear_of_none rfl⟩

/-- A quiet run with one permit in which every body ends as assigned. -/
structure SerialRun (host : Host) (ex : WorkflowExecutor) (out : spec.Task → BodyEnd) extends
    QuietRun host ex out where
  /-- There is one permit. -/
  serial : ex.config.maxParallel=1

/-- Every body of a run ends in order. -/
def InOrder (r : FinishedRun host ex spec) : Prop :=
  ∀ before a after s, r.actions=before++a::after →
    runs (step host ex) (initial ex spec) before=some s → EndsInOrder s a

/-- A run with one permit in which every body ends in order. -/
structure OrderlyRun (host : Host) (ex : WorkflowExecutor) (out : spec.Task → BodyEnd) extends
    SerialRun host ex out where
  /-- Every body ends in order. -/
  inOrder : InOrder toFinishedRun

/-- The coordinator of an orderly run keeps to its rounds all along. -/
theorem SerialRun.inv (r : SerialRun host ex out) (h : InOrder r.toFinishedRun)
    {before after : List (Action spec)} {s : State spec} (hsplit : r.actions=before++after)
    (hs : runs (step host ex) (initial ex spec) before=some s) :
    ExecInv host ex s ∧ SerialInv host ex out s := by
  refine guarded_invariant (I:=fun s => ExecInv host ex s ∧ SerialInv host ex out s)
    (G:=SerialStep out) ⟨ExecInv.initial spec,SerialInv.initial⟩ ?_ ?_ hs
  · rintro t a v ⟨hi,hserial⟩ hg hstep
    exact ⟨hi.step hstep,hserial.step hi r.serial hg hstep⟩
  · intro before' a after' t hbefore ht
    have hacts : r.actions=before'++a::(after'++after) := by simp [hsplit,hbefore]
    refine ⟨r.quiet before' a _ t hacts ht,?_,h before' a _ t hacts ht⟩
    rintro u e rfl
    exact r.assigned u e (by simp [hacts])

/-- An orderly run ends after the last round. -/
theorem SerialRun.finished (r : SerialRun host ex out) (h : InOrder r.toFinishedRun) :
    Finished host ex out r.final.recorder r.final.bodies := by
  obtain ⟨-,hserial⟩ := r.inv h (List.append_nil _).symm r.ran
  have hplace := hserial.place
  rw [r.returned] at hplace
  exact hplace

/-- Two orderly runs log the same events. -/
theorem events_eq_of_inOrder {out : spec.Task → BodyEnd} (r : SerialRun host ex out)
    (r' : SerialRun host' ex' out) (h : InOrder r.toFinishedRun) (h' : InOrder r'.toFinishedRun) :
    r'.report.events=r.report.events := by
  obtain ⟨⟨before,⟨rounds,hrounds⟩,hrec⟩,hidle,-⟩ := r.finished h
  obtain ⟨⟨before',⟨rounds',hrounds'⟩,hrec'⟩,hidle',-⟩ := r'.finished h'
  have hstop : nextRound host ex out before ()=none := by
    rw [hrec] at hidle
    simp only [nextRound,hidle,Option.map_none]
  have hstop' : nextRound host' ex' out before' ()=none := by
    rw [hrec'] at hidle'
    simp only [nextRound,hidle',Option.map_none]
  have hstart : Alike (Recorder.start spec ex'.hasBus ex'.config.runId ex'.config.sessionId)
      (Recorder.start spec ex.hasBus ex.config.runId ex.config.sessionId) :=
    ⟨rfl,rfl,fun _ => rfl⟩
  have hend := (related_ends (fun _ _ hxy => nextRound_alike hxy) hstart hrounds' hstop' hrounds
    hstop).propagate host' host ex' ex
  rw [r.events_eq,r'.events_eq,hrec,hrec',hend.events,hend.seq]

/-- With one permit, a body has ended in the join set and the start pass has a
ready task ahead. -/
structure Overdue (s : State spec) : Prop where
  /-- A ready task is ahead. -/
  ahead : ∃ rest t, queue s.pc=some rest ∧ t∈rest ∧ s.recorder.stateOf t=.ready
  /-- No body is running. -/
  ended : unended s.bodies=[]
  /-- A body was not joined. -/
  unjoined : s.bodies≠[]

theorem Overdue.goto {s : State spec} (h : Overdue s) {pc : Pc spec}
    (hahead : ∃ rest t, queue pc=some rest ∧ t∈rest ∧ s.recorder.stateOf t=.ready) :
    Overdue {s with pc := pc} := ⟨hahead,h.ended,h.unjoined⟩

/-- An overdue start pass stays so until it starts a task out of room. -/
theorem Overdue.step {s s' : State spec} {a : Action spec} (h : Overdue s)
    (hi : ExecInv host ex s) (hone : ex.config.maxParallel=1) (hquiet : observes s a=false)
    (hroom : StartsInRoom s a) (hstep : step host ex s a=some s') : Overdue s' := by
  obtain ⟨more,u,hqueue,hu,hready⟩ := h.ahead
  have hp := hi.permits
  have hcount := length_bodies s
  have hpos := List.length_pos_iff.mpr h.unjoined
  rw [hone,h.ended,List.length_nil] at hp
  rw [h.ended,List.length_nil] at hcount
  cases step_cases hstep with
  | cancelCaller | tripRunToken | deadlinePasses => exact ⟨h.ahead,h.ended,h.unjoined⟩
  | bodyEnds t e runs => exact absurd h.ended (unended_ne_nil runs)
  | passSkips t rest pc other =>
    rw [pc] at hqueue
    cases hqueue
    have hne : u≠t := fun heq => other (heq ▸ hready)
    exact h.goto ⟨rest,u,rfl,List.mem_of_ne_of_mem hne hu,hready⟩
  | passStops t rest pc ready stop =>
    rw [observes_of_passStops pc ready stop] at hquiet
    cases hquiet
  | passTries t rest pc =>
    rw [pc] at hqueue
    cases hqueue
    exact h.goto ⟨t::rest,u,rfl,hu,hready⟩
  | acquireFails t rest pc empty =>
    rw [pc,empty] at hp
    cases hp
  | acquires t rest pc =>
    rw [pc] at hqueue
    cases hqueue
    exact ⟨⟨t::rest,u,rfl,hu,hready⟩,h.ended,h.unjoined⟩
  | launches t rest pc =>
    have hle := hroom t rest rfl pc
    rw [pc] at hp
    simp only [held] at hp
    omega
  | passDone pc =>
    rw [pc] at hqueue
    cases hqueue
    cases hu
  | headExpires pc | headPasses pc | checkCancels pc | checkSeen pc | checkClear pc | liveNone pc
  | liveSome pc | exits pc | wakeCancel pc | wakeDeadline pc | wakeEmpty pc
  | joins _ _ _ _ pc | joinPanics _ _ _ pc =>
    rw [pc] at hqueue
    cases hqueue

/-- A body that ends out of order makes the start pass overdue. -/
theorem overdue_of_bodyEnds {s s' : State spec} {t : spec.Task} {e : BodyEnd}
    (hi : ExecInv host ex s) (hone : ex.config.maxParallel=1) (hahead : ¬PassClear s)
    (hstep : step host ex s (.bodyEnds t e)=some s') : Overdue s' := by
  have hp := hi.permits
  have hp' := (hi.step hstep).permits
  cases step_cases hstep with
  | bodyEnds t e runs =>
    have hpos := List.length_pos_iff.mpr (unended_ne_nil runs)
    simp only [PassClear,not_forall] at hahead
    obtain ⟨rest,hqueue,u,hu,hready⟩ := hahead
    refine ⟨⟨rest,u,hqueue,hu,not_not.mp hready⟩,?_,?_⟩
    · change s.available+1+(unended (s.bodies.map (endBody t e))).length+held s.pc=_ at hp'
      rw [hone] at hp hp'
      refine List.length_eq_zero_iff.mp ?_
      change (unended (s.bodies.map (endBody t e))).length=0
      omega
    · rw [Ne,List.map_eq_nil_iff]
      exact bodies_ne_nil runs

/-- An orderly run starts nothing behind a backlog. -/
theorem inRoom_of_inOrder (r : SerialRun host ex out) (h : InOrder r.toFinishedRun) :
    AlwaysInRoom (lastMoment r.toFinishedRun) := by
  intro before a after s hsplit hs t rest _ pc
  obtain ⟨hi,hserial⟩ := r.inv h hsplit hs
  rw [backlog,hserial.not_busy hi r.serial pc]
  exact Nat.zero_le _

/-- A run that starts nothing behind a backlog is orderly. -/
theorem inOrder_of_inRoom (r : SerialRun host ex out)
    (h : AlwaysInRoom (lastMoment r.toFinishedRun)) : InOrder r.toFinishedRun := by
  intro before a after s hsplit hs t e ha
  subst ha
  by_contra hahead
  have hran := r.ran
  rw [hsplit] at hran
  obtain ⟨s₀,hs₀,hafter⟩ := runs_append_iff.mp hran
  rw [hs] at hs₀
  cases hs₀
  obtain ⟨s',hstep,hrest⟩ := runs_cons_iff.mp hafter
  have hi := execInv_of_run hs
  have hlast := guarded_invariant (I:=fun s => ExecInv host ex s ∧ Overdue s)
    (G:=fun s a => observes s a=false ∧ StartsInRoom s a)
    ⟨hi.step hstep,overdue_of_bodyEnds hi r.serial hahead hstep⟩ ?_ ?_ hrest
  · obtain ⟨rest,u,hqueue,-⟩ := hlast.2.ahead
    rw [r.returned] at hqueue
    cases hqueue
  · rintro v b w ⟨hv,hover⟩ ⟨hquiet,hroom⟩ hvw
    exact ⟨hv.step hvw,hover.step hv r.serial hquiet hroom hvw⟩
  · intro before' b after' v hrest' hv
    have hacts : r.actions=(before++.bodyEnds t e::before')++b::after' := by simp [hsplit,hrest']
    have hreached : runs (step host ex) (initial ex spec) (before++.bodyEnds t e::before')=some v :=
      runs_append_iff.mpr ⟨s,hs,runs_cons_iff.mpr ⟨s',hstep,hv⟩⟩
    exact ⟨r.quiet _ b after' v hacts hreached,h _ b after' v hacts hreached⟩

/-- With one permit the order of events is the one of the orderly runs exactly
when no body ends while the start pass has a ready task ahead, whatever the
moments of the ends are otherwise. -/
theorem serial_events_iff (r : OrderlyRun host ex out) (r' : SerialRun host' ex' out) :
    r'.report.events=r.report.events ↔ InOrder r'.toFinishedRun := by
  constructor
  · intro hevents
    refine inOrder_of_inRoom r' ?_
    rw [←(running_bounded_iff host' ex' spec).2,hevents]
    have hbounded := ((running_bounded_iff host ex spec).2 r.toFinishedRun).mpr
      (inRoom_of_inOrder r.toSerialRun r.inOrder)
    intro pre hpre
    rw [r'.serial,←r.serial]
    exact hbounded pre hpre
  · intro h
    exact events_eq_of_inOrder r.toSerialRun r' r.inOrder h

/-- Whether an action ends no body in the start pass. -/
def outsidePass (s : State spec) : Action spec → Bool
  | .bodyEnds _ _ => (queue s.pc).isNone
  | _ => true

/-- Actions that end no body in the start pass end them in order. -/
theorem inOrder_of_outsidePass {acts : List (Action spec)} {s : State spec}
    (h : along (step host ex) outsidePass s acts=true) : ∀ before a after t, acts=before++a::after →
      runs (step host ex) s before=some t → EndsInOrder t a := by
  rintro before a after t hsplit ht u e rfl
  have htest := test_of_along h before _ after t hsplit ht
  exact passClear_of_none (Option.isNone_iff_eq_none.mp htest)

/-- The run in which the second task overtakes the end of the first. -/
def overtaking : SerialRun stillHost onePermit fun _ : twoTasks.Task => succeeds where
  toFinishedRun := FinishedRun.ofActions stillHost onePermit overtakingRun rfl
  quiet := quiet_of_quietly (rfl : quietly stillHost onePermit (initial onePermit twoTasks)
    overtakingRun=true)
  assigned := by
    intro t e hmem
    have hends : Action.bodyEnds t e∈overtakingRun := hmem
    simp [overtakingRun] at hends
    rcases hends with hends|hends <;> exact hends.2
  serial := rfl

/-- Each body ends while the coordinator waits for it. -/
def waitingRun : List (Action twoTasks) :=
  [.advance,.advance,.advance,.advance,.advance,.advance,.advance,.advance,
    .bodyEnds firstTask succeeds,.wakeJoin 0,.advance,.advance,.advance,.advance,.advance,
    .advance,.advance,.advance,.bodyEnds secondTask succeeds,.wakeJoin 1,.advance,.advance,.advance,
    .advance,.advance,.advance,.advance]

/-- The run in which the second task starts after the first was joined. -/
def waitingFor : OrderlyRun stillHost onePermit fun _ : twoTasks.Task => succeeds where
  toFinishedRun := FinishedRun.ofActions stillHost onePermit waitingRun rfl
  quiet := quiet_of_quietly (rfl : quietly stillHost onePermit (initial onePermit twoTasks)
    waitingRun=true)
  assigned := by
    intro t e hmem
    have hends : Action.bodyEnds t e∈waitingRun := hmem
    simp [waitingRun] at hends
    rcases hends with hends|hends <;> exact hends.2
  serial := rfl
  inOrder := inOrder_of_outsidePass (rfl : along (step stillHost onePermit) outsidePass
    (initial onePermit twoTasks) waitingRun=true)

/-- Two runs with one permit whose bodies end alike log different orders. -/
theorem order_not_fixed : ¬∀ r r' : SerialRun stillHost onePermit fun _ : twoTasks.Task => succeeds,
    r.report.events=r'.report.events := by
  intro hall
  have hsame := congrArg (fun events => (events.drop 3).head?.map WorkflowEvent.state)
    (hall overtaking waitingFor.toSerialRun)
  have hfirst : some "running"=some "completed" := hsame
  simp at hfirst

end AegisRuntime.WorkflowSchedules
