import AegisRuntime.WorkflowTraces

/-!
# What the report of a finished run guarantees

The report is read off the last ledger, so what the invariants say of that
ledger holds of the report: the log, the bus and the snapshot agree, failure
records and results belong to the right tasks and carry the right numbers, no
task starts before its predecessors completed or after a cancel was seen, and
no certainty is invented.
-/

namespace AegisRuntime.WorkflowReports

open LabelledRuns PrecedenceGraphs KeyedLogs FailureRecords WorkflowGraph WorkflowLedger
open WorkflowCoordinator WorkflowMoves WorkflowHistory WorkflowPasses WorkflowSteps WorkflowRuns
open WorkflowTraces

variable {spec : WorkflowSpec} {host : Host} {ex : WorkflowExecutor}

/-- The running events of a task. -/
def runningEvents (t : spec.Task) (events : List WorkflowEvent) : List WorkflowEvent :=
  events.filter fun e => decide (e.taskId=some t.1) && decide (e.state="running")

/-- A task enters no state twice, so it starts at most once. -/
theorem runningEvents_le_one {rec : Recorder spec} (h : LedgerInv rec) (t : spec.Task) :
    (runningEvents t rec.ledger.events).length ≤ 1 := by
  obtain ⟨kinds,htrail,walk⟩ := h.walks t
  have hnodup : (trailOf t rec.ledger.events).Nodup := by
    rw [htrail]
    exact (walk.nodup rank Lifecycle.rank_lt).map StateKind.name_injective
  have hcount := List.nodup_iff_count_le_one.mp hnodup "running"
  rw [trailOf,trail,List.count_eq_length_filter,List.filter_map,List.length_map,List.filter_filter]
    at hcount
  refine le_trans (Nat.le_of_eq (congrArg List.length (List.filter_congr fun e _ => ?_))) hcount
  simp [Bool.and_comm,Bool.beq_eq_decide_eq]

/-- A task has no running event when its trail has no start. -/
theorem runningEvents_eq_nil_iff {t : spec.Task} {events : List WorkflowEvent} :
    runningEvents t events=[] ↔ "running"∉trailOf t events := by
  rw [trailOf,mem_trail,runningEvents,List.filter_eq_nil_iff]
  simp

/-- The end of the workflow starts nothing. -/
theorem startsAfterDeps_finished (before : List WorkflowEvent) (n : ℕ) :
    StartsAfterDeps spec before ⟨n,none,"finished"⟩ := by
  intro hname
  exact absurd hname (show "finished"≠"running" by decide)

/-- Every task starts at most once and only after the completion of each of its
predecessors, and nothing starts once a cancel or the deadline was seen. -/
theorem dependency_safety (r : FinishedRun host ex spec) :
    (∀ t : spec.Task, (runningEvents t r.report.events).length ≤ 1) ∧
      EachAfter (StartsAfterDeps spec) r.report.events ∧
      ∀ o : Observation r, ∃ later, r.report.events=o.state.recorder.ledger.events++later ∧
        ∀ e∈later, e.state≠"running" := by
  obtain ⟨hledger,-⟩ := r.history
  refine ⟨fun t => ?_,?_,fun o => ?_⟩
  · rw [r.events_eq,runningEvents,List.filter_append]
    simpa [runningEvents] using runningEvents_le_one hledger t
  · rw [r.events_eq]
    exact eachAfter_concat_iff.mpr ⟨hledger.starts,startsAfterDeps_finished _ _⟩
  · obtain ⟨-,moves,hmoves,hlate⟩ := o.late_moves
    obtain ⟨new,hnew,hquiet⟩ := events_of_moves hmoves
    refine ⟨new++[⟨r.final.recorder.ledger.seq+1,none,"finished"⟩],?_,fun e he => ?_⟩
    · rw [r.events_eq,hnew,List.append_assoc]
    · rcases List.mem_append.mp he with he|he
      · exact hquiet (fun m hm => (hlate m hm).1) e he
      · rw [List.mem_singleton.mp he]
        exact show "finished"≠"running" by decide

/-- Replaying a walked log gives every task the name of its state. -/
theorem replay_of_walks {rec : Recorder spec} (h : LedgerInv rec) {events : List WorkflowEvent}
    {t : spec.Task} (htrail : trailOf t events=trailOf t rec.ledger.events) :
    replay WorkflowEvent.taskId WorkflowEvent.state (fun _ => "pending") events t.1=
      (rec.stateOf t).name := by
  obtain ⟨kinds,hkinds,walk⟩ := h.walks t
  rw [replay_eq_getLast,←trailOf,htrail,hkinds,TaskState.name_eq_kind_name,←walk.getLast,
    List.getLast?_map]
  cases kinds.getLast? <;> rfl

theorem log_seqs (r : FinishedRun host ex spec) :
    r.report.events.map WorkflowEvent.seq=List.range' 1 r.report.snapshot.lastSeq := by
  rw [r.events_eq,r.lastSeq_eq,List.map_append,r.history.1.seqs,List.range'_concat]
  simp [Nat.add_comm]

/-- The log is numbered from one without gaps up to the last number of the
snapshot, ends with its only event without a task, was announced on an attached
bus event by event, and replays to the final states. -/
theorem log_bus_snapshot_agree (r : FinishedRun host ex spec) :
    r.report.events.map WorkflowEvent.seq=List.range' 1 r.report.snapshot.lastSeq ∧
      (∃ tasked, r.report.events=tasked++[⟨r.report.snapshot.lastSeq,none,"finished"⟩] ∧
        ∀ e∈tasked, ∃ t : spec.Task, e.taskId=some t.1) ∧
      (ex.hasBus=true → ∃ envs, r.done.bus=some envs ∧
        List.Forall₂ Announces envs r.report.events) ∧
      ∀ t : spec.Task, replay WorkflowEvent.taskId WorkflowEvent.state (fun _ => "pending")
        r.report.events t.1=(r.report.snapshot.states t).name := by
  obtain ⟨hledger,moves,hexplains,-⟩ := r.history
  refine ⟨log_seqs r,?_,?_,?_⟩
  · refine ⟨_,?_,hledger.tasked⟩
    rw [r.events_eq,r.lastSeq_eq]
  · intro hbus
    have hattached := bus_of_moves hexplains.run
    rw [Recorder.start,hbus] at hattached
    obtain ⟨old,hold⟩ := Option.isSome_iff_exists.mp hattached
    obtain ⟨env,hdone,hlast⟩ := r.bus_eq
    refine ⟨old++[env],by rw [hdone,hold]; rfl,?_⟩
    rw [r.events_eq]
    exact List.rel_append (hledger.announced old hold) (List.Forall₂.cons hlast List.Forall₂.nil)
  · intro t
    rw [r.states_eq]
    exact replay_of_walks hledger (r.trailOf_eq t)

/-- An event of a gapless log stands at the position its number names. -/
theorem getElem?_of_seq {events : List WorkflowEvent} {n : ℕ} {e : WorkflowEvent}
    (hseqs : events.map WorkflowEvent.seq=List.range' 1 n) (he : e∈events) :
    0 < e.seq ∧ events[e.seq-1]?=some e := by
  obtain ⟨i,hi,rfl⟩ := List.mem_iff_getElem.mp he
  have hn : events.length=n := by simpa using congrArg List.length hseqs
  have hseq : events[i].seq=1+i := by
    have hget := congrArg (·[i]?) hseqs
    simpa [List.getElem?_eq_getElem hi,List.getElem?_range',hn ▸ hi] using hget
  rw [hseq,Nat.add_sub_cancel_left]
  exact ⟨by omega,List.getElem?_eq_getElem hi⟩

/-- Failure records belong to exactly the tasks that ended without success and
results to exactly the completed ones. A record names its task and carries the
number of the event of that end, so no two tasks share a number, and the record
inside a failed state is the stored one. -/
theorem failure_provenance (r : FinishedRun host ex spec) :
    (∀ t, (r.report.failures t).isSome=true ↔ endedBadly (r.report.snapshot.states t)=true) ∧
      (∀ t, (r.report.snapshot.results t).isSome=true ↔ r.report.snapshot.states t=.completed) ∧
      (∀ t f, r.report.failures t=some f → f.toolCallId=t.1.asStr ∧ 0 < f.sequence ∧
        r.report.events[f.sequence-1]?=
          some ⟨f.sequence,some t.1,(r.report.snapshot.states t).name⟩) ∧
      (∀ t u f g, r.report.failures t=some f → r.report.failures u=some g →
        f.sequence=g.sequence → t=u) ∧
      ∀ t f, r.report.snapshot.states t=.failed f → r.report.failures t=some f := by
  obtain ⟨hledger,-⟩ := r.history
  have hrecord : ∀ t f, r.report.failures t=some f → f.toolCallId=t.1.asStr ∧ 0 < f.sequence ∧
      r.report.events[f.sequence-1]?=
        some ⟨f.sequence,some t.1,(r.report.snapshot.states t).name⟩ := by
    intro t f hf
    rw [r.failures_eq] at hf
    obtain ⟨hcall,e,he,htask,hstate,hseq⟩ := hledger.records t f hf
    have hlog : e∈r.report.events := by
      rw [r.events_eq]
      exact List.mem_append_left _ he
    obtain ⟨hpos,hget⟩ := getElem?_of_seq (log_seqs r) hlog
    have hevent : e=⟨f.sequence,some t.1,(r.report.snapshot.states t).name⟩ := by
      rw [r.states_eq,←hstate,←hseq,←htask]
    rw [←hevent,←hseq]
    exact ⟨hcall,hpos,hget⟩
  refine ⟨?_,?_,hrecord,?_,?_⟩
  · rw [r.failures_eq,r.states_eq]
    exact hledger.failures
  · rw [r.results_eq,r.states_eq]
    exact hledger.results
  · intro t u f g hf hg hseq
    have ht := (hrecord t f hf).2.2
    rw [hseq,(hrecord u g hg).2.2] at ht
    simp only [Option.some.injEq,WorkflowEvent.mk.injEq] at ht
    exact Subtype.ext ht.2.1.symm
  · rw [r.failures_eq,r.states_eq]
    exact hledger.failed

/-- The ways in which a runner answers for the certainty of an end without a
fault of its own: its answer for interruptions is used. -/
def answersInterrupt (state : TaskState) : BodyEnd → Bool
  | .finish .timedOut | .finish .interrupted | .finish (.outcome .cancelled) => true
  | .finish (.outcome .approvalPending) => decide (state=.cancelled)
  | _ => false

/-- The certainty of a task's record came from its runner. -/
def DeclaredNoEffect (r : FinishedRun host ex spec) (t : spec.Task) : Prop :=
  (∃ fault : ToolFault, .bodyEnds t (.finish (.outcome (.failed fault)))∈r.actions ∧
    fault.certainty=.noEffect) ∨
  ∃ e, .bodyEnds t e∈r.actions ∧ answersInterrupt (r.report.snapshot.states t) e=true ∧
    (spec.node t).runner.certaintyOnInterrupt=.noEffect

/-- A recorded end with no effect comes from a fault of that certainty or from
the runner's answer for interruptions. -/
theorem declared_of_endCertainty {t : spec.Task} {e : BodyEnd} {s : TaskState}
    (h : endCertainty t e=some .noEffect) :
    (∃ fault : ToolFault, e=.finish (.outcome (.failed fault)) ∧ fault.certainty=.noEffect) ∨
      answersInterrupt s e=true ∧ (spec.node t).runner.certaintyOnInterrupt=.noEffect := by
  rcases e with ((_|fault|_|_)|_|_)|_ <;> simp only [endCertainty,reduceCtorEq,Option.some.injEq] at h
  · exact Or.inl ⟨fault,rfl,h⟩
  all_goals exact Or.inr ⟨rfl,h⟩

/-- A record without effect belongs to a task that never started or repeats what
the runner declared; a panic is always recorded as uncertain; a skipped task
never started and is recorded as rejected without effect. -/
theorem noEffect_declared (r : FinishedRun host ex spec) (t : spec.Task) :
    (∀ f, r.report.failures t=some f → f.effectCertainty=.noEffect →
      runningEvents t r.report.events=[] ∨ DeclaredNoEffect r t) ∧
    (.bodyEnds t .panicked∈r.actions →
      ∃ f, r.report.failures t=some f ∧ f.effectCertainty=.uncertain) ∧
    ∀ p, r.report.snapshot.states t=.skipped p → runningEvents t r.report.events=[] ∧
      ∃ f, r.report.failures t=some f ∧ f.cls=.rejected ∧ f.effectCertainty=.noEffect := by
  obtain ⟨hledger,moves,hexplains,hhistory⟩ := r.history
  have hquiet : "running"∉trailOf t r.final.recorder.ledger.events →
      runningEvents t r.report.events=[] := by
    intro hidle
    rw [←r.trailOf_eq] at hidle
    exact runningEvents_eq_nil_iff.mpr hidle
  have hended : ∀ f, r.report.failures t=some f → 3 ≤ rank (r.final.recorder.stateOf t).kind := by
    intro f hf
    rw [r.failures_eq] at hf
    have hbad := (hledger.failures t).mp (by rw [hf]; rfl)
    cases hs : r.final.recorder.stateOf t <;> simp_all [endedBadly,TaskState.kind,rank]
  refine ⟨?_,?_,?_⟩
  · intro f hf hnone
    cases hhistory.origin t (hended f hf) with
    | settled e mem kind certainty =>
      rw [r.failures_eq] at hf
      have hc := certainty f hf
      rw [hnone] at hc
      refine Or.inr ?_
      rcases declared_of_endCertainty (s:=r.report.snapshot.states t) hc with ⟨fault,rfl,hfault⟩|⟨ha,hi⟩
      · exact Or.inl ⟨fault,hexplains.settled t _ mem,hfault⟩
      · exact Or.inr ⟨e,hexplains.settled t e mem,ha,hi⟩
    | skipped bad mem ended state idle record => exact Or.inl (hquiet idle)
    | unstarted mem state idle record => exact Or.inl (hquiet idle)
    | waiting mem reported state record =>
      obtain ⟨g,hg,hcert⟩ := record
      rw [r.failures_eq,hg] at hf
      cases hf
      refine Or.inr (Or.inr ⟨approvalPending,hexplains.settled t _ reported,?_,hcert.symm.trans hnone⟩)
      rw [r.states_eq,state]
      rfl
  · intro hmem
    obtain ⟨f,hf,hc⟩ := hhistory.recorded t .panicked .uncertain
      ((r.settled_iff hexplains t .panicked).mpr hmem) rfl
    exact ⟨f,by rw [r.failures_eq,hf],hc⟩
  · intro p hp
    rw [r.states_eq] at hp
    have hrank : 3 ≤ rank (r.final.recorder.stateOf t).kind := by
      rw [hp]
      exact Nat.le_succ 3
    cases hhistory.origin t hrank with
    | settled e mem kind certainty =>
      rw [hp] at kind
      rcases e with ((_|_|_|_)|_|_)|_ <;> cases kind
    | skipped bad mem ended state idle record =>
      rw [r.failures_eq]
      exact ⟨hquiet idle,record⟩
    | unstarted mem state => rw [hp] at state; cases state
    | waiting mem reported state => rw [hp] at state; cases state

end AegisRuntime.WorkflowReports
