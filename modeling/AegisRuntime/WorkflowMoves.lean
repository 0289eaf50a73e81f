import AegisRuntime.WorkflowCoordinator

/-!
# The lifecycle of a task as a machine over the ledger

An abstract machine with five moves: a task becomes ready, is skipped, starts,
is settled or is cancelled. A move is enabled by the states of the task and of
its predecessors alone and enters one new state through the recorder. Whatever
coordinator drives it, every run of the machine keeps the ledger, the log, the
bus and the two result maps in agreement. The coordinator is shown to be such a
driver in a later module.
-/

namespace AegisRuntime.WorkflowMoves

open LabelledRuns PrecedenceGraphs KeyedLogs FailureRecords WorkflowGraph WorkflowLedger
open WorkflowCoordinator

variable {spec : WorkflowSpec}

/-- The states a task may enter next. -/
inductive Lifecycle : StateKind → StateKind → Prop where
  /-- Every predecessor completed. -/
  | readies : Lifecycle .pending .ready
  /-- A predecessor ended without success. -/
  | skips : Lifecycle .pending .skipped
  /-- Cancelled before it became ready. -/
  | cancelsPending : Lifecycle .pending .cancelled
  /-- The body is spawned. -/
  | starts : Lifecycle .ready .running
  /-- Cancelled before it started. -/
  | cancelsReady : Lifecycle .ready .cancelled
  /-- The body succeeded. -/
  | completes : Lifecycle .running .completed
  /-- The body failed, timed out or panicked. -/
  | fails : Lifecycle .running .failed
  /-- The body was interrupted or stopped. -/
  | cancelsRunning : Lifecycle .running .cancelled
  /-- The body asked for a human. -/
  | waits : Lifecycle .running .waitingForApproval
  /-- Cancelled while waiting for a human. -/
  | cancelsWaiting : Lifecycle .waitingForApproval .cancelled

/-- How far along its lifecycle a task is. -/
def rank : StateKind → ℕ
  | .pending => 0
  | .ready => 1
  | .running => 2
  | .waitingForApproval => 3
  | .completed | .failed | .cancelled | .skipped => 4

/-- A lifecycle only goes forward. -/
theorem Lifecycle.rank_lt {x y : StateKind} (h : Lifecycle x y) : rank x < rank y := by
  cases h <;> decide

/-- The names of the states a task has entered, in order. -/
def trailOf (t : spec.Task) (events : List WorkflowEvent) : List String :=
  trail WorkflowEvent.taskId WorkflowEvent.state t.1 events

/-- Entering a state extends the trail of the task. -/
theorem trailOf_concat_self (t : spec.Task) (events : List WorkflowEvent) (n : ℕ) (name : String) :
    trailOf t (events++[⟨n,some t.1,name⟩])=trailOf t events++[name] :=
  trail_concat_self WorkflowEvent.taskId WorkflowEvent.state rfl

/-- It leaves the trails of all other tasks alone. -/
theorem trailOf_concat_other {t u : spec.Task} (h : u≠t) (events : List WorkflowEvent) (n : ℕ)
    (name : String) : trailOf u (events++[⟨n,some t.1,name⟩])=trailOf u events :=
  trail_concat_other WorkflowEvent.taskId WorkflowEvent.state fun he =>
    h (Subtype.ext (Option.some.inj he).symm)

/-- What entering a state records besides its number. -/
structure Entry where
  /-- The state. -/
  state : TaskState
  /-- The failure record noted with it. -/
  failure : Option FailureRecord
  /-- The result stored with it. -/
  result : Option ResultHandle

/-- Notes the failure record, if any, and makes the transition. -/
def enter (host : Host) (rec : Recorder spec) (t : spec.Task) (entry : Entry) : Recorder spec :=
  (match entry.failure with
    | some f => rec.noteFailure t f
    | none => rec).transition host t entry.state entry.result

section EnterFields

variable (host : Host) (rec : Recorder spec) (t : spec.Task) (entry : Entry)

@[simp] theorem enter_seq : (enter host rec t entry).ledger.seq=rec.ledger.seq+1 := by
  cases hf : entry.failure <;> simp [enter,hf]

@[simp] theorem enter_events : (enter host rec t entry).ledger.events=
    rec.ledger.events++[⟨rec.ledger.seq+1,some t.1,entry.state.name⟩] := by
  cases hf : entry.failure <;> simp [enter,hf]

@[simp] theorem enter_stateOf (u : spec.Task) : (enter host rec t entry).stateOf u=
    if u=t then entry.state else rec.stateOf u := by
  cases hf : entry.failure <;> simp [enter,hf,Recorder.stateOf,Function.update_apply]

@[simp] theorem enter_failures (u : spec.Task) : (enter host rec t entry).ledger.failures u=
    if u=t ∧ entry.failure.isSome=true then entry.failure else rec.ledger.failures u := by
  cases hf : entry.failure <;> simp [enter,hf,Function.update_apply]

@[simp] theorem enter_results (u : spec.Task) : (enter host rec t entry).ledger.results u=
    if u=t ∧ entry.result.isSome=true then entry.result else rec.ledger.results u := by
  cases hf : entry.failure <;> cases hr : entry.result <;>
    simp [enter,hf,hr,Function.update_apply]

/-- Entering a state publishes one envelope that matches the logged event. -/
theorem enter_bus (hstate : entry.state≠.pending) : ∃ env : EventEnvelope,
    (enter host rec t entry).bus=rec.bus.map (·++[env]) ∧ env.sequence=rec.ledger.seq+1 ∧
      env.event.workflowSeq=rec.ledger.seq+1 ∧ env.event.taskId=some t.1 ∧
      env.event.stateName=entry.state.name := by
  cases hf : entry.failure with
  | none =>
    simp only [enter,hf]
    exact Recorder.transition_bus host rec t entry.state entry.result hstate
  | some f =>
    simp only [enter,hf]
    exact Recorder.transition_bus host (rec.noteFailure t f) t entry.state entry.result hstate

end EnterFields

/-- What must hold for a task to enter a state. -/
structure Admissible (rec : Recorder spec) (t : spec.Task) (entry : Entry) : Prop where
  /-- The lifecycle allows it. -/
  edge : Lifecycle (rec.stateOf t).kind entry.state.kind
  /-- Exactly a completed task has a result. -/
  result : entry.result.isSome=true ↔ entry.state=.completed
  /-- Exactly a task ending without success has a failure record. -/
  failure : entry.failure.isSome=true ↔ endedBadly entry.state=true
  /-- The record names the task and carries the number of the event. -/
  record : ∀ f, entry.failure=some f → f.toolCallId=t.1.asStr ∧ f.sequence=rec.ledger.seq+1
  /-- The record of a failed state is the one noted. -/
  failed : ∀ f, entry.state=.failed f → entry.failure=some f
  /-- A ready task has no open predecessor. -/
  ready : entry.state=.ready → ∀ d∈spec.deps t, rec.stateOf d=.completed

/-- No task goes back to the initial state. -/
theorem Admissible.not_pending {rec : Recorder spec} {t : spec.Task} {entry : Entry}
    (h : Admissible rec t entry) : entry.state≠.pending := by
  intro hp
  have hlt := h.edge.rank_lt
  rw [hp] at hlt
  exact Nat.not_lt_zero _ hlt

/-- An envelope announces a logged event. -/
structure Announces (env : EventEnvelope) (e : WorkflowEvent) : Prop where
  /-- The envelope carries the number of the event. -/
  sequence : env.sequence=e.seq
  /-- So does the published event. -/
  workflowSeq : env.event.workflowSeq=e.seq
  /-- It is about the same task. -/
  taskId : env.event.taskId=e.taskId
  /-- It announces the same state. -/
  state : env.event.stateName=e.state

/-- A start comes after the completion of every predecessor. -/
def StartsAfterDeps (spec : WorkflowSpec) (before : List WorkflowEvent) (e : WorkflowEvent) : Prop :=
  e.state="running" → ∀ t : spec.Task, e.taskId=some t.1 → ∀ d∈spec.deps t,
    ∃ e'∈before, e'.taskId=some d.1 ∧ e'.state="completed"

/-- The kinds of a task whose predecessors have all completed. -/
def unblocked : StateKind → Bool
  | .ready | .running | .waitingForApproval | .completed | .failed => true
  | .pending | .cancelled | .skipped => false

/-- Ledger, log, bus and result maps agree. -/
structure LedgerInv (rec : Recorder spec) : Prop where
  /-- Events are numbered from one without gaps. -/
  seqs : rec.ledger.events.map WorkflowEvent.seq=List.range' 1 rec.ledger.seq
  /-- Every event so far is about a task. -/
  tasked : ∀ e∈rec.ledger.events, ∃ t : spec.Task, e.taskId=some t.1
  /-- The log of a task is a walk of the lifecycle to its state. -/
  walks : ∀ t : spec.Task, ∃ kinds, trailOf t rec.ledger.events=kinds.map StateKind.name ∧
    Walk Lifecycle .pending kinds (rec.stateOf t).kind
  /-- The bus announced exactly the events, in order. -/
  announced : ∀ envs, rec.bus=some envs → List.Forall₂ Announces envs rec.ledger.events
  /-- Results belong to completed tasks. -/
  results : ∀ t, (rec.ledger.results t).isSome=true ↔ rec.stateOf t=.completed
  /-- Failure records belong to tasks that ended without success. -/
  failures : ∀ t, (rec.ledger.failures t).isSome=true ↔ endedBadly (rec.stateOf t)=true
  /-- A failure record carries the number of the event of its task's end. -/
  records : ∀ t f, rec.ledger.failures t=some f → f.toolCallId=t.1.asStr ∧
    ∃ e∈rec.ledger.events, e.taskId=some t.1 ∧ e.state=(rec.stateOf t).name ∧ e.seq=f.sequence
  /-- The record inside a failed state is the stored one. -/
  failed : ∀ t f, rec.stateOf t=.failed f → rec.ledger.failures t=some f
  /-- An unblocked task has only completed predecessors. -/
  deps : ∀ t, unblocked (rec.stateOf t).kind=true → ∀ d∈spec.deps t, rec.stateOf d=.completed
  /-- Every start comes after the completion of every predecessor. -/
  starts : EachAfter (StartsAfterDeps spec) rec.ledger.events

theorem LedgerInv.start (spec : WorkflowSpec) (hasBus : Bool) (runId sessionId : String) :
    LedgerInv (Recorder.start spec hasBus runId sessionId) := by
  refine ⟨rfl,by simp [Recorder.start],fun t => ⟨[],rfl,Walk.here⟩,?_,?_,?_,?_,?_,?_,eachAfter_nil _⟩
  · intro envs henvs
    cases hasBus with
    | false => cases henvs
    | true =>
      cases henvs
      exact List.Forall₂.nil
  · intro t
    simp [Recorder.start,Recorder.stateOf]
  · intro t
    simp [Recorder.start,Recorder.stateOf,endedBadly]
  · intro t f hf
    cases hf
  · intro t f hf
    cases hf
  · intro t ht
    simp [Recorder.start,Recorder.stateOf,TaskState.kind,unblocked] at ht

/-- A state that some lifecycle edge leaves is neither completed nor bad. -/
theorem Lifecycle.leaves {s : TaskState} {k : StateKind} (h : Lifecycle s.kind k) :
    endedBadly s=false ∧ s≠.completed ∧ s.isTerminal=false := by
  cases s with
  | completed | failed _ | cancelled | skipped _ => cases h
  | _ => exact ⟨rfl,TaskState.noConfusion,rfl⟩

/-- An edge into an unblocked kind other than ready leaves an unblocked one. -/
theorem Lifecycle.unblocked_of {x y : StateKind} (h : Lifecycle x y) (hy : unblocked y=true) :
    y=.ready ∨ unblocked x=true := by
  cases h <;> simp_all [unblocked]

/-- A task whose state is completed has a completion in the log. -/
theorem LedgerInv.completed_event {rec : Recorder spec} (h : LedgerInv rec) {t : spec.Task}
    (ht : rec.stateOf t=.completed) :
    ∃ e∈rec.ledger.events, e.taskId=some t.1 ∧ e.state="completed" := by
  obtain ⟨kinds,htrail,walk⟩ := h.walks t
  rw [ht] at walk
  have hmem := List.mem_map_of_mem (f:=StateKind.name) (walk.mem_of_ne_start (by decide))
  rw [←htrail] at hmem
  exact mem_trail.mp hmem

/-- Entering an admissible state keeps the ledger in agreement. -/
theorem LedgerInv.enter {rec : Recorder spec} (h : LedgerInv rec) (host : Host) {t : spec.Task}
    {entry : Entry} (ha : Admissible rec t entry) : LedgerInv (enter host rec t entry) := by
  have hleaves := ha.edge.leaves
  have hstate := ha.not_pending
  refine ⟨?_,?_,?_,?_,?_,?_,?_,?_,?_,?_⟩
  · rw [enter_events,enter_seq,List.map_append,h.seqs,List.range'_concat]
    simp [Nat.add_comm]
  · intro e he
    rw [enter_events,List.mem_append,List.mem_singleton] at he
    rcases he with he|rfl
    · exact h.tasked e he
    · exact ⟨t,rfl⟩
  · intro u
    obtain ⟨kinds,htrail,walk⟩ := h.walks u
    by_cases hu : u=t
    · subst hu
      refine ⟨kinds++[entry.state.kind],?_,?_⟩
      · rw [enter_events,trailOf_concat_self,htrail,TaskState.name_eq_kind_name,List.map_append]
        rfl
      · rw [enter_stateOf,if_pos rfl]
        exact walk.step ha.edge
    · refine ⟨kinds,?_,?_⟩
      · rw [enter_events,trailOf_concat_other hu,htrail]
      · rwa [enter_stateOf,if_neg hu]
  · intro envs henvs
    obtain ⟨env,hbus,hseq,hwseq,htask,hname⟩ := enter_bus host rec t entry hstate
    rw [hbus] at henvs
    obtain ⟨old,hold,rfl⟩ := Option.map_eq_some_iff.mp henvs
    rw [enter_events]
    exact List.rel_append (h.announced old hold)
      (List.Forall₂.cons ⟨hseq,hwseq,htask,hname⟩ List.Forall₂.nil)
  · intro u
    rw [enter_results,enter_stateOf]
    by_cases hu : u=t
    · subst hu
      have hold := h.results u
      have hres := ha.result
      have hnot := hleaves.2.1
      cases hr : entry.result with
      | some r => simp_all
      | none => simp_all
    · simpa [hu] using h.results u
  · intro u
    rw [enter_failures,enter_stateOf]
    by_cases hu : u=t
    · subst hu
      have hold := h.failures u
      have hres := ha.failure
      have hnot := hleaves.1
      cases hr : entry.failure with
      | some r => simp_all
      | none => simp_all
    · simpa [hu] using h.failures u
  · intro u f hf
    rw [enter_failures] at hf
    rw [enter_events,enter_stateOf]
    by_cases hu : u=t
    · subst hu
      cases hr : entry.failure with
      | some r =>
        obtain ⟨hcall,hseq⟩ := ha.record r hr
        simp [hr] at hf
        subst hf
        refine ⟨hcall,⟨rec.ledger.seq+1,some u.1,entry.state.name⟩,by simp,rfl,by simp,hseq.symm⟩
      | none =>
        simp [hr] at hf
        have hbad := (h.failures u).mp (by rw [hf]; rfl)
        rw [hleaves.1] at hbad
        cases hbad
    · simp only [hu,false_and,if_false] at hf ⊢
      obtain ⟨hcall,e,he,hrest⟩ := h.records u f hf
      exact ⟨hcall,e,List.mem_append_left _ he,hrest⟩
  · intro u f hf
    rw [enter_stateOf] at hf
    rw [enter_failures]
    by_cases hu : u=t
    · subst hu
      rw [if_pos rfl] at hf
      have hrec := ha.failed f hf
      rw [if_pos ⟨rfl,by rw [hrec]; rfl⟩,hrec]
    · rw [if_neg hu] at hf
      rw [if_neg fun hc => hu hc.1]
      exact h.failed u f hf
  · intro u hu d hd
    have hdone : rec.stateOf d=.completed := by
      rw [enter_stateOf] at hu
      by_cases hut : u=t
      · subst hut
        rw [if_pos rfl] at hu
        rcases ha.edge.unblocked_of hu with hk|hk
        · refine ha.ready ?_ d hd
          cases hs : entry.state <;> simp_all [TaskState.kind]
        · exact h.deps u hk d hd
      · rw [if_neg hut] at hu
        exact h.deps u hu d hd
    rw [enter_stateOf,if_neg]
    · exact hdone
    · rintro rfl
      exact hleaves.2.1 hdone
  · rw [enter_events]
    refine eachAfter_concat_iff.mpr ⟨h.starts,fun hname u hu d hd => ?_⟩
    have hut : u=t := Subtype.ext (Option.some.inj hu).symm
    subst hut
    have hkind : entry.state.kind=.running :=
      StateKind.name_injective ((TaskState.name_eq_kind_name _).symm.trans hname)
    have hedge := ha.edge
    rw [hkind] at hedge
    have hready : unblocked (rec.stateOf u).kind=true := by
      generalize (rec.stateOf u).kind=k at hedge
      cases hedge
      rfl
    exact h.completed_event (h.deps u hready d hd)

/-- What can be recorded next. -/
inductive Move (spec : WorkflowSpec) where
  /-- A task becomes ready. -/
  | ready (t : spec.Task)
  /-- A task is skipped because of a predecessor. -/
  | skip (t bad : spec.Task)
  /-- The body of a task starts. -/
  | start (t : spec.Task)
  /-- The body of a task ended and is settled. -/
  | settle (t : spec.Task) (e : BodyEnd)
  /-- A task that is not running is cancelled. -/
  | cancel (t : spec.Task)

/-- The task a move is about. -/
def Move.task : Move spec → spec.Task
  | .ready t | .skip t _ | .start t | .settle t _ | .cancel t => t

/-- Whether a move starts a body. -/
def Move.starts : Move spec → Bool
  | .start _ => true
  | _ => false

/-- Whether a move is a cancellation from outside the body. -/
def Move.cancels : Move spec → Bool
  | .cancel _ => true
  | _ => false

/-- Whether a move belongs to propagation. -/
def Move.propagates : Move spec → Bool
  | .ready _ | .skip _ _ => true
  | _ => false

/-- The kind of state a body's end leads to. -/
def endKind : BodyEnd → StateKind
  | .finish (.outcome (.completed _)) => .completed
  | .finish (.outcome .approvalPending) => .waitingForApproval
  | .finish (.outcome .cancelled) | .finish .interrupted => .cancelled
  | .finish (.outcome (.failed _)) | .finish .timedOut | .panicked => .failed

/-- The body reported that it waits for a human. -/
abbrev approvalPending : BodyEnd := .finish (.outcome .approvalPending)

theorem endKind_eq_waiting_iff {e : BodyEnd} :
    endKind e=.waitingForApproval ↔ e=approvalPending := by
  rcases e with ((_|_|_|_)|_|_)|_ <;> simp [endKind]

theorem three_le_rank_endKind (e : BodyEnd) : 3 ≤ rank (endKind e) := by
  rcases e with ((_|_|_|_)|_|_)|_ <;> simp [endKind,rank]

/-- What the runner of a task answers for an interruption. -/
def interruptOf (t : spec.Task) : EffectCertainty := (spec.node t).runner.certaintyOnInterrupt

/-- The certainty a body's end is recorded with, if it is recorded as a failure. -/
def endCertainty (t : spec.Task) : BodyEnd → Option EffectCertainty
  | .finish (.outcome (.completed _)) | .finish (.outcome .approvalPending) => none
  | .finish (.outcome (.failed fault)) => some fault.certainty
  | .finish (.outcome .cancelled) | .finish .interrupted | .finish .timedOut => some (interruptOf t)
  | .panicked => some .uncertain

section Moves

variable (host : Host) (ex : WorkflowExecutor)

/-- What settling a body's end enters. -/
def settleEntry (rec : Recorder spec) (t : spec.Task) : BodyEnd → Entry
  | .finish (.outcome (.completed v)) => ⟨.completed,none,some ⟨payloadDigest host.sha256Hex v⟩⟩
  | .finish (.outcome (.failed fault)) =>
    let f := failure host ex rec t fault.cls fault.certainty fault.message
    ⟨.failed f,some f,none⟩
  | .finish (.outcome .approvalPending) => ⟨.waitingForApproval,none,none⟩
  | .finish (.outcome .cancelled) | .finish .interrupted =>
    ⟨.cancelled,some (failure host ex rec t .cancelled (interruptOf t) "task cancelled while running"),
      none⟩
  | .finish .timedOut =>
    let f := failure host ex rec t .timeout (interruptOf t) "per-task timeout elapsed"
    ⟨.failed f,some f,none⟩
  | .panicked =>
    let f := failure host ex rec t .failed .uncertain "task body panicked"
    ⟨.failed f,some f,none⟩

/-- What a move enters, when it is enabled. -/
def entryOf (rec : Recorder spec) : Move spec → Option Entry
  | .ready t =>
    if rec.stateOf t=.pending ∧ ((spec.deps t).all fun d => decide (rec.stateOf d=.completed))=true then
      some ⟨.ready,none,none⟩
    else none
  | .skip t bad =>
    if rec.stateOf t=.pending ∧ bad∈spec.deps t ∧ endedBadly (rec.stateOf bad)=true then
      some ⟨.skipped bad.1,some (failure host ex rec t .rejected .noEffect
        ("prerequisite failed: "++bad.1.asStr)),none⟩
    else none
  | .start t => if rec.stateOf t=.ready then some ⟨.running,none,none⟩ else none
  | .settle t e => if rec.stateOf t=.running then some (settleEntry host ex rec t e) else none
  | .cancel t => (cancelReason t (rec.stateOf t)).map fun reason =>
    ⟨.cancelled,some (failure host ex rec t .cancelled reason.2 reason.1),none⟩

/-- One move of the machine. -/
def moveStep (rec : Recorder spec) (m : Move spec) : Option (Recorder spec) :=
  (entryOf host ex rec m).map (enter host rec m.task)

/-- The enabled moves with what they enter. -/
inductive MoveCase (rec : Recorder spec) : Move spec → Entry → Prop where
  /-- All predecessors completed. -/
  | ready (t : spec.Task) (pending : rec.stateOf t=.pending)
    (deps : ∀ d∈spec.deps t, rec.stateOf d=.completed) : MoveCase rec (.ready t) ⟨.ready,none,none⟩
  /-- A predecessor ended without success. -/
  | skip (t bad : spec.Task) (pending : rec.stateOf t=.pending) (mem : bad∈spec.deps t)
    (ended : endedBadly (rec.stateOf bad)=true) : MoveCase rec (.skip t bad)
      ⟨.skipped bad.1,some (failure host ex rec t .rejected .noEffect
        ("prerequisite failed: "++bad.1.asStr)),none⟩
  /-- The task was ready. -/
  | start (t : spec.Task) (ready : rec.stateOf t=.ready) : MoveCase rec (.start t) ⟨.running,none,none⟩
  /-- The task was running. -/
  | settle (t : spec.Task) (e : BodyEnd) (running : rec.stateOf t=.running) :
    MoveCase rec (.settle t e) (settleEntry host ex rec t e)
  /-- The task was open and not running. -/
  | cancel (t : spec.Task) (message : String) (certainty : EffectCertainty)
    (reason : cancelReason t (rec.stateOf t)=some (message,certainty)) : MoveCase rec (.cancel t)
      ⟨.cancelled,some (failure host ex rec t .cancelled certainty message),none⟩

variable {host ex}

theorem moveCase_of_entryOf {rec : Recorder spec} {m : Move spec} {entry : Entry}
    (h : entryOf host ex rec m=some entry) : MoveCase host ex rec m entry := by
  cases m with
  | ready t =>
    obtain ⟨hc,⟨⟩⟩ := Option.ite_none_right_eq_some.mp h
    exact MoveCase.ready t hc.1 (by simpa using hc.2)
  | skip t bad =>
    obtain ⟨hc,⟨⟩⟩ := Option.ite_none_right_eq_some.mp h
    exact MoveCase.skip t bad hc.1 hc.2.1 hc.2.2
  | start t =>
    obtain ⟨hc,⟨⟩⟩ := Option.ite_none_right_eq_some.mp h
    exact MoveCase.start t hc
  | settle t e =>
    obtain ⟨hc,⟨⟩⟩ := Option.ite_none_right_eq_some.mp h
    exact MoveCase.settle t e hc
  | cancel t =>
    obtain ⟨⟨message,certainty⟩,hreason,rfl⟩ := Option.map_eq_some_iff.mp h
    exact MoveCase.cancel t message certainty hreason

/-- A move taken is an enabled one and enters its entry. -/
theorem moveStep_cases {rec rec' : Recorder spec} {m : Move spec}
    (h : moveStep host ex rec m=some rec') :
    ∃ entry, MoveCase host ex rec m entry ∧ rec'=enter host rec m.task entry := by
  obtain ⟨entry,hentry,rfl⟩ := Option.map_eq_some_iff.mp h
  exact ⟨entry,moveCase_of_entryOf hentry,rfl⟩

theorem failure_fields (host : Host) (ex : WorkflowExecutor) (rec : Recorder spec) (t : spec.Task)
    (cls : FailureClass) (certainty : EffectCertainty) (message : String) :
    (failure host ex rec t cls certainty message).sequence=rec.ledger.seq+1 ∧
      (failure host ex rec t cls certainty message).toolCallId=t.1.asStr ∧
      (failure host ex rec t cls certainty message).cls=cls ∧
      (failure host ex rec t cls certainty message).effectCertainty=certainty :=
  FailureRecord.pushCause_fields _ _ _ _ _

theorem settleEntry_kind (host : Host) (ex : WorkflowExecutor) (rec : Recorder spec) (t : spec.Task)
    (e : BodyEnd) : (settleEntry host ex rec t e).state.kind=endKind e := by
  rcases e with ((_|_|_|_)|_|_)|_ <;> rfl

/-- The record of a settled end carries the certainty of that end. -/
theorem settleEntry_certainty (host : Host) (ex : WorkflowExecutor) (rec : Recorder spec)
    (t : spec.Task) (e : BodyEnd) :
    (settleEntry host ex rec t e).failure.map FailureRecord.effectCertainty=endCertainty t e := by
  rcases e with ((_|_|_|_)|_|_)|_ <;>
    simp only [settleEntry,endCertainty,Option.map_none,Option.map_some,failure_fields]

theorem settleEntry_admissible (host : Host) (ex : WorkflowExecutor) {rec : Recorder spec}
    {t : spec.Task} (e : BodyEnd) (h : rec.stateOf t=.running) :
    Admissible rec t (settleEntry host ex rec t e) := by
  refine ⟨?_,?_,?_,?_,?_,?_⟩
  · rw [h,settleEntry_kind]
    rcases e with ((_|_|_|_)|_|_)|_ <;> constructor
  · rcases e with ((_|_|_|_)|_|_)|_ <;> simp [settleEntry]
  · rcases e with ((_|_|_|_)|_|_)|_ <;> simp [settleEntry,endedBadly]
  · intro f hf
    rcases e with ((_|_|_|_)|_|_)|_ <;> simp only [settleEntry,Option.some.injEq,reduceCtorEq] at hf <;>
      (subst hf; exact ⟨(failure_fields ..).2.1,(failure_fields ..).1⟩)
  · intro f hf
    rcases e with ((_|_|_|_)|_|_)|_ <;> simp_all [settleEntry]
  · intro hready
    rcases e with ((_|_|_|_)|_|_)|_ <;> simp [settleEntry] at hready

/-- The states that can be cancelled from outside the body. -/
theorem cancelReason_cases {t : spec.Task} {s : TaskState} {message : String}
    {certainty : EffectCertainty} (h : cancelReason t s=some (message,certainty)) :
    ((s=.pending ∨ s=.ready) ∧ certainty=.noEffect) ∨
      (s=.waitingForApproval ∧ certainty=interruptOf t) := by
  cases s <;> simp_all [cancelReason,interruptOf]

/-- Every enabled move is admissible. -/
theorem MoveCase.admissible {rec : Recorder spec} {m : Move spec} {entry : Entry}
    (h : MoveCase host ex rec m entry) : Admissible rec m.task entry := by
  cases h with
  | ready t pending deps =>
    refine ⟨?_,by simp,by simp [endedBadly],by simp,by simp,fun _ => deps⟩
    simp only [Move.task,pending]
    exact Lifecycle.readies
  | skip t bad pending mem ended =>
    refine ⟨?_,by simp,by simp [endedBadly],?_,by simp,by simp⟩
    · simp only [Move.task,pending]
      exact Lifecycle.skips
    · rintro f ⟨⟩
      exact ⟨(failure_fields ..).2.1,(failure_fields ..).1⟩
  | start t ready =>
    refine ⟨?_,by simp,by simp [endedBadly],by simp,by simp,by simp⟩
    simp only [Move.task,ready]
    exact Lifecycle.starts
  | settle t e running => exact settleEntry_admissible host ex e running
  | cancel t message certainty reason =>
    refine ⟨?_,by simp,by simp [endedBadly],?_,by simp,by simp⟩
    · simp only [Move.task]
      rcases cancelReason_cases reason with ⟨hs|hs,-⟩|⟨hs,-⟩ <;> rw [hs]
      · exact Lifecycle.cancelsPending
      · exact Lifecycle.cancelsReady
      · exact Lifecycle.cancelsWaiting
    · rintro f ⟨⟩
      exact ⟨(failure_fields ..).2.1,(failure_fields ..).1⟩

/-- Only a start enters the running state. -/
theorem MoveCase.not_running {rec : Recorder spec} {m : Move spec} {entry : Entry}
    (h : MoveCase host ex rec m entry) (hm : m.starts=false) : entry.state.kind≠.running := by
  cases h with
  | start t ready => cases hm
  | settle t e running =>
    rw [settleEntry_kind]
    intro hk
    have hle := three_le_rank_endKind e
    rw [hk] at hle
    exact absurd hle (by decide)
  | ready | skip | cancel => exact StateKind.noConfusion

/-- Every move keeps the ledger in agreement. -/
theorem LedgerInv.move {rec rec' : Recorder spec} {m : Move spec} (h : LedgerInv rec)
    (hstep : moveStep host ex rec m=some rec') : LedgerInv rec' := by
  obtain ⟨entry,hcase,rfl⟩ := moveStep_cases hstep
  exact h.enter host hcase.admissible

end Moves

end AegisRuntime.WorkflowMoves
