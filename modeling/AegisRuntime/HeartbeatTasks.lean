import AegisRuntime.HeartbeatPulses

/-!
# Each queued task is executed at most once

Pulses work from stale lists, so the guarantee comes from the conditional claim
alone. The invariant ties the steps that a task has taken to the pulse that holds
it: the trace of a task is a beginning of one life, the claim, the body and the
completion in a single pulse, and while a pulse holds a task the trace ends where
the pulse is.
-/

namespace AegisRuntime.HeartbeatTasks

open HeartbeatPulses KeyedTables LabelledRuns WorkerPools

/-- The step of a task without its data: claim, body, completion. -/
def rank : TaskPhase → ℕ
  | .claim => 0
  | .body _ => 1
  | .complete _ => 2

/-- The steps of a task in order, each with its pulse. -/
def trace (id : String) (log : List TaskEvent) : List (ℕ×ℕ) :=
  (log.filter fun event => decide (event.task=id)).map fun event => (event.pulse,rank event.phase)

/-- The whole life of a task in a pulse. -/
def lifecycle (i : ℕ) : List (ℕ×ℕ) := [(i,0),(i,1),(i,2)]

/-- The task that a pulse at a stage holds, and how much of its life is over. -/
def held : PulseStage → Option (String×ℕ)
  | .claimed task _ => some (task.id,1)
  | .running task _ | .completing task _ _ => some (task.id,2)
  | .listing | .looping _ | .recorded _ | .returned _ => none

/-- The successful claims of a pulse at a stage. -/
def claims : PulseStage → ℕ
  | .listing => 0
  | .looping loop => loop.actions
  | .claimed _ loop | .running _ loop | .completing _ _ loop => loop.actions+1
  | .recorded receipt | .returned receipt => receipt.actionsDispatched

/-- The successful claims in a log. -/
def claimCount (log : List TaskEvent) : ℕ :=
  (log.filter fun event => decide (event.phase=.claim)).length

variable {db db' : Database} {s t : BeatState} {stage stage' : PulseStage}
  {event : Option (String×TaskPhase)}

theorem held_cases {id : String} {n : ℕ} (h : held stage=some (id,n)) : n=1 ∨ n=2 := by
  cases stage <;> cases h <;> simp

/-- A successful claim took a pending task. -/
theorem claimTask_true {id : String} (h : db.claimTask id=(db',true)) :
    db.status id=some .pending ∧
      ∀ other, db'.status other=if other=id then some .running else db.status other := by
  obtain ⟨rfl,hpending⟩ := Prod.mk.inj h
  simp only [Database.isPending,List.any_eq_true,Bool.and_eq_true,decide_eq_true_eq] at hpending
  obtain ⟨task,htask,hid,hstatus⟩ := hpending
  have hfind := Table.find_eq_some_iff.mpr ⟨htask,hid⟩
  refine ⟨by rw [Database.status,hfind,Option.map_some,hstatus],fun other => ?_⟩
  simp only [Database.status,Table.find_modify]
  split
  · next hother =>
    rw [hother,hfind]
    simp only [Option.map_some,TaskRecord.claimed,hstatus,if_true]
  · rfl

/-- A claim that fails changes no state. -/
theorem claimTask_false {id : String} (h : db.claimTask id=(db',false)) (other : String) :
    db'.status other=db.status other := by
  obtain ⟨rfl,hpending⟩ := Prod.mk.inj h
  simp only [Database.isPending,List.any_eq_false,Bool.and_eq_true,decide_eq_true_eq] at hpending
  simp only [Database.status,Table.find_modify]
  split
  · next hother =>
    cases hfind : db.tasks.find other with
    | none => rfl
    | some task =>
      obtain ⟨htask,hid⟩ := Table.find_eq_some_iff.mp hfind
      have hstatus : task.status≠.pending := fun hp => hpending task htask ⟨hid.trans hother,hp⟩
      simp only [Option.map_some,TaskRecord.claimed,if_neg hstatus]
  · rfl

/-- A completion completes its task and changes no other state. -/
theorem status_completeTask (id text now other : String) :
    (db.completeTask id text now).status other=
      if other=id then (db.status other).map fun _ => .completed else db.status other := by
  simp only [Database.status,Database.completeTask,Table.find_modify]
  split
  · cases db.tasks.find other <;> rfl
  · rfl

theorem status_bodyEffect (body : TaskBody) (answer : BodyAnswer) (id : String) :
    (bodyEffect db body answer).status id=db.status id := by
  cases body with
  | storeCrumb key =>
    simp only [bodyEffect]
    split <;> rfl
  | checkHealth | dispatchShell command | telemetry | other => rfl

/-- A new task is pending; other tasks stay as they are. -/
theorem status_createTask {id taskType payload now : String}
    (h : db.createTask id taskType payload now=some db') : db.status id=none ∧
      ∀ other, db'.status other=if id=other then some .pending else db.status other := by
  obtain ⟨tasks,hinsert,rfl⟩ := Option.map_eq_some_iff.mp h
  have hfresh := Table.find_eq_none_iff.mpr (Table.insert_rows hinsert).2
  refine ⟨by rw [Database.status,hfresh,Option.map_none],fun other => ?_⟩
  simp only [Database.status,Table.find_insert hinsert]
  split <;> rfl

/-- What a step of a pulse does to the states of the tasks. -/
inductive StageEffect (db db' : Database) (stage stage' : PulseStage) :
    Option (String×TaskPhase) → Prop where
  /-- Nothing. -/
  | quiet (states : ∀ id, db'.status id=db.status id) (holds : held stage'=held stage)
      (counts : claims stage'=claims stage) : StageEffect db db' stage stage' none
  /-- It takes a pending task. -/
  | claim (id : String) (before : db.status id=some .pending)
      (states : ∀ other, db'.status other=if other=id then some .running else db.status other)
      (holds : held stage'=some (id,1)) (counts : claims stage'=claims stage+1) :
      StageEffect db db' stage stage' (some (id,.claim))
  /-- It begins the body of the task that it took. -/
  | body (id : String) (body : TaskBody) (before : held stage=some (id,1))
      (states : ∀ other, db'.status other=db.status other) (holds : held stage'=some (id,2))
      (counts : claims stage'=claims stage) :
      StageEffect db db' stage stage' (some (id,.body body))
  /-- It completes the task whose body it ran, unless the statement fails. -/
  | complete (id : String) (text : String) (before : held stage=some (id,2))
      (states : (∀ other, db'.status other=db.status other) ∨
        ∀ other, db'.status other=
          if other=id then (db.status other).map fun _ => .completed else db.status other)
      (holds : held stage'=none) (counts : claims stage'=claims stage) :
      StageEffect db db' stage stage' (some (id,.complete text))

theorem stageStep_effect {tick : UInt64} {timestamp : String} {move : PulseMove}
    (h : stageStep db tick timestamp stage move=some (db',stage',event)) :
    StageEffect db db' stage stage' event := by
  cases stageStep_cases h with
  | lists | claimFails | finishes => exact .quiet (fun _ => rfl) rfl rfl
  | claims task rest scanned actions db' claimed =>
    obtain ⟨hbefore,hstates⟩ := claimTask_true claimed
    exact .claim task.id hbefore hstates rfl rfl
  | misses task rest scanned actions db' missed => exact .quiet (claimTask_false missed) rfl rfl
  | begins task loop => exact .body task.id _ rfl (fun _ => rfl) rfl rfl
  | ends task loop answer => exact .quiet (status_bodyEffect _ answer) rfl rfl
  | completes task text loop now ok =>
    refine .complete task.id text rfl ?_ rfl rfl
    cases ok with
    | false => exact Or.inl fun _ => rfl
    | true => exact Or.inr (status_completeTask task.id text now)
  | records scanned actions ok =>
    refine .quiet (fun id => ?_) rfl rfl
    cases ok <;> rfl

/-- What every reachable state satisfies. -/
structure BeatInv (s : BeatState) : Prop where
  /-- A task that is not stored, or pending, has taken no step. -/
  untouched : ∀ id, s.db.status id=none ∨ s.db.status id=some .pending → trace id s.log=[]
  /-- A task that a pulse holds is running and lives in that pulse. -/
  holds : ∀ i pulse id n, s.pulses[i]?=some pulse → held pulse.stage=some (id,n) →
    s.db.status id=some .running ∧ trace id s.log=(lifecycle i).take n
  /-- A task lives in one pulse. -/
  lives : ∀ id, ∃ i, trace id s.log <+: lifecycle i
  /-- The claims of the pulses are those of the log. -/
  counts : total (fun pulse => claims pulse.stage) s.pulses=claimCount s.log

theorem trace_concat_self (log : List TaskEvent) (e : TaskEvent) :
    trace e.task (log++[e])=trace e.task log++[(e.pulse,rank e.phase)] := by
  simp [trace,List.filter_append]

theorem trace_concat_other {id : String} {e : TaskEvent} (h : e.task≠id) (log : List TaskEvent) :
    trace id (log++[e])=trace id log := by
  simp [trace,List.filter_append,h]

theorem claimCount_concat (log : List TaskEvent) (e : TaskEvent) :
    claimCount (log++[e])=claimCount log+if e.phase=.claim then 1 else 0 := by
  rw [claimCount,List.filter_append,List.length_append]
  by_cases h : e.phase=.claim <;> simp [claimCount,h]

/-- No two pulses hold one task. -/
theorem BeatInv.sole (h : BeatInv s) {i j : ℕ} {p q : Pulse} {id : String} {n m : ℕ}
    (hi : s.pulses[i]?=some p) (hj : s.pulses[j]?=some q) (hp : held p.stage=some (id,n))
    (hq : held q.stage=some (id,m)) : i=j := by
  have htrace := (h.holds i p id n hi hp).2.symm.trans (h.holds j q id m hj hq).2
  rcases held_cases hp with rfl|rfl <;> rcases held_cases hq with rfl|rfl <;>
    simp [lifecycle] at htrace <;> exact htrace

/-- A step of a pulse without an effect on tasks keeps the invariant. -/
theorem BeatInv.quiet (h : BeatInv s) {i : ℕ} {pulse pulse' : Pulse}
    (hi : s.pulses[i]?=some pulse) (hstates : ∀ id, db'.status id=s.db.status id)
    (hheld : held pulse'.stage=held pulse.stage) (hclaims : claims pulse'.stage=claims pulse.stage) :
    BeatInv (advanced s db' i pulse' none) := by
  have hlog : (advanced s db' i pulse' none).log=s.log := List.append_nil _
  refine ⟨?_,?_,?_,?_⟩
  · intro id hid
    rw [hlog]
    exact h.untouched id (hstates id ▸ hid)
  · intro j q id n hj hq
    rw [hlog]
    change db'.status id=some .running ∧ _
    rw [hstates]
    by_cases hij : i=j
    · subst hij
      rw [advanced,List.getElem?_set_self (List.getElem?_eq_some_iff.mp hi).1] at hj
      cases hj
      exact h.holds i pulse id n hi (hheld ▸ hq)
    · rw [advanced,List.getElem?_set_ne hij] at hj
      exact h.holds j q id n hj hq
  · intro id
    rw [hlog]
    exact h.lives id
  · rw [hlog,←h.counts]
    have htotal := total_set (fun pulse => claims pulse.stage) hi pulse'
    simp only [hclaims] at htotal
    change total _ (s.pulses.set i pulse')=_
    omega

/-- The life of a task goes on by its next step. -/
theorem lifecycle_take_succ (i : ℕ) (phase : TaskPhase) :
    (lifecycle i).take (rank phase)++[(i,rank phase)]=(lifecycle i).take (rank phase+1) := by
  cases phase <;> rfl

/-- A step in the life of a task keeps the invariant when no other pulse holds the
task and the life of the task was over up to this step. -/
theorem BeatInv.advance (h : BeatInv s) {i : ℕ} {pulse pulse' : Pulse} {id : String}
    {phase : TaskPhase} (hi : s.pulses[i]?=some pulse)
    (hbefore : trace id s.log=(lifecycle i).take (rank phase))
    (hfree : ∀ j q n, s.pulses[j]?=some q → held q.stage=some (id,n) → i=j)
    (hstates : ∀ other, other≠id → db'.status other=s.db.status other)
    (hafter : db'.status id=some .running ∨
      db'.status id=some .completed ∧ held pulse'.stage=none)
    (hheld : ∀ other n, held pulse'.stage=some (other,n) → other=id ∧ n=rank phase+1)
    (hclaims : claims pulse'.stage=claims pulse.stage+if phase=.claim then 1 else 0) :
    BeatInv (advanced s db' i pulse' (some (id,phase))) := by
  have hlog : (advanced s db' i pulse' (some (id,phase))).log=s.log++[⟨i,id,phase⟩] := rfl
  have htrace : trace id (s.log++[⟨i,id,phase⟩])=(lifecycle i).take (rank phase+1) := by
    have hself := trace_concat_self s.log ⟨i,id,phase⟩
    rw [hbefore,lifecycle_take_succ] at hself
    exact hself
  refine ⟨?_,?_,?_,?_⟩
  · intro other hother
    change db'.status other=none ∨ db'.status other=some .pending at hother
    have hne : other≠id := by
      rintro rfl
      rcases hafter with hafter|⟨hafter,-⟩ <;> rw [hafter] at hother <;> simp at hother
    rw [hlog,trace_concat_other (Ne.symm hne)]
    rw [hstates other hne] at hother
    exact h.untouched other hother
  · intro j q other n hj hq
    rw [hlog]
    change db'.status other=some .running ∧ _
    by_cases hij : i=j
    · subst hij
      rw [advanced,List.getElem?_set_self (List.getElem?_eq_some_iff.mp hi).1] at hj
      cases hj
      obtain ⟨rfl,rfl⟩ := hheld other n hq
      refine ⟨?_,htrace⟩
      rcases hafter with hafter|⟨-,hnone⟩
      · exact hafter
      · rw [hnone] at hq
        cases hq
    · rw [advanced,List.getElem?_set_ne hij] at hj
      have hne : other≠id := by
        rintro rfl
        exact hij (hfree j q n hj hq)
      rw [hstates other hne,trace_concat_other (Ne.symm hne)]
      exact h.holds j q other n hj hq
  · intro other
    rw [hlog]
    by_cases hother : other=id
    · rw [hother,htrace]
      exact ⟨i,List.take_prefix _ _⟩
    · rw [trace_concat_other (Ne.symm hother)]
      exact h.lives other
  · rw [hlog,claimCount_concat,←h.counts]
    have htotal := total_set (fun pulse => claims pulse.stage) hi pulse'
    simp only [hclaims] at htotal
    change total _ (s.pulses.set i pulse')=_+if phase=.claim then 1 else 0
    omega

/-- Every step of a pulse keeps the invariant. -/
theorem BeatInv.effect (h : BeatInv s) {i : ℕ} {pulse pulse' : Pulse}
    (hi : s.pulses[i]?=some pulse) (he : StageEffect s.db db' pulse.stage pulse'.stage event) :
    BeatInv (advanced s db' i pulse' event) := by
  generalize hstage : pulse.stage=stage at he
  generalize hstage' : pulse'.stage=stage' at he
  cases he with
  | quiet hstates hheld hcounts =>
    subst hstage hstage'
    exact h.quiet hi hstates hheld hcounts
  | claim id hbefore hstates hheld hcounts =>
    subst hstage hstage'
    refine h.advance hi (h.untouched id (Or.inr hbefore)) ?_ ?_ (Or.inl ?_) ?_ hcounts
    · intro j q n hj hq
      have hrunning := (h.holds j q id n hj hq).1
      rw [hbefore] at hrunning
      cases hrunning
    · intro other hne
      rw [hstates,if_neg hne]
    · rw [hstates,if_pos rfl]
    · intro other n hn
      rw [hheld] at hn
      cases hn
      exact ⟨rfl,rfl⟩
  | body id body hbefore hstates hheld hcounts =>
    subst hstage hstage'
    obtain ⟨hrunning,htrace⟩ := h.holds i pulse id 1 hi hbefore
    refine h.advance hi htrace ?_ (fun other _ => hstates other) (Or.inl ?_) ?_ hcounts
    · intro j q n hj hq
      exact h.sole hi hj hbefore hq
    · rw [hstates,hrunning]
    · intro other n hn
      rw [hheld] at hn
      cases hn
      exact ⟨rfl,rfl⟩
  | complete id text hbefore hstates hheld hcounts =>
    subst hstage hstage'
    obtain ⟨hrunning,htrace⟩ := h.holds i pulse id 2 hi hbefore
    refine h.advance hi htrace ?_ ?_ ?_ ?_ hcounts
    · intro j q n hj hq
      exact h.sole hi hj hbefore hq
    · intro other hne
      rcases hstates with hstates|hstates
      · exact hstates other
      · rw [hstates,if_neg hne]
    · rcases hstates with hstates|hstates
      · left
        rw [hstates,hrunning]
      · right
        rw [hstates,if_pos rfl,hrunning]
        exact ⟨rfl,hheld⟩
    · intro other n hn
      rw [hheld] at hn
      cases hn

/-- A step of a pulse has an effect on tasks that `StageEffect` describes. -/
theorem move_effect {pulse pulse' : Pulse} {move : PulseMove}
    (h : move=.abandon ∧ db'=db ∧ event=none ∧ pulse'.stage=pulse.stage ∨
      stageStep db pulse.tick pulse.timestamp pulse.stage move=some (db',pulse'.stage,event)) :
    StageEffect db db' pulse.stage pulse'.stage event := by
  rcases h with ⟨-,rfl,rfl,hstage⟩|h
  · rw [hstage]
    exact .quiet (fun _ => rfl) rfl rfl
  · exact stageStep_effect h

/-- A new task keeps the invariant. -/
theorem BeatInv.createTask (h : BeatInv s) {id taskType payload now : String}
    (hcreate : s.db.createTask id taskType payload now=some db') : BeatInv { s with db := db' } := by
  obtain ⟨hfresh,hstates⟩ := status_createTask hcreate
  refine ⟨?_,?_,h.lives,h.counts⟩
  · intro other hother
    change db'.status other=none ∨ db'.status other=some .pending at hother
    rw [hstates] at hother
    split at hother
    · next hid => exact h.untouched other (Or.inl (hid ▸ hfresh))
    · exact h.untouched other hother
  · intro j q other n hj hq
    obtain ⟨hrunning,htrace⟩ := h.holds j q other n hj hq
    have hne : id≠other := by
      rintro rfl
      rw [hfresh] at hrunning
      cases hrunning
    refine ⟨?_,htrace⟩
    change db'.status other=some .running
    rw [hstates,if_neg hne,hrunning]

/-- A new pulse keeps the invariant. -/
theorem BeatInv.pulse (h : BeatInv s) {counters : ℕ → UInt64} {pulse : Pulse}
    (hstage : pulse.stage=.listing) :
    BeatInv { s with counters := counters, pulses := s.pulses++[pulse] } := by
  refine ⟨h.untouched,?_,h.lives,?_⟩
  · intro j q id n hj hq
    change (s.pulses++[pulse])[j]?=some q at hj
    rw [List.getElem?_append] at hj
    split at hj
    · exact h.holds j q id n hj hq
    · have hmem := List.mem_of_getElem? hj
      rw [List.mem_singleton.mp hmem,hstage] at hq
      cases hq
  · change total _ (s.pulses++[pulse])=_
    rw [total_append,h.counts,total_cons,hstage]
    rfl

theorem BeatInv.step (h : BeatInv s) {act : BeatAct} (hstep : beatStep s act=some t) :
    BeatInv t := by
  rcases beatStep_cases hstep with ⟨id,taskType,payload,now,-,rfl⟩|⟨engine,now,-,rfl⟩|
    ⟨i,move,pulse,pulse',db',event,-,hi,-,-,hmove,rfl⟩
  · cases hcreate : s.db.createTask id taskType payload now with
    | none => exact h
    | some db' => exact h.createTask hcreate
  · exact h.pulse rfl
  · exact h.effect hi (move_effect hmove)

theorem inv_of_run (r : BeatRun) : BeatInv r.state := by
  refine run_invariant (I:=BeatInv) ?_ (fun s act t hs hstep => hs.step hstep) r.ran
  exact ⟨fun _ _ => rfl,fun _ _ _ _ hi => absurd (List.mem_of_getElem? hi) List.not_mem_nil,
    fun id => ⟨0,List.nil_prefix⟩,rfl⟩

/-- How the stored state of a task may change. -/
inductive StatusMove : Option TaskStatus → Option TaskStatus → Prop where
  /-- It stays. -/
  | stays (status : Option TaskStatus) : StatusMove status status
  /-- The task is queued. -/
  | queued : StatusMove none (some .pending)
  /-- The task is claimed. -/
  | claimed : StatusMove (some .pending) (some .running)
  /-- The task is completed. -/
  | completed : StatusMove (some .running) (some .completed)

/-- A step of a pulse moves states forward. -/
theorem BeatInv.status_effect (h : BeatInv s) {i : ℕ} {pulse : Pulse} {stage' : PulseStage}
    (hi : s.pulses[i]?=some pulse) (he : StageEffect s.db db' pulse.stage stage' event)
    (other : String) : StatusMove (s.db.status other) (db'.status other) := by
  cases he with
  | quiet hstates hheld hcounts | body id body hbefore hstates hheld hcounts =>
    rw [hstates]
    exact .stays _
  | claim id hbefore hstates hheld hcounts =>
    rw [hstates]
    split
    · next hid =>
      rw [hid,hbefore]
      exact .claimed
    · exact .stays _
  | complete id text hbefore hstates hheld hcounts =>
    rcases hstates with hstates|hstates
    · rw [hstates]
      exact .stays _
    · rw [hstates]
      split
      · next hid =>
        rw [hid,(h.holds i pulse id 2 hi hbefore).1]
        exact .completed
      · exact .stays _

/-- Every step of the system moves states forward. -/
theorem BeatInv.status_step (h : BeatInv s) {act : BeatAct} (hstep : beatStep s act=some t)
    (other : String) : StatusMove (s.db.status other) (t.db.status other) := by
  rcases beatStep_cases hstep with ⟨id,taskType,payload,now,-,rfl⟩|⟨engine,now,-,rfl⟩|
    ⟨i,move,pulse,pulse',db',event,-,hi,-,-,hmove,rfl⟩
  · cases hcreate : s.db.createTask id taskType payload now with
    | none => exact .stays _
    | some db' =>
      obtain ⟨hfresh,hstates⟩ := status_createTask hcreate
      change StatusMove _ (db'.status other)
      rw [hstates]
      split
      · next hid =>
        rw [←hid,hfresh]
        exact .queued
      · exact .stays _
  · exact .stays _
  · exact h.status_effect hi (move_effect hmove) other

/-- When every pulse has returned, the receipts count the claims of the pulses. -/
theorem total_receipts {pulses : List Pulse}
    (h : ∀ pulse∈pulses, ∃ receipt, pulse.stage=.returned receipt) :
    total PulseReceipt.actionsDispatched (pulses.filterMap Pulse.receipt)=
      total (fun pulse => claims pulse.stage) pulses := by
  induction pulses with
  | nil => rfl
  | cons pulse pulses ih =>
    obtain ⟨receipt,hstage⟩ := h pulse List.mem_cons_self
    have hreceipt : pulse.receipt=some receipt := by rw [Pulse.receipt,hstage]
    have hrest := ih fun p hp => h p (List.mem_cons_of_mem pulse hp)
    rw [List.filterMap_cons_some hreceipt,total_cons,total_cons,hrest,hstage]
    rfl

/-- Every queued task is executed at most once, in every run of any number of
pulses. The steps of a task are a beginning of one claim, one body and one
completion, all in one pulse; its stored state only moves forward; and when all
pulses have returned, the actions they report are the claims that succeeded. -/
theorem tasks_run_once (r : BeatRun) :
    (∀ id, ∃ i, trace id r.state.log <+: lifecycle i) ∧
    (∀ act t, beatStep r.state act=some t →
      ∀ id, StatusMove (r.state.db.status id) (t.db.status id)) ∧
    ((∀ pulse∈r.state.pulses, ∃ receipt, pulse.stage=.returned receipt) →
      total PulseReceipt.actionsDispatched r.state.receipts=claimCount r.state.log) := by
  have hinv := inv_of_run r
  refine ⟨hinv.lives,fun act t hstep id => hinv.status_step hstep id,fun hreturned => ?_⟩
  rw [←hinv.counts]
  exact total_receipts hreturned

/-- Two pulses list the same task and both try to claim it. -/
def overlap : List BeatAct :=
  [.createTask "once" "system_telemetry" "" "t0",.pulse 0 "t1",.pulse 0 "t2",
    .move 0 (.list true),.move 1 (.list true),.move 1 (.claim true),.move 0 (.claim true),
    .move 1 .beginBody,.move 1 (.endBody ⟨true,.ok "",none⟩),.move 0 (.record true),
    .move 1 (.complete "t3" true),.move 1 (.record true),.move 0 .finish,.move 1 .finish]

example : (runs beatStep .start overlap).map
    (fun s => s.receipts.map PulseReceipt.actionsDispatched)=some [0,1] := by rfl

end AegisRuntime.HeartbeatTasks
