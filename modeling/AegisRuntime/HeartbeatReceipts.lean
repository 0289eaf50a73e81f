import AegisRuntime.HeartbeatPulses

/-!
# Receipts in the heartbeat table

A receipt is written under the tick of its pulse, in place of a row that is
already there. Ticks are counted by the engine, from zero in every process, while
the table outlives it: the tick of a pulse is its number among the pulses of its
engine, up to the width of the counter. No receipt is lost along a run exactly when
no two pulses that record have the same number. One engine keeps this until its
counter wraps; a second process breaks it with its first pulse.
-/

namespace AegisRuntime.HeartbeatReceipts

open HeartbeatPulses KeyedTables LabelledRuns SignedColumns WorkerPools

/-- Whether an action is a record that fails. -/
def failsRecord : BeatAct → Bool
  | .move _ (.record ok) => !ok
  | .createTask _ _ _ _ | .pulse _ _ | .move _ _ => false

/-- The steps of the system in which no record fails. -/
def recordingStep (s : BeatState) (act : BeatAct) : Option BeatState :=
  if failsRecord act then none else beatStep s act

/-- A run in which no record fails. -/
structure RecordingRun where
  /-- The actions, in order. -/
  acts : List BeatAct
  /-- The state they lead to. -/
  state : BeatState
  /-- They lead to it. -/
  ran : runs recordingStep BeatState.start acts=some state

/-- The table holds one row for each receipt and no other, equal to the receipt. -/
def Kept (s : BeatState) : Prop := s.db.heartbeats.rows.Perm (s.receipts.map heartbeatRow)

/-- The engine of a pulse that the action starts. -/
def startedEngine : BeatAct → Option ℕ
  | .pulse engine _ => some engine
  | .createTask _ _ _ _ | .move _ _ => none

/-- The engines of the pulses that are started, in order. -/
def startedEngines (acts : List BeatAct) : List ℕ := acts.filterMap startedEngine

/-- The number of a pulse among the pulses of its engine, from one. -/
def ordinal (engines : List ℕ) (i : ℕ) : ℕ :=
  match engines[i]? with
  | some engine => (engines.take (i+1)).count engine
  | none => 0

/-- The pulse that the action makes record. -/
def recorder : BeatAct → Option ℕ
  | .move i (.record _) => some i
  | .createTask _ _ _ _ | .pulse _ _ | .move _ _ => none

/-- The pulses that record, in order. -/
def recorders (acts : List BeatAct) : List ℕ := acts.filterMap recorder

/-- No two pulses that record have the same number, up to the width of the counter. -/
def NumberedApart (acts : List BeatAct) : Prop :=
  ∀ i∈recorders acts, ∀ j∈recorders acts, i≠j →
    ordinal (startedEngines acts) i%2^64≠ordinal (startedEngines acts) j%2^64

variable {db db' : Database} {s t : BeatState} {pulse pulse' : Pulse}

theorem heartbeats_createTask (id taskType payload now : String) :
    ((db.createTask id taskType payload now).getD db).heartbeats=db.heartbeats := by
  unfold Database.createTask
  cases db.tasks.insert ⟨id,taskType,payload,.pending,none,now,none⟩ <;> rfl

theorem heartbeats_bodyEffect (body : TaskBody) (answer : BodyAnswer) :
    (bodyEffect db body answer).heartbeats=db.heartbeats := by
  cases body with
  | storeCrumb key =>
    simp only [bodyEffect]
    split <;> rfl
  | checkHealth | dispatchShell command | telemetry | other => rfl

/-- A step of a pulse records its receipt, or leaves the table and the receipt. -/
theorem stageStep_receipt {move : PulseMove} {event : Option (String×TaskPhase)}
    (h : stageStep db pulse.tick pulse.timestamp pulse.stage move=some (db',pulse'.stage,event)) :
    (∃ ok receipt, move=.record ok ∧ pulse.receipt=none ∧ pulse'.receipt=some receipt ∧
      receipt.tickId=pulse.tick ∧ db'=if ok then db.recordHeartbeatTick receipt else db) ∨
    (∀ ok, move≠.record ok) ∧ db'.heartbeats=db.heartbeats ∧ pulse'.receipt=pulse.receipt := by
  unfold Pulse.receipt
  generalize pulse.stage=stage at h ⊢
  generalize pulse'.stage=stage' at h ⊢
  cases stageStep_cases h with
  | lists | claimFails | begins | finishes => exact Or.inr ⟨nofun,rfl,rfl⟩
  | claims task rest scanned actions db' claimed =>
    obtain ⟨rfl,-⟩ := Prod.mk.inj claimed
    exact Or.inr ⟨nofun,rfl,rfl⟩
  | misses task rest scanned actions db' missed =>
    obtain ⟨rfl,-⟩ := Prod.mk.inj missed
    exact Or.inr ⟨nofun,rfl,rfl⟩
  | ends task loop answer => exact Or.inr ⟨nofun,heartbeats_bodyEffect _ answer,rfl⟩
  | completes task text loop now ok =>
    refine Or.inr ⟨nofun,?_,rfl⟩
    cases ok <;> rfl
  | records scanned actions ok => exact Or.inl ⟨ok,_,rfl,rfl,rfl,rfl,rfl⟩

/-- A step in which no record fails is a step of the system. -/
theorem beatStep_of_recording {act : BeatAct} (h : recordingStep s act=some t) :
    beatStep s act=some t := by
  unfold recordingStep at h
  split at h
  · cases h
  · exact h

/-- A step in which no record fails leaves the table and the receipts, or it
records one receipt. -/
theorem receipts_step {act : BeatAct} (h : recordingStep s act=some t) :
    (t.db.heartbeats=s.db.heartbeats ∧ t.receipts=s.receipts) ∨
    ∃ receipt, t.db.heartbeats=s.db.heartbeats.replace (heartbeatRow receipt) ∧
      t.receipts.Perm (receipt::s.receipts) := by
  unfold recordingStep at h
  split at h
  · cases h
  · next hok =>
    rcases beatStep_cases h with ⟨id,taskType,payload,now,rfl,rfl⟩|⟨engine,now,rfl,rfl⟩|
      ⟨i,move,pulse,pulse',db,event,rfl,hi,htick,-,hmove,rfl⟩
    · exact Or.inl ⟨heartbeats_createTask id taskType payload now,rfl⟩
    · refine Or.inl ⟨rfl,?_⟩
      unfold BeatState.receipts
      rw [List.filterMap_append]
      exact List.append_nil s.receipts
    · rcases hmove with ⟨rfl,rfl,-,hstage⟩|hmove
      · refine Or.inl ⟨rfl,filterMap_set_same hi ?_⟩
        rw [Pulse.receipt,Pulse.receipt,hstage]
      · rcases stageStep_receipt hmove with ⟨ok,receipt,rfl,hnone,hreceipt,-,rfl⟩|⟨-,hdb,hr⟩
        · cases ok with
          | false => exact absurd rfl hok
          | true => exact Or.inr ⟨receipt,rfl,perm_filterMap_set hi hnone hreceipt⟩
        · exact Or.inl ⟨hdb,filterMap_set_same hi hr⟩

/-- A record keeps the receipts exactly when the table has no row of its tick. -/
theorem Kept.record_iff (h : Kept s) {receipt : PulseReceipt}
    (hdb : t.db.heartbeats=s.db.heartbeats.replace (heartbeatRow receipt))
    (hreceipts : t.receipts.Perm (receipt::s.receipts)) :
    Kept t ↔ s.db.heartbeats.find (asI64 receipt.tickId)=none := by
  have hrows := hreceipts.map heartbeatRow
  unfold Kept
  rw [hdb]
  constructor
  · intro hkept
    cases hfind : s.db.heartbeats.find (asI64 receipt.tickId) with
    | none => rfl
    | some row =>
      have hle : (s.db.heartbeats.replace (heartbeatRow receipt)).rows.length ≤
          s.db.heartbeats.rows.length := Table.replace_of_taken hfind
      have hbefore := h.length_eq
      have hafter := hkept.length_eq.trans hrows.length_eq
      rw [List.map_cons,List.length_cons] at hafter
      omega
  · intro hfresh
    have hreplace : (s.db.heartbeats.replace (heartbeatRow receipt)).rows=
        s.db.heartbeats.rows++[heartbeatRow receipt] := Table.replace_of_fresh hfresh
    refine List.Perm.trans ?_ hrows.symm
    rw [hreplace,List.map_cons]
    exact (List.perm_append_singleton _ _).trans (h.cons _)

/-- The keys of a table that keeps the receipts are their ticks. -/
theorem Kept.keys (h : Kept s) : (s.db.heartbeats.rows.map HeartbeatRow.tickId).Perm
    ((s.receipts.map PulseReceipt.tickId).map asI64) := by
  have hkeys := h.map HeartbeatRow.tickId
  rw [List.map_map] at hkeys ⊢
  exact hkeys

/-- At the end of a run the table keeps the receipts exactly when their ticks
differ. -/
theorem kept_iff_ticks_nodup (r : RecordingRun) :
    Kept r.state ↔ (r.state.receipts.map PulseReceipt.tickId).Nodup := by
  constructor
  · intro hkept
    exact (hkept.keys.nodup_iff.mp r.state.db.heartbeats.keys_nodup).of_map asI64
  · refine run_invariant (I:=fun s => (s.receipts.map PulseReceipt.tickId).Nodup → Kept s) ?_ ?_ r.ran
    · intro _
      exact .nil
    · intro s act t ih hstep hnodup
      -- the ticks before the step are among those after it
      rcases receipts_step hstep with ⟨hdb,hreceipts⟩|⟨receipt,hdb,hreceipts⟩
      · rw [hreceipts] at hnodup
        have hkept := ih hnodup
        unfold Kept at hkept ⊢
        rw [hdb,hreceipts]
        exact hkept
      · have hticks := (hreceipts.map PulseReceipt.tickId).nodup_iff.mp hnodup
        rw [List.map_cons,List.nodup_cons] at hticks
        have hkept := ih hticks.2
        refine (hkept.record_iff hdb hreceipts).mpr ?_
        rw [Table.find_eq_none_iff]
        intro hmem
        have htaken := hkept.keys.mem_iff.mp hmem
        exact hticks.1 ((List.mem_map_of_injective asI64_injective).mp htaken)

/-- Later pulses do not change a number. -/
theorem ordinal_append {engines : List ℕ} {i : ℕ} (hi : i < engines.length) (more : List ℕ) :
    ordinal (engines++more) i=ordinal engines i := by
  rw [ordinal,ordinal,List.getElem?_append_left hi,List.take_append_of_le_length hi]

/-- The number of the next pulse of an engine. -/
theorem ordinal_concat (engines : List ℕ) (engine : ℕ) :
    ordinal (engines++[engine]) engines.length=engines.count engine+1 := by
  have hall : (engines++[engine]).take (engines.length+1)=engines++[engine] :=
    List.take_of_length_le (by simp)
  rw [ordinal,List.getElem?_concat_length,hall]
  exact (List.count_append ..).trans (congrArg _ List.count_singleton_self)

/-- The elements of a list with one more. -/
theorem getElem?_concat_cases {α : Type} {xs : List α} {x y : α} {i : ℕ}
    (h : (xs++[x])[i]?=some y) : xs[i]?=some y ∨ i=xs.length ∧ y=x := by
  rcases Nat.lt_trichotomy i xs.length with hlt|rfl|hgt
  · rw [List.getElem?_append_left hlt] at h
    exact Or.inl h
  · rw [List.getElem?_concat_length] at h
    exact Or.inr ⟨rfl,(Option.some.inj h).symm⟩
  · rw [List.getElem?_eq_none (by rw [List.length_append,List.length_singleton]; omega)] at h
    cases h

/-- The pulses are numbered by the counters of their engines, and a pulse has a receipt, with
its number, once it records. -/
structure Numbered (acts : List BeatAct) (s : BeatState) : Prop where
  /-- A counter is the number of pulses of its engine, up to its width. -/
  counters : ∀ engine, s.counters engine=UInt64.ofNat ((startedEngines acts).count engine)
  /-- The pulses are those that were started. -/
  length : s.pulses.length=(startedEngines acts).length
  /-- The tick of a pulse is its number. -/
  ticks : ∀ (i : ℕ) (pulse : Pulse), s.pulses[i]?=some pulse →
    pulse.tick=UInt64.ofNat (ordinal (startedEngines acts) i)
  /-- A pulse that recorded has a receipt, and no other. -/
  recorded : ∀ (i : ℕ) (pulse : Pulse), s.pulses[i]?=some pulse →
    ((∃ receipt, pulse.receipt=some receipt) ↔ i∈recorders acts)
  /-- Only started pulses record. -/
  started : ∀ i∈recorders acts, i < s.pulses.length
  /-- A receipt carries the tick of its pulse. -/
  carried : ∀ (i : ℕ) (pulse : Pulse) (receipt : PulseReceipt), s.pulses[i]?=some pulse → pulse.receipt=some receipt →
    receipt.tickId=pulse.tick

/-- Starting a pulse keeps the numbers. -/
theorem Numbered.started_pulse {acts : List BeatAct} (h : Numbered acts s) (engine : ℕ) (now : String) :
    Numbered (acts++[.pulse engine now]) { s with
      counters := Function.update s.counters engine (s.counters engine+1)
      pulses := s.pulses++[{ tick := s.counters engine+1, timestamp := now, stage := .listing }] } := by
  have hengines : startedEngines (acts++[.pulse engine now])=startedEngines acts++[engine] := by
    simp [startedEngines,startedEngine]
  have hrecorders : recorders (acts++[.pulse engine now])=recorders acts := by
    simp [recorders,recorder]
  have hnext : s.counters engine+1=
      UInt64.ofNat ((startedEngines acts).count engine+1) := by
    rw [h.counters,UInt64.ofNat_add]
    rfl
  refine ⟨fun e => ?_,?_,fun i pulse hi => ?_,fun i pulse hi => ?_,fun i hi => ?_,?_⟩
  · rw [hengines,List.count_append,List.count_singleton]
    by_cases he : e=engine
    · subst he
      simpa using hnext
    · simpa [Function.update_of_ne he,Ne.symm he] using h.counters e
  · simp [hengines,h.length]
  · rw [hengines]
    rcases getElem?_concat_cases hi with hold|⟨rfl,rfl⟩
    · rw [ordinal_append (h.length ▸ (List.getElem?_eq_some_iff.mp hold).1)]
      exact h.ticks i pulse hold
    · rw [h.length,ordinal_concat]
      exact hnext
  · rw [hrecorders]
    rcases getElem?_concat_cases hi with hold|⟨rfl,rfl⟩
    · exact h.recorded i pulse hold
    · refine iff_of_false ?_ fun hmem => Nat.lt_irrefl _ (h.started _ hmem)
      rintro ⟨receipt,hreceipt⟩
      cases hreceipt
  · rw [hrecorders] at hi
    have hlt := h.started i hi
    rw [List.length_append]
    omega
  · intro i pulse receipt hi hreceipt
    rcases getElem?_concat_cases hi with hold|⟨rfl,rfl⟩
    · exact h.carried i pulse receipt hold hreceipt
    · cases hreceipt

/-- A step of a pulse keeps the numbers. -/
theorem Numbered.move {acts : List BeatAct} (h : Numbered acts s) {i : ℕ} {move : PulseMove}
    (hi : s.pulses[i]?=some pulse) (htick : pulse'.tick=pulse.tick)
    (hreceipt : (∃ receipt, pulse'.receipt=some receipt) ↔
      (∃ receipt, pulse.receipt=some receipt) ∨ ∃ ok, move=.record ok)
    (hcarried : ∀ receipt, pulse'.receipt=some receipt → pulse.receipt=some receipt ∨
      receipt.tickId=pulse.tick) (event : Option (String×TaskPhase)) :
    Numbered (acts++[.move i move]) (advanced s db i pulse' event) := by
  have hengines : startedEngines (acts++[.move i move])=startedEngines acts := by
    simp [startedEngines,startedEngine]
  have hrecorders : ∀ j, j∈recorders (acts++[.move i move]) ↔
      j∈recorders acts ∨ j=i ∧ ∃ ok, move=.record ok := by
    intro j
    cases move <;> simp [recorders,recorder]
  obtain ⟨hlt,-⟩ := List.getElem?_eq_some_iff.mp hi
  have hset : ∀ j p, (s.pulses.set i pulse')[j]?=some p → j=i ∧ p=pulse' ∨
      j≠i ∧ s.pulses[j]?=some p := by
    intro j p hj
    rw [List.getElem?_set] at hj
    by_cases hji : i=j
    · rw [if_pos hji,if_pos hlt] at hj
      exact Or.inl ⟨hji.symm,(Option.some.inj hj).symm⟩
    · rw [if_neg hji] at hj
      exact Or.inr ⟨Ne.symm hji,hj⟩
  refine ⟨fun e => ?_,?_,fun j p hj => ?_,fun j p hj => ?_,fun j hj => ?_,?_⟩
  · rw [hengines]
    exact h.counters e
  · rw [hengines,←h.length]
    exact List.length_set
  · rw [hengines]
    rcases hset j p hj with ⟨rfl,rfl⟩|⟨-,hj⟩
    · rw [htick]
      exact h.ticks j pulse hi
    · exact h.ticks j p hj
  · rw [hrecorders]
    rcases hset j p hj with ⟨rfl,rfl⟩|⟨hne,hj⟩
    · rw [hreceipt,h.recorded j pulse hi]
      simp
    · rw [h.recorded j p hj]
      simp [hne]
  · have hlength : (advanced s db i pulse' event).pulses.length=s.pulses.length := List.length_set
    rw [hlength]
    rcases (hrecorders j).mp hj with hj|⟨rfl,-⟩
    · exact h.started j hj
    · exact hlt
  · intro j p receipt hj hp
    rcases hset j p hj with ⟨rfl,rfl⟩|⟨-,hj⟩
    · rw [htick]
      rcases hcarried receipt hp with hold|hnew
      · exact h.carried j pulse receipt hi hold
      · exact hnew
    · exact h.carried j p receipt hj hp

/-- A step of the system keeps the numbers. -/
theorem Numbered.step {acts : List BeatAct} (h : Numbered acts s) {act : BeatAct}
    (hstep : beatStep s act=some t) : Numbered (acts++[act]) t := by
  rcases beatStep_cases hstep with ⟨id,taskType,payload,now,rfl,rfl⟩|⟨e,now,rfl,rfl⟩|
    ⟨i,move,pulse,pulse',db,event,rfl,hi,htick,-,hmove,rfl⟩
  · have hengines : startedEngines (acts++[.createTask id taskType payload now])=
        startedEngines acts := by simp [startedEngines,startedEngine]
    have hrecorders : recorders (acts++[.createTask id taskType payload now])=recorders acts := by
      simp [recorders,recorder]
    exact ⟨hengines ▸ h.counters,hengines ▸ h.length,hengines ▸ h.ticks,hrecorders ▸ h.recorded,
      hrecorders ▸ h.started,h.carried⟩
  · exact h.started_pulse e now
  · rcases hmove with ⟨rfl,-,-,hstage⟩|hmove
    · have hsame : pulse'.receipt=pulse.receipt := by rw [Pulse.receipt,Pulse.receipt,hstage]
      exact h.move hi htick (by simp [hsame]) (fun receipt hr => Or.inl (hsame ▸ hr)) event
    · rcases stageStep_receipt hmove with ⟨ok,given,rfl,-,hgiven,hid,-⟩|⟨hne,-,hr⟩
      · refine h.move hi htick (by simp [hgiven]) (fun receipt hr => Or.inr ?_) event
        cases hgiven.symm.trans hr
        exact hid
      · exact h.move hi htick (by simp [hr,hne]) (fun receipt hp => Or.inl (hr ▸ hp)) event

theorem Numbered.nil : Numbered [] BeatState.start where
  counters := fun _ => rfl
  length := rfl
  ticks := by
    intro i pulse hi
    cases hi
  recorded := by
    intro i pulse hi
    cases hi
  started := List.forall_mem_nil _
  carried := by
    intro i pulse receipt hi
    cases hi

/-- The numbers hold at the end of a run. -/
theorem RecordingRun.numbered (r : RecordingRun) : Numbered r.acts r.state :=
  history_invariant Numbered.nil
    (fun _ _ _ _ _ hs hstep => hs.step (beatStep_of_recording hstep)) r.ran

/-- The ticks of the receipts differ exactly when the pulses that record have different
numbers. -/
theorem Numbered.nodup_iff {acts : List BeatAct} (h : Numbered acts s) :
    (s.receipts.map PulseReceipt.tickId).Nodup ↔ NumberedApart acts := by
  have hticks : ∀ i j : ℕ, (UInt64.ofNat i=UInt64.ofNat j ↔ i%2^64=j%2^64) := by
    intro i j
    rw [←UInt64.toNat_inj,UInt64.toNat_ofNat',UInt64.toNat_ofNat']
  have htick : ∀ i (pulse : Pulse) receipt, s.pulses[i]?=some pulse → pulse.receipt=some receipt →
      receipt.tickId=UInt64.ofNat (ordinal (startedEngines acts) i) := fun i pulse receipt hi hr =>
    (h.carried i pulse receipt hi hr).trans (h.ticks i pulse hi)
  rw [BeatState.receipts,List.Nodup,List.pairwise_map,List.pairwise_filterMap,
    List.pairwise_iff_getElem]
  constructor
  · intro hall
    -- the first of the two pulses in the order of their starts
    have hordered : ∀ i∈recorders acts, ∀ j∈recorders acts, i < j →
        ordinal (startedEngines acts) i%2^64≠ordinal (startedEngines acts) j%2^64 := by
      intro i hi j hj hlt heq
      have hgi := List.getElem?_eq_getElem (h.started i hi)
      have hgj := List.getElem?_eq_getElem (h.started j hj)
      obtain ⟨a,ha⟩ := (h.recorded i _ hgi).mpr hi
      obtain ⟨b,hb⟩ := (h.recorded j _ hgj).mpr hj
      refine hall i j (h.started i hi) (h.started j hj) hlt a ha b hb ?_
      rw [htick i _ a hgi ha,htick j _ b hgj hb]
      exact (hticks _ _).mpr heq
    intro i hi j hj hne
    rcases Nat.lt_or_gt_of_ne hne with hlt|hlt
    · exact hordered i hi j hj hlt
    · exact (hordered j hj i hi hlt).symm
  · intro hapart i j hi hj hlt a ha b hb heq
    have hgi := List.getElem?_eq_getElem hi
    have hgj := List.getElem?_eq_getElem hj
    refine hapart i ((h.recorded i _ hgi).mp ⟨a,ha⟩) j ((h.recorded j _ hgj).mp ⟨b,hb⟩)
      hlt.ne ((hticks _ _).mp ?_)
    rw [←htick i _ a hgi ha,←htick j _ b hgj hb,heq]

/-- The pulses that record have different numbers in every part of a run when they have in
the whole. -/
theorem Numbered.apart_of_append {before after : List BeatAct} (h : Numbered before s)
    (hapart : NumberedApart (before++after)) : NumberedApart before := by
  have hsame : ∀ i∈recorders before,
      ordinal (startedEngines (before++after)) i=ordinal (startedEngines before) i := by
    intro i hi
    rw [startedEngines,List.filterMap_append]
    exact ordinal_append (h.length ▸ h.started i hi) _
  have hmem : ∀ i∈recorders before, i∈recorders (before++after) := by
    intro i hi
    rw [recorders,List.filterMap_append]
    exact List.mem_append_left _ hi
  intro i hi j hj hne
  rw [←hsame i hi,←hsame j hj]
  exact hapart i (hmem i hi) j (hmem j hj) hne

/-- No receipt is lost along a run exactly when no two pulses that record have the same number
among the pulses of their engines, up to the width of the counter. -/
theorem receipts_kept_iff (r : RecordingRun) :
    (∀ before after t, r.acts=before++after →
        runs recordingStep BeatState.start before=some t → Kept t) ↔ NumberedApart r.acts := by
  constructor
  · intro hall
    have hkept := hall r.acts [] r.state (List.append_nil _).symm r.ran
    exact r.numbered.nodup_iff.mp ((kept_iff_ticks_nodup r).mp hkept)
  · intro hapart before after t hacts ht
    have hnumbered := RecordingRun.numbered ⟨before,t,ht⟩
    rw [hacts] at hapart
    exact (kept_iff_ticks_nodup ⟨before,t,ht⟩).mpr
      (hnumbered.nodup_iff.mpr (hnumbered.apart_of_append hapart))

/-- The pulses of one engine are numbered in the order of their starts. -/
theorem ordinal_replicate {n i : ℕ} (engine : ℕ) (hi : i < n) :
    ordinal (List.replicate n engine) i=i+1 := by
  rw [ordinal,List.getElem?_replicate_of_lt hi,List.take_replicate]
  have hmin : min (i+1) n=i+1 := Nat.min_eq_left hi
  simp [hmin]

/-- One engine loses no receipt before its counter wraps. -/
theorem kept_of_one_engine (r : RecordingRun) {engine : ℕ}
    (hone : ∀ act∈r.acts, ∀ e now, act=.pulse e now → e=engine)
    (hfew : r.state.pulses.length < 2^64) : Kept r.state := by
  have hengines : startedEngines r.acts=List.replicate r.state.pulses.length engine := by
    rw [List.eq_replicate_iff]
    refine ⟨r.numbered.length.symm,fun e he => ?_⟩
    obtain ⟨act,hact,hstarted⟩ := List.mem_filterMap.mp he
    cases act with
    | createTask | move => cases hstarted
    | pulse e' now =>
      cases hstarted
      exact hone _ hact _ now rfl
  refine (receipts_kept_iff r).mpr ?_ r.acts [] r.state (List.append_nil _).symm r.ran
  intro i hi j hj hne heq
  have hi := r.numbered.started i hi
  have hj := r.numbered.started j hj
  rw [hengines,ordinal_replicate engine hi,ordinal_replicate engine hj] at heq
  omega

/-- Two processes run one pulse each against the same database. -/
def twoTicks : List BeatAct :=
  [.pulse 0 "t1",.move 0 (.list true),.move 0 (.record true),.move 0 .finish,
    .pulse 1 "t2",.move 1 (.list true),.move 1 (.record true),.move 1 .finish]

/-- Every record succeeds, and the receipt of the first process is gone. -/
theorem second_process_overwrites : ∃ r : RecordingRun, r.acts=twoTicks ∧
    (∀ pulse∈r.state.pulses, ∃ receipt, pulse.stage=.returned receipt) ∧ ¬Kept r.state := by
  refine ⟨⟨twoTicks,_,rfl⟩,rfl,?_,?_⟩
  · intro pulse hpulse
    rcases List.mem_pair.mp hpulse with rfl|rfl <;> exact ⟨_,rfl⟩
  · intro hkept
    have hlength : 1=2 := hkept.length_eq
    omega

end AegisRuntime.HeartbeatReceipts
