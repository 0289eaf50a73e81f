import AegisRuntime.AgentRecords

/-!
# Root causes

Where `root_cause` leads from a record of a finished task. Parents are linked by the
identifiers of calls, which the model chooses: the walk reaches the first call of the
unbroken stretch of failed calls for every record exactly when the identifiers tell
the calls apart well enough.
-/

namespace AegisRuntime.RootCauses

open FailureRecords AgentLoop AgentOutcomes AgentRecords

variable {calls : List ToolExecutionRecord} {i j k o : ℕ} {f g x : FailureRecord}

/-- The record is one of the call at a position. -/
def Of (calls : List ToolExecutionRecord) (i : ℕ) (f : FailureRecord) : Prop :=
  ∃ c, calls[i]?=some c ∧ f∈callRecords c

/-- The call at a position failed. -/
def FailedAt (calls : List ToolExecutionRecord) (i : ℕ) : Prop :=
  ∃ c, calls[i]?=some c ∧ c.success=false

/-- All calls from a position up to another one failed. -/
def Unbroken (calls : List ToolExecutionRecord) (i j : ℕ) : Prop :=
  ∀ k, i ≤ k → k < j → FailedAt calls k

/-- The first call of the unbroken stretch of failed calls that leads up to a call. -/
structure Origin (calls : List ToolExecutionRecord) (o j : ℕ) : Prop where
  /-- It is not after the call. -/
  le : o ≤ j
  /-- From it on all calls failed. -/
  unbroken : Unbroken calls o j
  /-- The call before it did not fail. -/
  first : ∀ k, o=k+1 → ¬ FailedAt calls k

/-- The calls of a finished task, with their records numbered and linked. -/
structure Linked (calls : List ToolExecutionRecord) : Prop where
  /-- The numbers of the records grow. -/
  ordered : (calls.flatMap callRecords).Pairwise fun f g => f.sequence < g.sequence
  /-- They start from one without gaps. -/
  bounded : ∀ f∈calls.flatMap callRecords, f.sequence ≤ (calls.flatMap callRecords).length
  /-- A record names its call. -/
  call : ∀ c∈calls, ∀ f∈callRecords c, f.toolCallId=c.callId
  /-- The records of a call are numbered by attempt. -/
  attempts : ∀ c∈calls, (callRecords c).map FailureRecord.attempt=
    List.range' 1 (callRecords c).length
  /-- The records of the first call have no parent. -/
  root : ∀ c, calls[0]?=some c → ∀ f∈callRecords c, f.parentCallId=none
  /-- The others name the call before if it failed. -/
  parent : ∀ i b c, calls[i]?=some b → calls[i+1]?=some c → ∀ f∈callRecords c,
    f.parentCallId=failedCall b
  /-- A failed call has a record. -/
  failed : ∀ c∈calls, c.success=false → callRecords c≠[]

/-- The calls of a finished task are linked. -/
theorem linked_of_run (run : AgentRun) : Linked (allCalls run.result) := by
  obtain ⟨hsequences,htells,hparents,-⟩ := provenance_complete run
  have hcall : ∀ c∈allCalls run.result, ∃ step position, TellsAll (attemptsOf run step position c)
      (run.endOf step position c) c := by
    intro c hc
    obtain ⟨step,hstep,hmem⟩ := List.mem_flatMap.mp hc
    obtain ⟨position,hget⟩ := List.mem_iff_getElem?.mp hmem
    exact ⟨step,position,htells step hstep position c hget⟩
  have hsplit : ∀ i c, (allCalls run.result)[i]?=some c →
      allCalls run.result=(allCalls run.result).take i++c::(allCalls run.result).drop (i+1) := by
    intro i c hget
    obtain ⟨hlt,hc⟩ := List.getElem?_eq_some_iff.mp hget
    rw [←hc,←List.drop_eq_getElem_cons hlt,List.take_append_drop]
  refine ⟨?_,?_,?_,?_,?_,?_,?_⟩
  · have hgrow := List.pairwise_lt_range' (s:=1) (n:=(allRecords run.result).length)
    rw [←hsequences,List.pairwise_map] at hgrow
    exact hgrow
  · intro f hf
    have hmem := List.mem_map_of_mem (f:=FailureRecord.sequence) hf
    rw [←allRecords,hsequences,List.mem_range'_1] at hmem
    rw [←allRecords]
    omega
  · intro c hc f hf
    obtain ⟨step,position,h⟩ := hcall c hc
    exact (h.tells f hf).call.1
  · intro c hc
    obtain ⟨step,position,h⟩ := hcall c hc
    exact h.numbered
  · intro c hget f hf
    exact hparents _ c _ (hsplit 0 c hget) f hf
  · intro i b c hb hc f hf
    rw [hparents _ c _ (hsplit (i+1) c hc) f hf,List.getLast?_take,if_neg (Nat.succ_ne_zero i),
      Nat.add_sub_cancel,hb]
    rfl
  · intro c hc hfail hnone
    obtain ⟨step,position,h⟩ := hcall c hc
    have hfailure : c.failure=none := by
      rw [callRecords,List.append_eq_nil_iff] at hnone
      exact Option.toList_eq_nil_iff.mp hnone.2
    rw [h.success.mpr hfailure] at hfail
    cases hfail

theorem Of.mem (h : Of calls i f) : f∈calls.flatMap callRecords := by
  obtain ⟨c,hc,hf⟩ := h
  exact List.mem_flatMap.mpr ⟨c,List.mem_of_getElem? hc,hf⟩

theorem exists_of (h : f∈calls.flatMap callRecords) : ∃ i, Of calls i f := by
  obtain ⟨c,hc,hf⟩ := List.mem_flatMap.mp h
  obtain ⟨i,hi⟩ := List.mem_iff_getElem?.mp hc
  exact ⟨i,c,hi,hf⟩

/-- The records of later calls have larger numbers. -/
theorem Linked.sequence_lt (h : Linked calls) (hf : Of calls i f) (hg : Of calls j g)
    (hlt : i < j) : f.sequence < g.sequence := by
  obtain ⟨c,hc,hf⟩ := hf
  obtain ⟨d,hd,hg⟩ := hg
  obtain ⟨hi,rfl⟩ := List.getElem?_eq_some_iff.mp hc
  obtain ⟨hj,rfl⟩ := List.getElem?_eq_some_iff.mp hd
  have hcalls := (List.pairwise_flatMap.mp h.ordered).2
  exact List.pairwise_iff_getElem.mp hcalls i j hi hj hlt f hf g hg

/-- A record belongs to one call alone. -/
theorem Linked.position_eq (h : Linked calls) (hi : Of calls i f) (hj : Of calls j f) : i=j := by
  rcases Nat.lt_trichotomy i j with hlt|heq|hlt
  · exact absurd (h.sequence_lt hi hj hlt) (Nat.lt_irrefl _)
  · exact heq
  · exact absurd (h.sequence_lt hj hi hlt) (Nat.lt_irrefl _)

/-- A record with a smaller number belongs to a call that is not later. -/
theorem Linked.position_le (h : Linked calls) (hf : Of calls i f) (hg : Of calls j g)
    (hle : f.sequence ≤ g.sequence) : i ≤ j := by
  by_contra hlt
  exact absurd (h.sequence_lt hg hf (Nat.not_le.mp hlt)) (Nat.not_lt.mpr hle)

/-- The first element with a property is in relation to the others that have it. -/
theorem find?_rel {α : Type} {R : α → α → Prop} {xs : List α} {p : α → Bool} {x : α}
    (hordered : xs.Pairwise R) (hfind : xs.find? p=some x) :
    x∈xs ∧ p x=true ∧ ∀ y∈xs, p y=true → y=x ∨ R x y := by
  obtain ⟨hpx,before,after,hsplit,hnone⟩ := List.find?_eq_some_iff_append.mp hfind
  refine ⟨List.mem_of_find?_eq_some hfind,hpx,fun y hy hpy => ?_⟩
  rw [hsplit] at hy hordered
  rcases List.mem_append.mp hy with hy|hy
  · have hny := hnone y hy
    rw [hpy] at hny
    cases hny
  · rcases List.mem_cons.mp hy with rfl|hy
    · exact Or.inl rfl
    · exact Or.inr (List.rel_of_pairwise_cons (List.pairwise_append.mp hordered).2.1 hy)

/-- The first record with a property has the smallest number. -/
theorem Linked.find?_le (h : Linked calls) {p : FailureRecord → Bool}
    (hfind : (calls.flatMap callRecords).find? p=some x) :
    (∃ i, Of calls i x) ∧ p x=true ∧
      ∀ i g, Of calls i g → p g=true → x.sequence ≤ g.sequence := by
  obtain ⟨hx,hpx,hfirst⟩ := find?_rel h.ordered hfind
  refine ⟨exists_of hx,hpx,fun i g hg hpg => ?_⟩
  rcases hfirst g hg.mem hpg with rfl|hlt
  · exact Nat.le_refl _
  · exact Nat.le_of_lt hlt

/-- The last record with a property has the largest number. -/
theorem Linked.findLast?_le (h : Linked calls) {p : FailureRecord → Bool}
    (hfind : (calls.flatMap callRecords).reverse.find? p=some x) :
    (∃ i, Of calls i x) ∧ p x=true ∧
      ∀ i g, Of calls i g → p g=true → g.sequence ≤ x.sequence := by
  obtain ⟨hx,hpx,hlast⟩ := find?_rel (List.pairwise_reverse.mpr h.ordered) hfind
  refine ⟨exists_of (List.mem_reverse.mp hx),hpx,fun i g hg hpg => ?_⟩
  rcases hlast g (List.mem_reverse.mpr hg.mem) hpg with rfl|hlt
  · exact Nat.le_refl _
  · exact Nat.le_of_lt hlt

/-- The identifier of the call at a position. -/
def IdAt (calls : List ToolExecutionRecord) (i : ℕ) (id : String) : Prop :=
  ∃ c, calls[i]?=some c ∧ c.callId=id

/-- Whether the call at a position left records. -/
def Recorded (calls : List ToolExecutionRecord) (i : ℕ) : Prop := ∃ f, Of calls i f

theorem IdAt.eq {id id' : String} (h : IdAt calls i id) (h' : IdAt calls i id') : id=id' := by
  obtain ⟨c,hc,rfl⟩ := h
  obtain ⟨d,hd,rfl⟩ := h'
  rw [hc] at hd
  rw [Option.some.inj hd]

theorem Linked.idAt (h : Linked calls) (hf : Of calls i f) : IdAt calls i f.toolCallId := by
  obtain ⟨c,hc,hf⟩ := hf
  exact ⟨c,hc,(h.call c (List.mem_of_getElem? hc) f hf).symm⟩

theorem recorded_of_ne_nil {c : ToolExecutionRecord} (hc : calls[i]?=some c)
    (hne : callRecords c≠[]) : Recorded calls i := by
  obtain ⟨f,rest,hcons⟩ := List.exists_cons_of_ne_nil hne
  exact ⟨f,c,hc,by rw [hcons]; exact List.mem_cons_self⟩

theorem Linked.recorded (h : Linked calls) (hfail : FailedAt calls i) : Recorded calls i := by
  obtain ⟨c,hc,hfail⟩ := hfail
  exact recorded_of_ne_nil hc (h.failed c (List.mem_of_getElem? hc) hfail)

/-- Where one step of the walk leads from a record of a call. -/
inductive StepCase (calls : List ToolExecutionRecord) (i : ℕ) (f : FailureRecord) : Prop where
  /-- There is no parent. -/
  | stays (orphan : f.parentCallId=none) (first : ∀ k, i=k+1 → ¬ FailedAt calls k)
    (found : parentRecord (calls.flatMap callRecords) f=none)
  /-- To the last record of the last call with the identifier of the failed call
  before. -/
  | goes (k j : ℕ) (p : FailureRecord) (eq : i=k+1) (fails : FailedAt calls k)
    (found : parentRecord (calls.flatMap callRecords) f=some p) (of : Of calls j p) (le : k ≤ j)
    (named : IdAt calls k p.toolCallId) (lastOf : ∀ g, Of calls j g → g.sequence ≤ p.sequence)
    (last : ∀ l, j < l → Recorded calls l → ¬ IdAt calls l p.toolCallId)

theorem Linked.step_cases (h : Linked calls) (hf : Of calls i f) : StepCase calls i f := by
  obtain ⟨c,hc,hmem⟩ := hf
  cases i with
  | zero =>
    have horphan := h.root c hc f hmem
    refine StepCase.stays horphan (fun k hk => absurd hk (Nat.succ_ne_zero k).symm) ?_
    rw [parentRecord,horphan]
    rfl
  | succ k =>
    obtain ⟨b,hb⟩ : ∃ b, calls[k]?=some b := by
      have hlt := (List.getElem?_eq_some_iff.mp hc).1
      exact ⟨_,List.getElem?_eq_getElem (Nat.lt_of_succ_lt hlt)⟩
    have hparent := h.parent k b c hb hc f hmem
    cases hsuccess : b.success with
    | true =>
      rw [failedCall,hsuccess,if_pos rfl] at hparent
      refine StepCase.stays hparent (fun k' hk => ?_) (by rw [parentRecord,hparent]; rfl)
      rw [←Nat.succ.inj hk]
      rintro ⟨b',hb',hfail⟩
      rw [hb,Option.some.injEq] at hb'
      rw [←hb',hsuccess] at hfail
      cases hfail
    | false =>
      rw [failedCall,hsuccess,if_neg Bool.false_ne_true] at hparent
      obtain ⟨g,hg⟩ := h.recorded ⟨b,hb,hsuccess⟩
      have hgid : g.toolCallId=b.callId := (h.idAt hg).eq ⟨b,hb,rfl⟩
      cases hfind : (calls.flatMap callRecords).reverse.find? fun r => r.toolCallId==b.callId with
      | none =>
        have hall := List.find?_eq_none.mp hfind g (List.mem_reverse.mpr hg.mem)
        exact absurd (beq_iff_eq.mpr hgid) hall
      | some p =>
        obtain ⟨⟨j,hj⟩,hp,hlast⟩ := h.findLast?_le hfind
        have hpid : p.toolCallId=b.callId := beq_iff_eq.mp hp
        have hle : ∀ l r, Of calls l r → IdAt calls l b.callId → r.sequence ≤ p.sequence := by
          intro l r hr hid
          exact hlast l r hr (beq_iff_eq.mpr ((h.idAt hr).eq hid))
        refine StepCase.goes k j p rfl ⟨b,hb,hsuccess⟩ ?_ hj ?_ ⟨b,hb,hpid.symm⟩ ?_ ?_
        · rw [parentRecord,hparent]
          exact hfind
        · exact h.position_le hg hj (hle k g hg ⟨b,hb,rfl⟩)
        · exact fun r hr => hle j r hr (hpid ▸ h.idAt hj)
        · rintro l hlt ⟨r,hr⟩ hid
          have hback := h.position_le hr hj (hle l r hr (hpid ▸ hid))
          omega

/-- No later call with records has the identifier of the call at a position. -/
def LastUse (calls : List ToolExecutionRecord) (i : ℕ) : Prop :=
  ∀ id, IdAt calls i id → ∀ l, i < l → Recorded calls l → ¬ IdAt calls l id

/-- A walk that ends at or before the call where it begins has gone from call to
call: none of those it went to is used again, and all of them failed. -/
theorem Linked.walk_back (h : Linked calls) {q s : ℕ} (fuel : ℕ) {f : FailureRecord}
    (hf : Of calls s f)
    (hx : Of calls q (followParents (calls.flatMap callRecords) fuel f)) :
    ∀ t, q ≤ t → t < s → FailedAt calls t ∧ LastUse calls t := by
  induction fuel generalizing s f with
  | zero =>
    intro t hq hs
    have heq := h.position_eq hf hx
    omega
  | succ fuel ih =>
    intro t hq hs
    rw [followParents] at hx
    rcases h.step_cases hf with ⟨-,-,hfound⟩|⟨k,j,p,rfl,hfails,hfound,hj,hle,hnamed,-,hlast⟩
    · rw [hfound] at hx
      have heq := h.position_eq hf hx
      omega
    · rw [hfound] at hx
      simp only [] at hx
      split at hx
      · have hrest := ih hj hx
        have hjk : j=k := by
          by_contra hne
          refine (hrest k (by omega) (by omega)).2 p.toolCallId hnamed j (by omega) ⟨p,hj⟩ ?_
          exact h.idAt hj
        rcases Nat.lt_or_ge t k with hlt|hge
        · exact hrest t hq (by omega)
        · have htk : t=k := by omega
          rw [htk]
          refine ⟨hfails,fun id hid l hl hrec => ?_⟩
          rw [hid.eq hnamed]
          exact hlast l (by omega) hrec
      · have heq := h.position_eq hf hx
        omega

theorem Origin.le_of_unbroken (h : Origin calls o j) (hi : Unbroken calls i j) : o ≤ i := by
  by_contra hlt
  obtain ⟨k,rfl⟩ : ∃ k, o=k+1 := ⟨o-1,by omega⟩
  have hle := h.le
  exact h.first k rfl (hi k (by omega) (by omega))

/-- Every call has an origin. -/
theorem exists_origin (calls : List ToolExecutionRecord) (j : ℕ) : ∃ o, Origin calls o j := by
  induction j with
  | zero =>
    exact ⟨0,Nat.le_refl 0,fun k _ hk => absurd hk (Nat.not_lt_zero k),
      fun k hk => absurd hk (Nat.succ_ne_zero k).symm⟩
  | succ j ih =>
    by_cases hfail : FailedAt calls j
    · obtain ⟨o,ho⟩ := ih
      refine ⟨o,Nat.le_succ_of_le ho.le,fun k hk hlt => ?_,ho.first⟩
      rcases Nat.lt_succ_iff_lt_or_eq.mp hlt with hlt|rfl
      · exact ho.unbroken k hk hlt
      · exact hfail
    · refine ⟨j+1,Nat.le_refl _,fun k hk hlt => by omega,fun k hk => ?_⟩
      rw [←Nat.succ.inj hk]
      exact hfail

/-- Inside the stretch the origin is the same. -/
theorem Origin.restrict (h : Origin calls o j) (ho : o ≤ i) (hij : i ≤ j) : Origin calls o i :=
  ⟨ho,fun k hk hlt => h.unbroken k hk (Nat.lt_of_lt_of_le hlt hij),h.first⟩

theorem Origin.extend (h : Origin calls o i) (hij : i ≤ j) (hi : Unbroken calls i j) :
    Origin calls o j := by
  refine ⟨Nat.le_trans h.le hij,fun k hk hlt => ?_,h.first⟩
  rcases Nat.lt_or_ge k i with hki|hki
  · exact h.unbroken k hk hki
  · exact hi k hki hlt

theorem Origin.eq {o' : ℕ} (h : Origin calls o j) (h' : Origin calls o' j) : o=o' :=
  Nat.le_antisymm (h.le_of_unbroken h'.unbroken) (h'.le_of_unbroken h.unbroken)

/-- `root_cause` finds the original failure of a record: a record without parent, not
later, of the first failed call of the unbroken stretch that leads up to it. -/
def FindsOrigin (calls : List ToolExecutionRecord) (j : ℕ) (r : FailureRecord) : Prop :=
  ∃ x o, rootCause (calls.flatMap callRecords) r=some x ∧ Origin calls o j ∧ Of calls o x ∧
    x.parentCallId=none ∧ x.sequence ≤ r.sequence

/-- How an identifier may be used for two calls with failure records. -/
structure ReusedAlike (calls : List ToolExecutionRecord) (i j : ℕ) (c d : ToolExecutionRecord) :
    Prop where
  /-- All calls from the first of the two up to the second failed. -/
  unbroken : Unbroken calls i j
  /-- The calls with records after the first one in its stretch all have the
  identifier. -/
  same : ∀ k e, i < k → Unbroken calls i k → calls[k]?=some e → callRecords e≠[] →
    e.callId=c.callId
  /-- When the first of the two is the first call with the identifier, the second
  has not failed more often. -/
  fewer : (∀ l e, l < i → calls[l]?=some e → callRecords e≠[] → e.callId≠c.callId) →
    (callRecords d).length ≤ (callRecords c).length

/-- The identifiers of calls with failure records are used again only where it does
not mislead. -/
def IdsTellApart (calls : List ToolExecutionRecord) : Prop :=
  ∀ i j c d, i < j → calls[i]?=some c → calls[j]?=some d → callRecords c≠[] →
    callRecords d≠[] → c.callId=d.callId → ReusedAlike calls i j c d

theorem Linked.exists_attempt (h : Linked calls) {c : ToolExecutionRecord}
    (hc : calls[i]?=some c) {a : ℕ} (hpos : 1 ≤ a) (hle : a ≤ (callRecords c).length) :
    ∃ f, Of calls i f ∧ f.attempt=a := by
  have hmem : a∈(callRecords c).map FailureRecord.attempt := by
    rw [h.attempts c (List.mem_of_getElem? hc),List.mem_range'_1]
    omega
  obtain ⟨f,hf,hattempt⟩ := List.mem_map.mp hmem
  exact ⟨f,⟨c,hc,hf⟩,hattempt⟩

theorem Linked.attempt_le (h : Linked calls) {c : ToolExecutionRecord} (hc : calls[i]?=some c)
    (hf : f∈callRecords c) : 1 ≤ f.attempt ∧ f.attempt ≤ (callRecords c).length := by
  have hmem := List.mem_map_of_mem (f:=FailureRecord.attempt) hf
  rw [h.attempts c (List.mem_of_getElem? hc),List.mem_range'_1] at hmem
  omega

/-- The walk of `root_cause` begins at the first call with the identifier that has
made as many attempts. -/
theorem Linked.rootCause_begins (h : Linked calls) {r : FailureRecord} (hr : Of calls j r) :
    ∃ m g, Of calls m g ∧ g.toolCallId=r.toolCallId ∧ g.attempt=r.attempt ∧
      g.sequence ≤ r.sequence ∧ m ≤ j ∧
      (∀ l f, Of calls l f → f.toolCallId=r.toolCallId → f.attempt=r.attempt → m ≤ l) ∧
      rootCause (calls.flatMap callRecords) r=some (followParents (calls.flatMap callRecords)
        ((calls.flatMap callRecords).length+1) g) := by
  cases hfind : (calls.flatMap callRecords).find? fun f =>
      f.toolCallId==r.toolCallId && f.attempt==r.attempt with
  | none =>
    have hall := List.find?_eq_none.mp hfind r hr.mem
    simp at hall
  | some g =>
    obtain ⟨⟨m,hm⟩,hg,hfirst⟩ := h.find?_le hfind
    rw [Bool.and_eq_true,beq_iff_eq,beq_iff_eq] at hg
    have hle : ∀ l f, Of calls l f → f.toolCallId=r.toolCallId → f.attempt=r.attempt →
        g.sequence ≤ f.sequence := by
      intro l f hf hid hattempt
      exact hfirst l f hf (by rw [hid,hattempt]; simp)
    have hgr := hle j r hr rfl rfl
    refine ⟨m,g,hm,hg.1,hg.2,hgr,h.position_le hm hr hgr,fun l f hf hid hattempt => ?_,?_⟩
    · exact h.position_le hm hf (hle l f hf hid hattempt)
    · rw [rootCause,hfind]
      rfl

/-- Where the origin is found, no call on the way there is used again. -/
theorem Linked.way_back (h : Linked calls) {r : FailureRecord} (hr : Of calls j r)
    (hfinds : FindsOrigin calls j r) : ∃ m g o, Of calls m g ∧ g.toolCallId=r.toolCallId ∧
      g.attempt=r.attempt ∧ m ≤ j ∧ Origin calls o j ∧
      (∀ l f, Of calls l f → f.toolCallId=r.toolCallId → f.attempt=r.attempt → m ≤ l) ∧
      ∀ t, o ≤ t → t < m → LastUse calls t := by
  obtain ⟨m,g,hm,hid,hattempt,-,hmj,hfirst,hroot⟩ := h.rootCause_begins hr
  obtain ⟨x,o,hx,ho,hox,-,-⟩ := hfinds
  rw [hroot,Option.some.injEq] at hx
  rw [←hx] at hox
  exact ⟨m,g,o,hm,hid,hattempt,hmj,ho,hfirst,fun t hot htm => (h.walk_back _ hm hox t hot htm).2⟩

section Necessity

variable (h : Linked calls) (hall : ∀ j r, Of calls j r → FindsOrigin calls j r)

include h hall

/-- An identifier is used again only in the same stretch. -/
theorem unbroken_of_finds {id : String} (hi : Recorded calls i) (hj : Recorded calls j)
    (hidi : IdAt calls i id) (hidj : IdAt calls j id) : Unbroken calls i j := by
  obtain ⟨f,c,hc,hfc⟩ := hi
  obtain ⟨g,d,hd,hfd⟩ := hj
  obtain ⟨r,hr,hra⟩ := h.exists_attempt hc (Nat.le_refl 1) (List.length_pos_of_mem hfc)
  obtain ⟨s,hs,hsa⟩ := h.exists_attempt hd (Nat.le_refl 1) (List.length_pos_of_mem hfd)
  have hid : r.toolCallId=s.toolCallId :=
    ((h.idAt hr).eq hidi).trans ((h.idAt hs).eq hidj).symm
  have hsame : rootCause (calls.flatMap callRecords) r=
      rootCause (calls.flatMap callRecords) s := by
    rw [rootCause,rootCause,hid,hra,hsa]
  obtain ⟨x,o,hx,ho,hox,-,-⟩ := hall i r hr
  obtain ⟨y,o',hy,ho',hoy,-,-⟩ := hall j s hs
  rw [hsame,hy,Option.some.injEq] at hx
  rw [hx] at hoy
  have heq := h.position_eq hox hoy
  intro k hk hlt
  have hle := ho.le
  exact ho'.unbroken k (by omega) hlt

/-- The first call with an identifier, and the calls on the way back from it. -/
theorem first_use (hj : Recorded calls j) {id : String} (hid : IdAt calls j id) :
    ∃ m, m ≤ j ∧ Recorded calls m ∧ IdAt calls m id ∧ ∀ t, (∀ o, Origin calls o j → o ≤ t) →
      t < m → LastUse calls t := by
  obtain ⟨f,c,hc,hfc⟩ := hj
  obtain ⟨r,hr,-⟩ := h.exists_attempt hc (Nat.le_refl 1) (List.length_pos_of_mem hfc)
  obtain ⟨m,g,o,hm,hgid,-,hmj,ho,-,hback⟩ := h.way_back hr (hall j r hr)
  refine ⟨m,hmj,⟨g,hm⟩,?_,fun t ht htm => hback t (ht o ho) htm⟩
  rw [←(h.idAt hr).eq hid,←hgid]
  exact h.idAt hm

/-- After a call that is used again, the stretch has its identifier alone. -/
theorem same_of_finds {id : String} (hij : i < j) (hi : Recorded calls i)
    (hj : Recorded calls j) (hidi : IdAt calls i id) (hidj : IdAt calls j id) (hik : i < k)
    (hstretch : Unbroken calls i k) (hk : Recorded calls k) : IdAt calls k id := by
  obtain ⟨f,hf⟩ := hk
  have hidk := h.idAt hf
  generalize f.toolCallId=idk at hidk
  by_cases hsame : idk=id
  · exact hsame ▸ hidk
  have hdiffer : ∀ l, IdAt calls l idk → ¬ IdAt calls l id := fun l hl hl' => hsame (hl.eq hl')
  obtain ⟨o,ho⟩ := exists_origin calls i
  have hok := ho.extend (Nat.le_of_lt hik) hstretch
  have hfrom : ∀ {l t}, Origin calls o l → o ≤ t → ∀ o', Origin calls o' l → o' ≤ t :=
    fun hl hot o' ho' => (ho'.eq hl).trans_le hot
  obtain ⟨mk,hmk,hmkrec,hmkid,hbackk⟩ := first_use h hall ⟨f,hf⟩ hidk
  obtain ⟨mi,hmi,hmirec,hmiid,hbacki⟩ := first_use h hall hi hidi
  -- the first call with the identifier of `k` is before `i`
  have hmki : mk < i := by
    rcases Nat.lt_trichotomy mk i with hlt|rfl|hlt
    · exact hlt
    · exact absurd hidi (hdiffer mk hmkid)
    · exact absurd hidj (hbackk i (hfrom hok ho.le) hlt id hidi j hij hj)
  have homk : o ≤ mk := hok.le_of_unbroken
    (unbroken_of_finds h hall hmkrec ⟨f,hf⟩ hmkid hidk)
  -- the first one with the identifier of `i` is even before that
  have hmimk : mi < mk := by
    rcases Nat.lt_trichotomy mi mk with hlt|rfl|hlt
    · exact hlt
    · exact absurd hmiid (hdiffer mi hmkid)
    · exact absurd hidk (hbacki mk (hfrom ho homk) hlt idk hmkid k (by omega) ⟨f,hf⟩)
  have homi : o ≤ mi := ho.le_of_unbroken (unbroken_of_finds h hall hmirec hi hmiid hidi)
  exact absurd hidj (hbackk mi (hfrom hok homi) hmimk id hmiid j (by omega) hj)

/-- No later call with the identifier of a first call has failed more often. -/
theorem fewer_of_finds {c d : ToolExecutionRecord} (hc : calls[i]?=some c)
    (hd : calls[j]?=some d) (hci : callRecords c≠[]) (hdj : callRecords d≠[])
    (hid : c.callId=d.callId)
    (hfirst : ∀ l e, l < i → calls[l]?=some e → callRecords e≠[] → e.callId≠c.callId) :
    (callRecords d).length ≤ (callRecords c).length := by
  by_contra hmore
  obtain ⟨r,hr,hattempt⟩ := h.exists_attempt hd (Nat.le_add_left 1 (callRecords c).length)
    (by omega)
  have hrid : r.toolCallId=c.callId := ((h.idAt hr).eq ⟨d,hd,rfl⟩).trans hid.symm
  obtain ⟨m,g,o,hm,hgid,hga,hmj,ho,-,hback⟩ := h.way_back hr (hall j r hr)
  have hmid : IdAt calls m c.callId := by
    rw [←hrid,←hgid]
    exact h.idAt hm
  have him : i < m := by
    obtain ⟨e,he,hge⟩ := hm
    rcases Nat.lt_trichotomy i m with hlt|rfl|hlt
    · exact hlt
    · rw [hc,Option.some.injEq] at he
      have hle := (h.attempt_le hc (he ▸ hge)).2
      omega
    · refine absurd ?_ (hfirst m e hlt he (List.ne_nil_of_mem hge))
      exact IdAt.eq ⟨e,he,rfl⟩ hmid
  have hoi : o ≤ i := ho.le_of_unbroken (unbroken_of_finds h hall (recorded_of_ne_nil hc hci)
    (recorded_of_ne_nil hd hdj) ⟨c,hc,rfl⟩ ⟨d,hd,hid.symm⟩)
  exact hback i hoi him c.callId ⟨c,hc,rfl⟩ m him ⟨g,hm⟩ hmid

end Necessity

/-- Where the origin of every record is found, the identifiers tell the calls apart. -/
theorem Linked.idsTellApart (h : Linked calls)
    (hall : ∀ j r, Of calls j r → FindsOrigin calls j r) : IdsTellApart calls := by
  intro i j c d hij hc hd hci hdj hid
  have hi := recorded_of_ne_nil hc hci
  have hj := recorded_of_ne_nil hd hdj
  have hidi : IdAt calls i c.callId := ⟨c,hc,rfl⟩
  have hidj : IdAt calls j c.callId := ⟨d,hd,hid.symm⟩
  refine ⟨unbroken_of_finds h hall hi hj hidi hidj,?_,fewer_of_finds h hall hc hd hci hdj hid⟩
  intro k e hik hstretch he hek
  have hidk := same_of_finds h hall hij hi hj hidi hidj hik hstretch (recorded_of_ne_nil he hek)
  exact IdAt.eq ⟨e,he,rfl⟩ hidk

section Sufficiency

variable (h : Linked calls) (hids : IdsTellApart calls)

include hids

/-- Two calls with records and one identifier use it alike. -/
theorem reused_of_idAt {id : String} (hij : i < j) (hi : Recorded calls i) (hj : Recorded calls j)
    (hidi : IdAt calls i id) (hidj : IdAt calls j id) :
    Unbroken calls i j ∧ ∀ k, i < k → Unbroken calls i k → Recorded calls k → IdAt calls k id := by
  obtain ⟨f,c,hc,hf⟩ := hi
  obtain ⟨g,d,hd,hg⟩ := hj
  have hcid : c.callId=id := IdAt.eq ⟨c,hc,rfl⟩ hidi
  have hdid : d.callId=id := IdAt.eq ⟨d,hd,rfl⟩ hidj
  have halike := hids i j c d hij hc hd (List.ne_nil_of_mem hf) (List.ne_nil_of_mem hg)
    (hcid.trans hdid.symm)
  refine ⟨halike.unbroken,fun k hik hstretch hk => ?_⟩
  obtain ⟨f',e,he,hfe⟩ := hk
  exact ⟨e,he,(halike.same k e hik hstretch he (List.ne_nil_of_mem hfe)).trans hcid⟩

include h

/-- From a call with another identifier than the call before it, the walk goes back
call by call to the origin. -/
theorem walk_to_origin (fuel : ℕ) {s : ℕ} (hf : Of calls s f) (ho : Origin calls o s)
    (hfresh : ∀ k id, s=k+1 → o ≤ k → IdAt calls k id → ¬ IdAt calls s id)
    (hfuel : f.sequence < fuel) :
    Of calls o (followParents (calls.flatMap callRecords) fuel f) ∧
      (followParents (calls.flatMap callRecords) fuel f).parentCallId=none ∧
      (followParents (calls.flatMap callRecords) fuel f).sequence ≤ f.sequence := by
  induction fuel generalizing s f with
  | zero => exact absurd hfuel (Nat.not_lt_zero _)
  | succ fuel ih =>
    rw [followParents]
    have hle := ho.le
    rcases h.step_cases hf with
      ⟨horphan,hfirst,hfound⟩|⟨k,j,p,rfl,hfails,hfound,hj,hkj,hnamed,-,-⟩
    · rw [hfound]
      have hos : o=s := by
        by_contra hne
        obtain ⟨k,rfl⟩ : ∃ k, s=k+1 := ⟨s-1,by omega⟩
        exact hfirst k rfl (ho.unbroken k (by omega) (Nat.lt_succ_self k))
      rw [hos]
      exact ⟨hf,horphan,Nat.le_refl _⟩
    · have hok : o ≤ k := by
        by_contra hlt
        exact ho.first k (by omega) hfails
      have hnext : Unbroken calls k (k+1) := fun l hl hlt => by
        have hlk : l=k := by omega
        rw [hlk]
        exact hfails
      have hjk : j=k := by
        by_contra hne
        have halike := (reused_of_idAt hids (by omega) (h.recorded hfails) ⟨p,hj⟩ hnamed
          (h.idAt hj)).2
        exact hfresh k p.toolCallId rfl hok hnamed
          (halike (k+1) (Nat.lt_succ_self k) hnext ⟨f,hf⟩)
      rw [hjk] at hj
      have hlt := h.sequence_lt hj hf (Nat.lt_succ_self k)
      rw [hfound]
      simp only []
      rw [if_pos (Nat.ne_of_lt hlt)]
      obtain ⟨hof,horphan,hsequence⟩ := ih hj (ho.restrict hok (Nat.le_succ k)) (by
        rintro l id rfl hol hidl hidk
        have hfailsl := ho.unbroken l hol (by omega)
        have halike := (reused_of_idAt hids (Nat.lt_succ_self l) (h.recorded hfailsl) ⟨p,hj⟩
          hidl hidk).2
        refine hfresh (l+1) id rfl hok hidk (halike (l+1+1) (by omega) (fun x hx hlt => ?_) ⟨f,hf⟩)
        exact ho.unbroken x (by omega) hlt) (by omega)
      exact ⟨hof,horphan,hsequence.trans hlt.le⟩

/-- The call where `root_cause` begins is the first one with the identifier. -/
theorem begins_at_first {r : FailureRecord} (hr : Of calls j r) {m : ℕ}
    (hbegin : ∀ l f, Of calls l f → f.toolCallId=r.toolCallId → f.attempt=r.attempt → m ≤ l) :
    ∀ l f, Of calls l f → f.toolCallId=r.toolCallId → m ≤ l := by
  intro l f hf hfid
  cases hfind : (calls.flatMap callRecords).find? fun f => f.toolCallId==r.toolCallId with
  | none =>
    have hall := List.find?_eq_none.mp hfind f hf.mem
    exact absurd (beq_iff_eq.mpr hfid) hall
  | some x =>
    obtain ⟨⟨q,hq⟩,hx,hfirst⟩ := h.find?_le hfind
    have hxid := beq_iff_eq.mp hx
    have hqfirst : ∀ l f, Of calls l f → f.toolCallId=r.toolCallId → q ≤ l := fun l f hf hid =>
      h.position_le hq hf (hfirst l f hf (beq_iff_eq.mpr hid))
    refine Nat.le_trans ?_ (hqfirst l f hf hfid)
    rcases Nat.eq_or_lt_of_le (hqfirst j r hr rfl) with rfl|hqj
    · exact hbegin q r hr rfl rfl
    · obtain ⟨c,hc,hxc⟩ := hq
      obtain ⟨d,hd,hrd⟩ := hr
      have hcid : c.callId=r.toolCallId := IdAt.eq ⟨c,hc,rfl⟩ (hxid ▸ h.idAt ⟨c,hc,hxc⟩)
      have hdid : d.callId=r.toolCallId := IdAt.eq ⟨d,hd,rfl⟩ (h.idAt ⟨d,hd,hrd⟩)
      have halike := hids q j c d hqj hc hd (List.ne_nil_of_mem hxc) (List.ne_nil_of_mem hrd)
        (hcid.trans hdid.symm)
      have hfewer := halike.fewer fun l e hl he hne heq => by
        obtain ⟨f,hf⟩ := recorded_of_ne_nil he hne
        have hback := hqfirst l f hf ((h.idAt hf).eq ⟨e,he,heq.trans hcid⟩)
        omega
      obtain ⟨hpos,hle⟩ := h.attempt_le hd hrd
      obtain ⟨y,hy,hattempt⟩ := h.exists_attempt hc hpos (hle.trans hfewer)
      exact hbegin q y hy ((h.idAt hy).eq ⟨c,hc,hcid⟩) hattempt

/-- Where the identifiers tell the calls apart, the origin of every record is found. -/
theorem finds_of_idsTellApart {r : FailureRecord} (hr : Of calls j r) : FindsOrigin calls j r := by
  obtain ⟨m,g,hm,hgid,-,hgr,hmj,hbegin,hroot⟩ := h.rootCause_begins hr
  have hfirst := begins_at_first h hids hr hbegin
  obtain ⟨o,ho⟩ := exists_origin calls j
  have hmid : IdAt calls m r.toolCallId := hgid ▸ h.idAt hm
  have hstretch : Unbroken calls m j := by
    rcases Nat.eq_or_lt_of_le hmj with rfl|hlt
    · exact fun k hk hlt => by omega
    · exact (reused_of_idAt hids hlt ⟨g,hm⟩ ⟨r,hr⟩ hmid (h.idAt hr)).1
  have hom := ho.le_of_unbroken hstretch
  have hfresh : ∀ k id, m=k+1 → o ≤ k → IdAt calls k id → ¬ IdAt calls m id := by
    intro k id hmk hok hidk hidm
    obtain ⟨f,hf⟩ := h.recorded (ho.unbroken k hok (by omega))
    have hfid : f.toolCallId=r.toolCallId := ((h.idAt hf).eq hidk).trans (hidm.eq hmid)
    have hback := hfirst k f hf hfid
    omega
  have hfuel : g.sequence < (calls.flatMap callRecords).length+1 :=
    Nat.lt_succ_of_le (h.bounded g hm.mem)
  obtain ⟨hx,horphan,hsequence⟩ := walk_to_origin h hids _ hm (ho.restrict hom hmj) hfresh hfuel
  exact ⟨_,o,hroot,ho,hx,horphan,hsequence.trans hgr⟩

end Sufficiency

/-- In every finished task, `root_cause` finds the original failure of every record
exactly when the identifiers of the calls tell them apart. -/
theorem root_cause_finds_origin_iff (run : AgentRun) :
    (∀ j r, Of (allCalls run.result) j r → FindsOrigin (allCalls run.result) j r) ↔
      IdsTellApart (allCalls run.result) := by
  have hlinked := linked_of_run run
  exact ⟨hlinked.idsTellApart,fun hids j r hr => finds_of_idsTellApart hlinked hids hr⟩

/-- A model that asks for a write and a read and then, under the first identifier
again, for another write; writes fail. -/
def writesAgain : AgentEnv where
  parseJson := fun _ => some (.object [])
  sha256Hex := fun _ => ""
  infer := fun turn _ => .ok ⟨none,none,some (if turn=1 then
    [⟨"a","write_file",""⟩,⟨"b","read_file",""⟩] else [⟨"a","write_file",""⟩])⟩
  attempt := fun _ _ _ name _ => ⟨0,0,false,false,false,
    if name="write_file" then .error ⟨.failed,.uncertain,"denied"⟩ else .ok "text"⟩
  home := none
  user := none
  freshRunId := "run"
  durationMs := 0

/-- Two turns of it. -/
def repeatedCall : AgentRun where
  env := writesAgain
  engine := {}
  goal := "goal"
  systemOverride := some "system"
  maxTurns := 2
  result := _
  ran := rfl

/-- The walk from the record of a repeated call leads to the other call, behind a
call that succeeded. -/
theorem repeated_call_misleads : ¬ ∀ (run : AgentRun) (j : ℕ) (r : FailureRecord),
    Of (allCalls run.result) j r → FindsOrigin (allCalls run.result) j r := by
  intro hall
  have hsuccess : (allCalls repeatedCall.result)[1]?.map ToolExecutionRecord.success=some true := rfl
  have hthird : (allCalls repeatedCall.result)[2]?.map (fun c => (callRecords c).map
      FailureRecord.sequence)=some [2] := rfl
  have hroot : ∀ c, (allCalls repeatedCall.result)[2]?=some c → ∀ r∈callRecords c,
      (rootCause (allRecords repeatedCall.result) r).map FailureRecord.sequence=some 1 := by
    rintro c ⟨⟩ r hr
    rw [List.mem_singleton.mp hr]
    decide
  obtain ⟨c,hc,hsequences⟩ := Option.map_eq_some_iff.mp hthird
  obtain ⟨r,rest,hcons⟩ : ∃ r rest, callRecords c=r::rest := by
    cases hrecords : callRecords c with
    | nil => rw [hrecords] at hsequences; cases hsequences
    | cons r rest => exact ⟨r,rest,rfl⟩
  have hr : r∈callRecords c := by
    rw [hcons]
    exact List.mem_cons_self
  obtain ⟨x,o,hx,ho,hox,-,-⟩ := hall repeatedCall 2 r ⟨c,hc,hr⟩
  have hfirst := hroot c hc r hr
  rw [allRecords,hx,Option.map_some,Option.some.injEq] at hfirst
  have ho2 : o=2 := by
    by_contra hne
    obtain ⟨d,hd,hfail⟩ := ho.unbroken 1 (by have hle := ho.le; omega) (by omega)
    rw [hd,Option.map_some,hfail] at hsuccess
    cases hsuccess
  rw [ho2] at hox
  obtain ⟨d,hd,hxd⟩ := hox
  rw [hc,Option.some.injEq] at hd
  have hmem := List.mem_map_of_mem (f:=FailureRecord.sequence) (hd.symm ▸ hxd)
  rw [hsequences,hfirst] at hmem
  exact absurd hmem (by decide)

end AegisRuntime.RootCauses
