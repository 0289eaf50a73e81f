import AegisRuntime.WorkflowGraph

/-!
# Which graphs the builder accepts

`build` accepts exactly the acyclic graphs whose predecessors are tasks, and the
cycle it reports otherwise is one. The loops of `build` and `find_cycle` are also
written with every fallback and every bound turned into a failure: no in-degree
is lowered below zero, the queue runs dry, and the walk finds a blocked
predecessor at every step until it returns to itself.
-/

namespace AegisRuntime.WorkflowAcceptance

open PrecedenceGraphs WorkflowGraph

/-- The arguments of one call of `add_task`. -/
structure TaskCall where
  /-- Name of the task. -/
  id : TaskId
  /-- Declared predecessors. -/
  deps : List String
  /-- The body. -/
  runner : TaskRunner

/-- The task a call declares. -/
def TaskCall.node (call : TaskCall) : TaskNode := ⟨call.id,call.deps.map TaskId.mk,call.runner⟩

/-- Calls of `add_task` in order, until one fails. -/
def addTasks (b : WorkflowBuilder) (calls : List TaskCall) : Except WorkflowError WorkflowBuilder :=
  calls.foldlM (fun b call => b.addTask call.id call.deps call.runner) b

/-- One task is a declared predecessor of another. -/
def Precedes (tasks : List TaskNode) (d t : TaskId) : Prop := ∃ n∈tasks, n.id=t ∧ d∈n.deps

/-- Every declared predecessor is a task. -/
def AllKnown (tasks : List TaskNode) : Prop := ∀ t∈tasks, ∀ d∈t.deps, d∈tasks.map TaskNode.id

/-- A declared predecessor that is not a task. -/
def MissingEdge (tasks : List TaskNode) (task predecessor : TaskId) : Prop :=
  Precedes tasks predecessor task ∧ predecessor∉tasks.map TaskNode.id

/-- The body of the inner `for` loop; a decrement below zero fails. -/
def relaxTaskStrict (peeledId : TaskId) (s : (ℕ → ℕ)×List ℕ) (entry : TaskNode×ℕ) :
    Option ((ℕ → ℕ)×List ℕ) :=
  if peeledId∈entry.1.deps ∧ s.1 entry.2=0 then none else some (relaxTask peeledId s entry)

/-- The inner `for` loop; a decrement below zero fails. -/
def relaxStrict (tasks : List TaskNode) (peeledId : TaskId) (s : (ℕ → ℕ)×List ℕ) :
    Option ((ℕ → ℕ)×List ℕ) :=
  tasks.zipIdx.foldlM (relaxTaskStrict peeledId) s

/-- The `while let` loop; it fails where a decrement does, where a position is
not one of a task, and where it is still going on after the given rounds. -/
def peelLoopStrict (tasks : List TaskNode) : ℕ → PeelState → Option PeelState
  | 0,s => if s.queue=[] then some s else none
  | fuel+1,s =>
    match s.queue with
    | [] => some s
    | n::queue =>
      match tasks[n]? with
      | none => none
      | some node =>
        match relaxStrict tasks node.id (s.indegree,queue) with
        | none => none
        | some next => peelLoopStrict tasks fuel ⟨next.1,next.2,s.peeled+1⟩

/-- The first predecessor still blocked. -/
def blockedPredecessorStrict (tasks : List TaskNode) (indegree : ℕ → ℕ) (cur : ℕ) : Option ℕ :=
  (((tasks[cur]?.map TaskNode.deps).getD []).map (indexOf tasks)).find? fun i => 0 < indegree i

/-- The walk of `find_cycle`; it fails where no predecessor is blocked, and where
it is still going on after the given steps. -/
def walkCycleStrict (tasks : List TaskNode) (indegree : ℕ → ℕ) :
    ℕ → List ℕ → ℕ → Option (List TaskId)
  | 0,_,_ => none
  | fuel+1,path,cur =>
    match blockedPredecessorStrict tasks indegree cur with
    | none => none
    | some next =>
      if next∈path then
        some ((path.drop (path.idxOf next)).filterMap fun i => tasks[i]?.map TaskNode.id).reverse
      else walkCycleStrict tasks indegree fuel (path++[next]) next

/-- `find_cycle` without its fallbacks. -/
def findCycleStrict (tasks : List TaskNode) (indegree : ℕ → ℕ) : Option (List TaskId) :=
  match (List.range tasks.length).find? fun i => 0 < indegree i with
  | none => none
  | some start => walkCycleStrict tasks indegree tasks.length [start] start

variable {tasks : List TaskNode} {order : List ℕ} {s : PeelState}

/-- A task that was added is the declared one, at the end. -/
theorem addTask_ok {b b' : WorkflowBuilder} {call : TaskCall}
    (h : b.addTask call.id call.deps call.runner=.ok b') : b'.tasks=b.tasks++[call.node] := by
  unfold WorkflowBuilder.addTask at h
  split at h
  · cases h
  split at h
  · cases h
  split at h
  · cases h
  · next depsOut hdeps =>
    cases h
    change b.tasks++[⟨call.id,depsOut,call.runner⟩]=b.tasks++[call.node]
    rw [TaskCall.node,(collectDeps_ok hdeps).1]

/-- Calls that all succeed collect the declared tasks in order. -/
theorem addTasks_ok {calls : List TaskCall} {b b' : WorkflowBuilder}
    (h : addTasks b calls=.ok b') : b'.tasks=b.tasks++calls.map TaskCall.node := by
  induction calls generalizing b with
  | nil =>
    cases h
    exact (List.append_nil _).symm
  | cons call calls ih =>
    rw [addTasks,List.foldlM_cons] at h
    cases hadd : b.addTask call.id call.deps call.runner with
    | error e =>
      rw [hadd] at h
      cases h
    | ok mid =>
      rw [hadd] at h
      rw [ih h,addTask_ok hadd,List.append_assoc]
      rfl

/-- Where every touched in-degree is positive, no decrement fails. -/
theorem relaxStrict_eq (tasks : List TaskNode) (p : TaskId) (indegree : ℕ → ℕ) (queue : List ℕ)
    (hpos : ∀ i, touches tasks p i=true → 0 < indegree i) :
    relaxStrict tasks p (indegree,queue)=some (relax tasks p (indegree,queue)) := by
  induction tasks using List.reverseRecOn with
  | nil => rfl
  | append_singleton tasks t ih =>
    have hbefore : ∀ i, touches tasks p i=true → 0 < indegree i := by
      intro i hi
      obtain ⟨u,hu,hp⟩ := touches_eq_true_iff.mp hi
      have hlt := (List.getElem?_eq_some_iff.mp hu).1
      exact hpos i (touches_eq_true_iff.mpr ⟨u,by rw [List.getElem?_append_left hlt,hu],hp⟩)
    have hsplit : (tasks++[t]).zipIdx=tasks.zipIdx++[(t,tasks.length)] := by
      simp [List.zipIdx_append]
    -- the in-degree of the last task has not been touched yet
    have hlast : (relax tasks p (indegree,queue)).1 tasks.length=indegree tasks.length := by
      rw [(relax_spec tasks p indegree queue).1,if_neg (by simp [touches])]
    have hok : ¬(p∈t.deps ∧ (relax tasks p (indegree,queue)).1 tasks.length=0) := by
      rintro ⟨hp,hzero⟩
      have hlt := hpos tasks.length (touches_eq_true_iff.mpr ⟨t,by simp,hp⟩)
      omega
    have hrest := ih hbefore
    rw [relaxStrict] at hrest
    rw [relaxStrict,relax,hsplit,List.foldlM_append,hrest,List.foldl_append]
    simp only [List.foldlM_cons,List.foldlM_nil,List.foldl_cons,List.foldl_nil,relaxTaskStrict]
    change (some (relax tasks p (indegree,queue))).bind _=_
    rw [Option.bind_some,if_neg hok]
    rfl

/-- The loop of `build` never underflows and ends with an empty queue. -/
theorem peelLoopStrict_eq (hw : WellNamed tasks) (fuel : ℕ) (h : PeelInv tasks order s)
    (hfuel : tasks.length ≤ order.length+fuel) :
    peelLoopStrict tasks fuel s=some (peelLoop tasks fuel s) := by
  induction fuel generalizing order s with
  | zero =>
    have hle := h.length_le
    rw [List.length_append] at hle
    have hempty : s.queue=[] := List.length_eq_zero_iff.mp (by omega)
    rw [peelLoopStrict,peelLoop,if_pos hempty]
  | succ fuel ih =>
    rw [peelLoopStrict,peelLoop]
    cases hq : s.queue with
    | nil => rfl
    | cons n queue =>
      have hlt := h.bounded n (by rw [hq]; simp)
      have hget : tasks[n]?=some tasks[n] := List.getElem?_eq_getElem hlt
      have hfresh := h.fresh hw hq hget
      have hrelax := relaxStrict_eq tasks tasks[n].id s.indegree queue
        (fun i hi => h.touched_pos hfresh hi)
      have hlength : tasks.length ≤ (order++[n]).length+fuel := by
        rw [List.length_append,List.length_singleton]
        omega
      simp only [hget,hrelax]
      exact ih (h.step hw hq hget) hlength

/-- An order in which every task comes after its predecessors excludes cycles. -/
theorem not_cyclic_of_ordered (h : Ordered tasks) : ¬Cyclic (Precedes tasks) := by
  obtain ⟨order,hall,hclosed⟩ := h
  refine not_cyclic_of_rank order.idxOf ?_
  rintro d t ⟨n,hn,rfl,hd⟩
  obtain ⟨before,after,horder,hfirst⟩ := List.eq_append_cons_of_mem (hall n hn)
  have hbefore := hclosed n hn before after horder d hd
  rw [horder,List.idxOf_append_of_mem hbefore,List.idxOf_append_of_notMem hfirst,List.idxOf_cons_self]
  exact List.idxOf_lt_length_of_mem hbefore

/-- The position looked up for a name is one of a task of that name. -/
theorem getElem?_indexOf {d : TaskId} (h : d∈tasks.map TaskNode.id) :
    ∃ t, tasks[indexOf tasks d]?=some t ∧ t.id=d := by
  obtain ⟨t,ht,hid⟩ := List.mem_map.mp h
  have hlt : indexOf tasks d < tasks.length :=
    List.findIdx_lt_length_of_exists ⟨t,ht,decide_eq_true hid⟩
  refine ⟨_,List.getElem?_eq_getElem hlt,?_⟩
  have hfound := List.findIdx_getElem (w:=hlt)
  exact of_decide_eq_true hfound

/-- The task at one position is a declared predecessor of the one at another. -/
def PrecedesAt (tasks : List TaskNode) (i j : ℕ) : Prop :=
  ∃ u t, tasks[i]?=some u ∧ tasks[j]?=some t ∧ u.id∈t.deps

/-- A position whose predecessors were not all peeled. -/
def Blocked (tasks : List TaskNode) (indegree : ℕ → ℕ) (i : ℕ) : Prop :=
  i < tasks.length ∧ 0 < indegree i

/-- At the exit of the loop of `build` every blocked position has a blocked
predecessor, and the search of `find_cycle` finds one. -/
theorem exists_blocked_predecessor (h : PeelInv tasks order s) (hempty : s.queue=[])
    (hknown : AllKnown tasks) {cur : ℕ} (hcur : Blocked tasks s.indegree cur) :
    ∃ next, blockedPredecessorStrict tasks s.indegree cur=some next ∧
      Blocked tasks s.indegree next ∧ PrecedesAt tasks next cur := by
  obtain ⟨hlt,hpos⟩ := hcur
  have hget : tasks[cur]?=some tasks[cur] := List.getElem?_eq_getElem hlt
  have hdeps : (tasks[cur]?.map TaskNode.deps).getD []=tasks[cur].deps := by rw [hget]; rfl
  -- an open predecessor is a task that was not peeled, so it is blocked
  rw [h.indegree cur _ hget] at hpos
  obtain ⟨d,hd⟩ := List.exists_mem_of_length_pos hpos
  obtain ⟨hdep,hopen⟩ := List.mem_filter.mp hd
  rw [decide_eq_true_eq] at hopen
  have hmem := List.getElem_mem hlt
  obtain ⟨u,hu,hid⟩ := getElem?_indexOf (hknown _ hmem d hdep)
  have hblocked : 0 < s.indegree (indexOf tasks d) := by
    by_contra hzero
    have hpeeled := h.complete _ (List.getElem?_eq_some_iff.mp hu).1 (Nat.eq_zero_of_not_pos hzero)
    rw [hempty,List.append_nil] at hpeeled
    exact hopen (mem_namesOf.mpr ⟨_,hpeeled,u,hu,hid⟩)
  cases hfind : blockedPredecessorStrict tasks s.indegree cur with
  | none =>
    rw [blockedPredecessorStrict,hdeps] at hfind
    have hnot := List.find?_eq_none.mp hfind _ (List.mem_map_of_mem hdep)
    rw [decide_eq_true_eq] at hnot
    exact absurd hblocked hnot
  | some next =>
    rw [blockedPredecessorStrict,hdeps] at hfind
    have hnext := List.find?_some hfind
    obtain ⟨e,he,rfl⟩ := List.mem_map.mp (List.mem_of_find?_eq_some hfind)
    obtain ⟨v,hv,hname⟩ := getElem?_indexOf (hknown _ hmem e he)
    exact ⟨_,rfl,⟨(List.getElem?_eq_some_iff.mp hv).1,of_decide_eq_true hnext⟩,v,_,hv,hget,
      hname ▸ he⟩

/-- Where not every position was peeled, one is blocked. -/
theorem exists_blocked (h : PeelInv tasks order s) (hempty : s.queue=[])
    (hrest : s.peeled≠tasks.length) : ∃ i, Blocked tasks s.indegree i := by
  by_contra hnone
  rw [not_exists] at hnone
  refine hrest ?_
  have hall : List.range tasks.length⊆order := by
    intro i hi
    have hlt := List.mem_range.mp hi
    have hzero : s.indegree i=0 := Nat.eq_zero_of_not_pos fun hpos => hnone i ⟨hlt,hpos⟩
    have hin := h.complete i hlt hzero
    rwa [hempty,List.append_nil] at hin
  have hle := (List.subperm_of_subset List.nodup_range hall).length_le
  have hge := h.length_le
  rw [hempty,List.append_nil] at hge
  rw [List.length_range] at hle
  rw [h.peeled]
  omega

/-- The name at a position. -/
def nameAt (tasks : List TaskNode) (i : ℕ) : TaskId := (tasks[i]?.map TaskNode.id).getD ⟨""⟩

theorem nameAt_eq {i : ℕ} {t : TaskNode} (h : tasks[i]?=some t) : nameAt tasks i=t.id := by
  rw [nameAt,h]
  rfl

/-- A cycle of positions is one of their names. -/
theorem realCycle_names (hw : WellNamed tasks) {c : List ℕ} (h : RealCycle (PrecedesAt tasks) c)
    (hlt : ∀ i∈c, i < tasks.length) :
    RealCycle (Precedes tasks) (c.filterMap fun i => tasks[i]?.map TaskNode.id) := by
  have hget : ∀ i∈c, ∃ t, tasks[i]?=some t := fun i hi =>
    ⟨_,List.getElem?_eq_getElem (hlt i hi)⟩
  have hnames : (c.filterMap fun i => tasks[i]?.map TaskNode.id)=c.map (nameAt tasks) := by
    rw [←List.filterMap_eq_map]
    refine List.filterMap_congr fun i hi => ?_
    obtain ⟨t,ht⟩ := hget i hi
    rw [Function.comp_apply,nameAt_eq ht,ht]
    rfl
  rw [hnames]
  refine h.map (nameAt tasks) ?_ ?_
  · intro i hi j hj hij
    obtain ⟨t,ht⟩ := hget i hi
    obtain ⟨u,hu⟩ := hget j hj
    rw [nameAt_eq ht,nameAt_eq hu] at hij
    exact hw.position_eq ht hu hij
  · rintro i j ⟨u,t,hu,ht,hdep⟩
    rw [nameAt_eq hu,nameAt_eq ht]
    exact ⟨t,List.mem_of_getElem? ht,rfl,hdep⟩

/-- The positions visited so far: distinct, blocked, each before the one it was
reached from. -/
structure CycleWalk (tasks : List TaskNode) (indegree : ℕ → ℕ) (path : List ℕ) : Prop where
  /-- No position is visited twice. -/
  nodup : path.Nodup
  /-- Every visited position is blocked. -/
  blocked : ∀ i∈path, Blocked tasks indegree i
  /-- The walk goes from a position to a predecessor. -/
  backwards : path.IsChain fun i j => PrecedesAt tasks j i

/-- A new blocked predecessor extends the walk. -/
theorem CycleWalk.concat {indegree : ℕ → ℕ} {before : List ℕ} {cur next : ℕ}
    (h : CycleWalk tasks indegree (before++[cur])) (hnext : Blocked tasks indegree next)
    (hprec : PrecedesAt tasks next cur) (hnew : next∉before++[cur]) :
    CycleWalk tasks indegree ((before++[cur])++[next]) := by
  refine ⟨?_,?_,?_⟩
  · rw [←List.concat_eq_append]
    exact h.nodup.concat hnew
  · intro i hi
    rcases List.mem_append.mp hi with hi|hi
    · exact h.blocked i hi
    · rw [List.mem_singleton.mp hi]
      exact hnext
  · rw [List.append_assoc,List.singleton_append,List.isChain_append_cons_cons]
    exact ⟨h.backwards,hprec,List.isChain_singleton _⟩

/-- The walk returns to itself within as many steps as there are tasks, takes no
fallback on the way and reports a cycle. -/
theorem walkCycle_spec (hw : WellNamed tasks) {indegree : ℕ → ℕ}
    (hfind : ∀ cur, Blocked tasks indegree cur → ∃ next,
      blockedPredecessorStrict tasks indegree cur=some next ∧ Blocked tasks indegree next ∧
        PrecedesAt tasks next cur)
    (start fuel : ℕ) {before : List ℕ} {cur : ℕ} (h : CycleWalk tasks indegree (before++[cur]))
    (hfuel : tasks.length < (before++[cur]).length+fuel) :
    walkCycleStrict tasks indegree fuel (before++[cur]) cur=
        some (walkCycle tasks indegree start fuel (before++[cur]) cur) ∧
      RealCycle (Precedes tasks) (walkCycle tasks indegree start fuel (before++[cur]) cur) := by
  induction fuel generalizing before cur with
  | zero =>
    have hle := length_le_of_lt h.nodup fun i hi => (h.blocked i hi).1
    omega
  | succ fuel ih =>
    have hcur := h.blocked cur (List.mem_append_right _ List.mem_cons_self)
    obtain ⟨next,hnext,hblocked,hprec⟩ := hfind cur hcur
    have hsame : blockedPredecessor tasks indegree start cur=next := by
      rw [blockedPredecessor]
      rw [blockedPredecessorStrict] at hnext
      rw [hnext,Option.getD_some]
    rw [walkCycleStrict,walkCycle,hnext]
    simp only [hsame]
    by_cases hmem : next∈before++[cur]
    · rw [if_pos hmem,if_pos hmem]
      refine ⟨rfl,?_⟩
      rw [←List.filterMap_reverse]
      refine realCycle_names hw (realCycle_of_return h.nodup h.backwards hprec hmem) ?_
      intro i hi
      exact (h.blocked i (List.mem_of_mem_drop (List.mem_reverse.mp hi))).1
    · rw [if_neg hmem,if_neg hmem]
      refine ih (h.concat hblocked hprec hmem) ?_
      rw [List.length_append,List.length_singleton]
      omega

/-- Where the loop of `build` leaves a position unpeeled, `find_cycle` reports a
cycle without taking a fallback. -/
theorem findCycle_spec (hw : WellNamed tasks) (hknown : AllKnown tasks)
    (hrest : (peel tasks).peeled≠tasks.length) :
    findCycleStrict tasks (peel tasks).indegree=some (findCycle tasks (peel tasks).indegree) ∧
      RealCycle (Precedes tasks) (findCycle tasks (peel tasks).indegree) := by
  obtain ⟨order,hinv,hempty⟩ := peel_spec hw
  obtain ⟨i,hlt,hpos⟩ := exists_blocked hinv hempty hrest
  unfold findCycleStrict findCycle
  cases hstart : (List.range tasks.length).find? fun i => 0 < (peel tasks).indegree i with
  | none =>
    have hnot := List.find?_eq_none.mp hstart i (List.mem_range.mpr hlt)
    rw [decide_eq_true_eq] at hnot
    exact absurd hpos hnot
  | some start =>
    have hin := List.mem_range.mp (List.mem_of_find?_eq_some hstart)
    have hfound := List.find?_some hstart
    rw [decide_eq_true_eq] at hfound
    have hblocked : Blocked tasks (peel tasks).indegree start := ⟨hin,hfound⟩
    have hwalk : CycleWalk tasks (peel tasks).indegree ([]++[start]) := by
      refine ⟨List.nodup_singleton start,?_,List.isChain_singleton start⟩
      intro j hj
      rw [List.mem_singleton.mp hj]
      exact hblocked
    have hfuel : tasks.length < ([]++[start]).length+tasks.length := by
      rw [List.nil_append,List.length_singleton]
      omega
    exact walkCycle_spec hw (fun cur => exists_blocked_predecessor hinv hempty hknown) start
      tasks.length hwalk hfuel

/-- What `build` answers. -/
inductive BuildCase (b : WorkflowBuilder) : Except WorkflowError WorkflowSpec → Prop where
  /-- A declared predecessor is not a task. -/
  | unknown (task predecessor : TaskId) (missing : MissingEdge b.tasks task predecessor) :
    BuildCase b (.error (.unknownPredecessor task predecessor))
  /-- The graph has a cycle. -/
  | cycle (known : AllKnown b.tasks) (c : List TaskId) (real : RealCycle (Precedes b.tasks) c)
    (strict : findCycleStrict b.tasks (peel b.tasks).indegree=some c) :
    BuildCase b (.error (.cycle c))
  /-- The graph is accepted. -/
  | accepted (spec : WorkflowSpec) (same : spec.tasks=b.tasks) : BuildCase b (.ok spec)

/-- A predecessor reported as unknown is declared and not a task. -/
theorem missingEdge_of_unknownPredecessor {task predecessor : TaskId}
    (h : unknownPredecessor tasks=some (task,predecessor)) :
    MissingEdge tasks task predecessor := by
  obtain ⟨t,ht,hfound⟩ := List.exists_of_findSome?_eq_some h
  obtain ⟨d,hd,hpair⟩ := Option.map_eq_some_iff.mp hfound
  cases hpair
  refine ⟨⟨t,ht,rfl,List.mem_of_find?_eq_some hd⟩,fun hmem => ?_⟩
  have hunknown := List.find?_some hd
  obtain ⟨u,hu,hid⟩ := List.mem_map.mp hmem
  rw [Bool.not_eq_true',isTask,List.any_eq_false] at hunknown
  exact hunknown u hu (decide_eq_true hid)

theorem build_cases (b : WorkflowBuilder) : BuildCase b b.build := by
  unfold WorkflowBuilder.build
  split
  · next task predecessor hunknown =>
    exact .unknown task predecessor (missingEdge_of_unknownPredecessor hunknown)
  · next hknown =>
    have hall := depsKnown_of_unknownPredecessor hknown
    split
    · exact .accepted _ rfl
    · next hrest =>
      obtain ⟨hstrict,hreal⟩ := findCycle_spec b.wellNamed hall hrest
      exact .cycle hall _ hreal hstrict

/-- After calls of `add_task` that all succeed, `build` returns the declared tasks
in insertion order exactly when every declared predecessor is a task and no task
precedes itself. It names a missing predecessor exactly when one is missing, and
reports a cycle exactly when none is missing and there is one. No in-degree is
lowered below zero. -/
theorem build_accepts_dags {calls : List TaskCall} {b : WorkflowBuilder}
    (h : addTasks .empty calls=.ok b) :
    b.tasks=calls.map TaskCall.node ∧
      ((∃ spec, b.build=.ok spec) ↔ AllKnown b.tasks ∧ ¬Cyclic (Precedes b.tasks)) ∧
      (∀ spec, b.build=.ok spec → spec.tasks=calls.map TaskCall.node) ∧
      ((∃ t d, b.build=.error (.unknownPredecessor t d)) ↔ ¬AllKnown b.tasks) ∧
      (∀ t d, b.build=.error (.unknownPredecessor t d) → MissingEdge b.tasks t d) ∧
      ((∃ c, b.build=.error (.cycle c)) ↔ AllKnown b.tasks ∧ Cyclic (Precedes b.tasks)) ∧
      peelLoopStrict b.tasks b.tasks.length (peelStart b.tasks)=some (peel b.tasks) := by
  have htasks : b.tasks=calls.map TaskCall.node := addTasks_ok h
  have hpeel : peelLoopStrict b.tasks b.tasks.length (peelStart b.tasks)=some (peel b.tasks) :=
    peelLoopStrict_eq b.wellNamed b.tasks.length (PeelInv.start b.tasks) (Nat.le_add_left _ _)
  have hcases := build_cases b
  rw [←htasks]
  generalize b.build=answer at hcases ⊢
  cases hcases with
  | unknown task predecessor missing =>
    have hnot : ¬AllKnown b.tasks := by
      obtain ⟨⟨t,ht,-,hd⟩,hunknown⟩ := missing
      exact fun hknown => hunknown (hknown t ht predecessor hd)
    refine ⟨rfl,iff_of_false (by simp) fun hk => hnot hk.1,by simp,iff_of_true ⟨_,_,rfl⟩ hnot,?_,
      iff_of_false (by simp) fun hk => hnot hk.1,hpeel⟩
    intro t d heq
    cases heq
    exact missing
  | cycle known c real strict =>
    have hcyclic := real.cyclic
    exact ⟨rfl,iff_of_false (by simp) fun hk => hk.2 hcyclic,by simp,
      iff_of_false (by simp) fun hk => hk known,by simp,iff_of_true ⟨_,rfl⟩ ⟨known,hcyclic⟩,hpeel⟩
  | accepted spec same =>
    have hknown : AllKnown b.tasks := same ▸ spec.depsKnown
    have hacyclic : ¬Cyclic (Precedes b.tasks) := same ▸ not_cyclic_of_ordered spec.ordered
    refine ⟨rfl,iff_of_true ⟨_,rfl⟩ ⟨hknown,hacyclic⟩,?_,iff_of_false (by simp) fun hk => hk hknown,
      by simp,iff_of_false (by simp) fun hk => hacyclic hk.2,hpeel⟩
    intro spec' heq
    cases heq
    exact same

/-- The calls that declare a task before its predecessor. -/
def forwardCalls : List TaskCall := [⟨⟨"b"⟩,["a"],{}⟩,⟨⟨"a"⟩,[],{}⟩]

/-- A predecessor may be declared after its dependent. -/
theorem forward_reference_accepted : ∃ b spec, addTasks .empty forwardCalls=.ok b ∧
    b.build=.ok spec ∧ spec.tasks=forwardCalls.map TaskCall.node := by
  obtain ⟨-,-,hsame,-⟩ := build_accepts_dags (rfl : addTasks .empty forwardCalls=.ok _)
  exact ⟨_,_,rfl,rfl,hsame _ rfl⟩

/-- A reported cycle lists distinct tasks, each a declared predecessor of the next
and the last one of the first, and the walk that found it returned to itself
without a fallback. -/
theorem reported_cycle_real {b : WorkflowBuilder} {c : List TaskId}
    (h : b.build=.error (.cycle c)) : RealCycle (Precedes b.tasks) c ∧
      findCycleStrict b.tasks (peel b.tasks).indegree=some c := by
  have hcases := build_cases b
  rw [h] at hcases
  cases hcases with
  | cycle known c real strict => exact ⟨real,strict⟩

/-- A cycle of two tasks with a third one behind it. -/
def cyclicCalls : List TaskCall := [⟨⟨"c"⟩,["a"],{}⟩,⟨⟨"a"⟩,["b"],{}⟩,⟨⟨"b"⟩,["a"],{}⟩]

/-- The walk starts behind the cycle and reports the cycle alone. -/
theorem cycle_behind_reported : ∃ b, addTasks .empty cyclicCalls=.ok b ∧
    b.build=.error (.cycle [⟨"b"⟩,⟨"a"⟩]) ∧ RealCycle (Precedes b.tasks) [⟨"b"⟩,⟨"a"⟩] := by
  refine ⟨_,rfl,?_,?_⟩
  · rfl
  · exact (reported_cycle_real (by rfl)).1

end AegisRuntime.WorkflowAcceptance
