import AegisRuntime.FailureRecords
import AegisRuntime.PrecedenceGraphs
import Mathlib.Data.List.Perm.Subperm

/-!
# The workflow builder and its validated graphs

Task nodes, the builder that rejects malformed tasks as they are added, and
`build`, which finds a missing predecessor or peels the graph by Kahn's
algorithm and reports a cycle. A builder carries what `add_task` has checked; a
specification also carries that every predecessor is a task and that the tasks
can be listed after their predecessors. Both are fields, so a specification is
a valid graph by construction.
-/

namespace AegisRuntime.WorkflowGraph

open FailureRecords PrecedenceGraphs

/-- Name of a task. -/
structure TaskId where
  /-- The text of the name. -/
  asStr : String
  deriving DecidableEq,Repr

/-- Errors of the builder and of the executor's configuration. -/
inductive WorkflowError where
  /-- The task name is empty. -/
  | emptyTaskId
  /-- The task was added before. -/
  | duplicateTask (task : TaskId)
  /-- A declared predecessor is not a task. -/
  | unknownPredecessor (task predecessor : TaskId)
  /-- A predecessor is declared twice. -/
  | duplicateEdge (task predecessor : TaskId)
  /-- A task depends on itself. -/
  | selfDependency (task : TaskId)
  /-- One cycle, listed in dependency order. -/
  | cycle (tasks : List TaskId)
  /-- The executor's configuration is unusable. -/
  | invalidConfig (message : String)
  deriving DecidableEq,Repr

/-- Caller-supplied task body. What the body reports is an event of a run; only
the certainty recorded when the workflow interrupts it is read from the runner. -/
structure TaskRunner where
  /-- Certainty recorded when the workflow interrupts the body. -/
  certaintyOnInterrupt : EffectCertainty := .uncertain
  deriving DecidableEq,Repr

/-- One task of a workflow. -/
structure TaskNode where
  /-- Name of the task. -/
  id : TaskId
  /-- Declared predecessors. -/
  deps : List TaskId
  /-- The body. -/
  runner : TaskRunner
  deriving DecidableEq,Repr

/-- What `add_task` guarantees of the tasks collected so far. -/
structure WellNamed (tasks : List TaskNode) : Prop where
  /-- No task name is empty. -/
  idsNonempty : ∀ t∈tasks, t.id.asStr.isEmpty=false
  /-- No two tasks share a name. -/
  idsNodup : (tasks.map TaskNode.id).Nodup
  /-- No task declares a predecessor twice. -/
  depsNodup : ∀ t∈tasks, t.deps.Nodup
  /-- No task depends on itself. -/
  noSelf : ∀ t∈tasks, t.id∉t.deps

/-- The tasks added so far, in insertion order. -/
structure WorkflowBuilder where
  /-- The tasks. -/
  tasks : List TaskNode
  /-- What adding them has checked. -/
  wellNamed : WellNamed tasks

/-- The builder without tasks. -/
def WorkflowBuilder.empty : WorkflowBuilder := ⟨[],by constructor <;> simp⟩

/-- The predecessor loop of `add_task`: refuses the task itself and repeats. -/
def collectDeps (id : TaskId) (seen : List String) : List String → Except WorkflowError (List TaskId)
  | [] => .ok []
  | d::deps =>
    if d=id.asStr then .error (.selfDependency id)
    else if d∈seen then .error (.duplicateEdge id ⟨d⟩)
    else (collectDeps id (d::seen) deps).map (⟨d⟩::·)

/-- An accepted predecessor list is the declared one, without repeats, without
the names already seen and without the task itself. -/
theorem collectDeps_ok {id : TaskId} {seen deps : List String} {out : List TaskId}
    (h : collectDeps id seen deps=.ok out) :
    out=deps.map TaskId.mk ∧ out.Nodup ∧ id∉out ∧ ∀ d∈out, d.asStr∉seen := by
  induction deps generalizing seen out with
  | nil =>
    cases h
    simp
  | cons d deps ih =>
    simp only [collectDeps] at h
    split at h
    · cases h
    rename_i hself
    split at h
    · cases h
    rename_i hseen
    cases hrest : collectDeps id (d::seen) deps with
    | error e =>
      rw [hrest] at h
      cases h
    | ok rest =>
      rw [hrest] at h
      cases h
      obtain ⟨heq,hnodup,hid,hout⟩ := ih hrest
      refine ⟨by rw [heq,List.map_cons],List.nodup_cons.mpr ⟨fun hd => ?_,hnodup⟩,?_,?_⟩
      · exact hout ⟨d⟩ hd List.mem_cons_self
      · rw [List.mem_cons]
        rintro (hd|hd)
        · exact hself (congrArg TaskId.asStr hd).symm
        · exact hid hd
      · intro e he
        rcases List.mem_cons.mp he with rfl|he
        · exact hseen
        · exact fun hs => hout e he (List.mem_cons_of_mem d hs)

/-- A task whose checks all passed keeps the builder's guarantees. -/
theorem WellNamed.concat {tasks : List TaskNode} (h : WellNamed tasks) {node : TaskNode}
    (hname : node.id.asStr.isEmpty=false) (hnew : ∀ t∈tasks, t.id≠node.id)
    (hnodup : node.deps.Nodup) (hself : node.id∉node.deps) : WellNamed (tasks++[node]) := by
  have hall : ∀ {P : TaskNode → Prop}, (∀ t∈tasks, P t) → P node → ∀ t∈tasks++[node], P t := by
    intro P htasks hnode t ht
    rcases List.mem_append.mp ht with ht|ht
    · exact htasks t ht
    · rw [List.mem_singleton.mp ht]
      exact hnode
  refine ⟨hall h.idsNonempty hname,?_,hall h.depsNodup hnodup,hall h.noSelf hself⟩
  rw [List.map_append,List.nodup_append]
  refine ⟨h.idsNodup,by simp,?_⟩
  simp only [List.map_cons,List.map_nil,List.mem_singleton,List.mem_map]
  rintro x ⟨t,ht,rfl⟩ y rfl
  exact hnew t ht

/-- Adds one task. Predecessors may be added after their dependents. -/
def WorkflowBuilder.addTask (b : WorkflowBuilder) (id : TaskId) (deps : List String)
    (runner : TaskRunner) : Except WorkflowError WorkflowBuilder :=
  if hname : id.asStr.isEmpty=true then .error .emptyTaskId
  else if hdup : b.tasks.any (fun t => t.id=id)=true then .error (.duplicateTask id)
  else
    match hdeps : collectDeps id [] deps with
    | .error e => .error e
    | .ok depsOut =>
      .ok ⟨b.tasks++[⟨id,depsOut,runner⟩],b.wellNamed.concat (by simpa using hname)
        (by simpa using hdup) (collectDeps_ok hdeps).2.1 (collectDeps_ok hdeps).2.2.1⟩

/-- Whether the name is that of a task, as `index.contains_key` decides it. -/
def isTask (tasks : List TaskNode) (id : TaskId) : Bool := tasks.any fun t => t.id=id

/-- Position of the task with the given name. -/
def indexOf (tasks : List TaskNode) (id : TaskId) : ℕ := tasks.findIdx fun t => t.id=id

/-- The first declared predecessor that is not a task, with its task. -/
def unknownPredecessor (tasks : List TaskNode) : Option (TaskId×TaskId) :=
  tasks.findSome? fun t => (t.deps.find? fun d => !isTask tasks d).map (t.id,·)

/-- What the Kahn loop works on. The queue is popped at its head. -/
structure PeelState where
  /-- Predecessors not yet peeled, by position. -/
  indegree : ℕ → ℕ
  /-- Positions whose predecessors are all peeled. -/
  queue : List ℕ
  /-- How many positions were peeled. -/
  peeled : ℕ

/-- The body of the inner `for` loop: one task is told that `peeledId` is done. -/
def relaxTask (peeledId : TaskId) (s : (ℕ → ℕ)×List ℕ) (entry : TaskNode×ℕ) : (ℕ → ℕ)×List ℕ :=
  if peeledId∈entry.1.deps then
    let indegree := Function.update s.1 entry.2 (s.1 entry.2-1)
    (indegree,if indegree entry.2=0 then entry.2::s.2 else s.2)
  else s

/-- The inner `for` loop over all tasks. -/
def relax (tasks : List TaskNode) (peeledId : TaskId) (s : (ℕ → ℕ)×List ℕ) : (ℕ → ℕ)×List ℕ :=
  tasks.zipIdx.foldl (relaxTask peeledId) s

/-- The `while let Some(n) = queue.pop()` loop. -/
def peelLoop (tasks : List TaskNode) : ℕ → PeelState → PeelState
  | 0,s => s
  | fuel+1,s =>
    match s.queue with
    | [] => s
    | n::queue =>
      match tasks[n]? with
      | none => s
      | some node =>
        let next := relax tasks node.id (s.indegree,queue)
        peelLoop tasks fuel ⟨next.1,next.2,s.peeled+1⟩

/-- In-degrees and the queue before the loop. -/
def peelStart (tasks : List TaskNode) : PeelState :=
  let indegree := fun i => (tasks[i]?.map fun t => t.deps.length).getD 0
  ⟨indegree,((List.range tasks.length).filter fun i => indegree i=0).reverse,0⟩

/-- Kahn's algorithm: whatever cannot be peeled off sits on or behind a cycle.
No position is queued twice, so the number of tasks bounds the loop. -/
def peel (tasks : List TaskNode) : PeelState := peelLoop tasks tasks.length (peelStart tasks)

/-- The first predecessor still blocked, or the start of the walk. -/
def blockedPredecessor (tasks : List TaskNode) (indegree : ℕ → ℕ) (start cur : ℕ) : ℕ :=
  ((((tasks[cur]?.map TaskNode.deps).getD []).map (indexOf tasks)).find?
    fun i => 0 < indegree i).getD start

/-- The walk of `find_cycle`; the path is in walking order. -/
def walkCycle (tasks : List TaskNode) (indegree : ℕ → ℕ) (start : ℕ) :
    ℕ → List ℕ → ℕ → List TaskId
  | 0,_,_ => []
  | fuel+1,path,cur =>
    let next := blockedPredecessor tasks indegree start cur
    if next∈path then
      ((path.drop (path.idxOf next)).filterMap fun i => tasks[i]?.map TaskNode.id).reverse
    else walkCycle tasks indegree start fuel (path++[next]) next

/-- Walks predecessor links among the unpeeled nodes until one repeats. The
path never repeats a position, so the number of tasks bounds the walk. -/
def findCycle (tasks : List TaskNode) (indegree : ℕ → ℕ) : List TaskId :=
  let start := ((List.range tasks.length).find? fun i => 0 < indegree i).getD 0
  walkCycle tasks indegree start tasks.length [start] start

/-- Whether the task at a position declares the given predecessor. -/
def touches (tasks : List TaskNode) (p : TaskId) (i : ℕ) : Bool :=
  (tasks[i]?.map fun t => decide (p∈t.deps)).getD false

theorem touches_eq_true_iff {tasks : List TaskNode} {p : TaskId} {i : ℕ} :
    touches tasks p i=true ↔ ∃ t, tasks[i]?=some t ∧ p∈t.deps := by
  unfold touches
  cases tasks[i]? <;> simp

/-- One relaxation lowers exactly the in-degrees of the tasks it touches and
queues exactly those it brings to zero, each once. -/
theorem relax_spec (tasks : List TaskNode) (p : TaskId) (indegree : ℕ → ℕ) (queue : List ℕ) :
    (∀ i, (relax tasks p (indegree,queue)).1 i=
      if touches tasks p i then indegree i-1 else indegree i) ∧
    ∃ pushed, (relax tasks p (indegree,queue)).2=pushed++queue ∧ pushed.Nodup ∧
      ∀ i, i∈pushed ↔ touches tasks p i=true ∧ indegree i-1=0 := by
  induction tasks using List.reverseRecOn with
  | nil => exact ⟨fun i => by simp [relax,touches],[],rfl,List.nodup_nil,by simp [touches]⟩
  | append_singleton tasks t ih =>
    obtain ⟨hdeg,pushed,hqueue,hnodup,hmem⟩ := ih
    have hlast : ∀ i, touches (tasks++[t]) p i=
        (touches tasks p i || (decide (i=tasks.length) && decide (p∈t.deps))) := by
      intro i
      rcases Nat.lt_trichotomy i tasks.length with hi|rfl|hi
      · simp [touches,List.getElem?_append_left hi,Nat.ne_of_lt hi]
      · simp [touches]
      · have hout : tasks.length+1 ≤ i := hi
        simp [touches,List.getElem?_append_right hi.le,Nat.ne_of_gt hi,
          Nat.sub_ne_zero_of_lt hi,hi.le]
    have hfresh : touches tasks p tasks.length=false := by simp [touches]
    have hstep : relax (tasks++[t]) p (indegree,queue)=
        relaxTask p (relax tasks p (indegree,queue)) (t,tasks.length) := by
      simp [relax,List.zipIdx_append]
    by_cases hp : p∈t.deps
    · have hnew : (relax tasks p (indegree,queue)).1 tasks.length=indegree tasks.length := by
        rw [hdeg,hfresh,if_neg (by simp)]
      rw [hstep,relaxTask,if_pos hp]
      refine ⟨fun i => ?_,?_⟩
      · by_cases hi : i=tasks.length
        · subst hi
          simp [hlast,hp,hnew]
        · simp [hdeg,hlast,hi]
      · simp only [Function.update_self,hnew,hqueue]
        by_cases hz : indegree tasks.length-1=0
        · refine ⟨tasks.length::pushed,by rw [if_pos hz,List.cons_append],?_,?_⟩
          · refine List.nodup_cons.mpr ⟨fun hin => ?_,hnodup⟩
            rw [hmem,hfresh] at hin
            exact Bool.noConfusion hin.1
          · intro i
            rw [List.mem_cons,hmem,hlast]
            by_cases hi : i=tasks.length
            · subst hi
              simp [hp,hz]
            · simp [hi]
        · refine ⟨pushed,by rw [if_neg hz],hnodup,fun i => ?_⟩
          rw [hmem,hlast]
          by_cases hi : i=tasks.length
          · subst hi
            simp [hfresh,hz]
          · simp [hi]
    · rw [hstep,relaxTask,if_neg hp]
      refine ⟨fun i => by rw [hdeg,hlast]; simp [hp],pushed,hqueue,hnodup,fun i => ?_⟩
      rw [hmem,hlast]
      simp [hp]

/-- Names of the tasks at the given positions. -/
def namesOf (tasks : List TaskNode) (order : List ℕ) : List TaskId :=
  order.filterMap fun i => tasks[i]?.map TaskNode.id

theorem mem_namesOf {tasks : List TaskNode} {order : List ℕ} {d : TaskId} :
    d∈namesOf tasks order ↔ ∃ i∈order, ∃ t, tasks[i]?=some t ∧ t.id=d := by
  simp [namesOf,List.mem_filterMap]

theorem namesOf_concat {tasks : List TaskNode} {order : List ℕ} {n : ℕ} {node : TaskNode}
    (hnode : tasks[n]?=some node) : namesOf tasks (order++[n])=namesOf tasks order++[node.id] := by
  simp [namesOf,List.filterMap_append,hnode]

/-- A name determines its task. -/
theorem WellNamed.eq_of_id {tasks : List TaskNode} (h : WellNamed tasks) {t u : TaskNode}
    (ht : t∈tasks) (hu : u∈tasks) (hid : t.id=u.id) : t=u :=
  List.inj_on_of_nodup_map h.idsNodup ht hu hid

/-- A name determines its position. -/
theorem WellNamed.position_eq {tasks : List TaskNode} (h : WellNamed tasks) {i j : ℕ}
    {t u : TaskNode} (ht : tasks[i]?=some t) (hu : tasks[j]?=some u) (hid : t.id=u.id) : i=j := by
  have hi : (tasks.map TaskNode.id)[i]?=some t.id := by simp [ht]
  have hj : (tasks.map TaskNode.id)[j]?=some t.id := by simp [hu,hid]
  have hlt : i < (tasks.map TaskNode.id).length := (List.getElem?_eq_some_iff.mp hi).1
  exact (List.getElem?_inj hlt h.idsNodup).mp (hi.trans hj.symm)

/-- Predecessors of a task that are not among the given names. -/
def openDeps (names : List TaskId) (deps : List TaskId) : List TaskId := deps.filter (·∉names)

theorem openDeps_eq_nil_iff {names deps : List TaskId} :
    openDeps names deps=[] ↔ ∀ d∈deps, d∈names := by
  simp [openDeps,List.filter_eq_nil_iff]

/-- One more name closes at most one predecessor, since none is declared twice. -/
theorem openDeps_concat_length {names deps : List TaskId} {p : TaskId} (hnodup : deps.Nodup)
    (hp : p∉names) : (openDeps (names++[p]) deps).length=
      if p∈deps then (openDeps names deps).length-1 else (openDeps names deps).length := by
  have herase : openDeps (names++[p]) deps=(openDeps names deps).erase p := by
    rw [openDeps,openDeps,(hnodup.filter _).erase_eq_filter p,List.filter_filter]
    refine List.filter_congr fun d _ => ?_
    by_cases hd : d=p <;> simp [hd]
  have hmem : p∈openDeps names deps ↔ p∈deps := by simp [openDeps,hp]
  rw [herase,List.length_erase]
  simp only [hmem]

/-- What the Kahn loop keeps true: `order` lists the peeled positions. -/
structure PeelInv (tasks : List TaskNode) (order : List ℕ) (s : PeelState) : Prop where
  /-- The counter counts the peeled positions. -/
  peeled : s.peeled=order.length
  /-- Only positions of tasks are peeled or queued. -/
  bounded : ∀ i∈order++s.queue, i < tasks.length
  /-- No position is peeled or queued twice. -/
  nodup : (order++s.queue).Nodup
  /-- An in-degree counts the predecessors not yet peeled. -/
  indegree : ∀ i t, tasks[i]?=some t → s.indegree i=(openDeps (namesOf tasks order) t.deps).length
  /-- Queued positions have no open predecessor. -/
  queued : ∀ i∈s.queue, s.indegree i=0
  /-- Every position was peeled after its predecessors. -/
  closed : EachAfter (fun before i => ∀ t, tasks[i]?=some t → ∀ d∈t.deps, d∈namesOf tasks before) order
  /-- No position without open predecessors is forgotten. -/
  complete : ∀ i < tasks.length, s.indegree i=0 → i∈order++s.queue

/-- The invariant holds before the loop. -/
theorem PeelInv.start (tasks : List TaskNode) : PeelInv tasks [] (peelStart tasks) := by
  refine ⟨rfl,?_,?_,?_,?_,eachAfter_nil _,?_⟩
  · intro i hi
    simp only [peelStart,List.nil_append,List.mem_reverse,List.mem_filter,List.mem_range] at hi
    exact hi.1
  · simp only [peelStart,List.nil_append,List.nodup_reverse]
    exact List.nodup_range.filter _
  · intro i t ht
    simp [peelStart,ht,openDeps,namesOf]
  · intro i hi
    simp only [peelStart,List.mem_reverse,List.mem_filter,decide_eq_true_eq] at hi
    exact hi.2
  · intro i hlt hi
    simpa [peelStart,hlt] using hi

/-- A peeled position has no open predecessor. -/
theorem PeelInv.peeled_indegree {tasks : List TaskNode} {order : List ℕ} {s : PeelState}
    (h : PeelInv tasks order s) {i : ℕ} (hi : i∈order) : s.indegree i=0 := by
  obtain ⟨before,after,horder⟩ := List.append_of_mem hi
  have hlt := h.bounded i (List.mem_append_left _ hi)
  have hget : tasks[i]?=some tasks[i] := List.getElem?_eq_getElem hlt
  rw [h.indegree i _ hget,List.length_eq_zero_iff,openDeps_eq_nil_iff]
  intro d hd
  obtain ⟨j,hj,hname⟩ := mem_namesOf.mp (h.closed before i after horder _ hget d hd)
  exact mem_namesOf.mpr ⟨j,by rw [horder]; exact List.mem_append_left _ hj,hname⟩

/-- The name of a queued task has not been peeled. -/
theorem PeelInv.fresh {tasks : List TaskNode} (hw : WellNamed tasks) {order queue : List ℕ}
    {s : PeelState} (h : PeelInv tasks order s) {n : ℕ} {node : TaskNode} (hq : s.queue=n::queue)
    (hnode : tasks[n]?=some node) : node.id∉namesOf tasks order := by
  intro hin
  obtain ⟨i,hi,t,ht,hid⟩ := mem_namesOf.mp hin
  have hsame : i=n := hw.position_eq ht hnode hid
  have hdisj := (List.nodup_append.mp h.nodup).2.2 i hi n (by rw [hq]; exact List.mem_cons_self)
  exact hdisj hsame

/-- The decrement of the inner loop never underflows. -/
theorem PeelInv.touched_pos {tasks : List TaskNode} {order : List ℕ} {s : PeelState}
    (h : PeelInv tasks order s) {p : TaskId} (hp : p∉namesOf tasks order) {i : ℕ}
    (ht : touches tasks p i=true) : 0 < s.indegree i := by
  obtain ⟨t,hget,hdep⟩ := touches_eq_true_iff.mp ht
  rw [h.indegree i t hget]
  refine List.length_pos_of_mem (a:=p) ?_
  simp [openDeps,hdep,hp]

/-- One round of the loop keeps the invariant and peels one position. -/
theorem PeelInv.step {tasks : List TaskNode} (hw : WellNamed tasks) {order queue : List ℕ}
    {s : PeelState} (h : PeelInv tasks order s) {n : ℕ} {node : TaskNode} (hq : s.queue=n::queue)
    (hnode : tasks[n]?=some node) : PeelInv tasks (order++[n])
      ⟨(relax tasks node.id (s.indegree,queue)).1,(relax tasks node.id (s.indegree,queue)).2,
        s.peeled+1⟩ := by
  obtain ⟨hdeg,pushed,hqueue,hnodup,hpushed⟩ := relax_spec tasks node.id s.indegree queue
  have hfresh := h.fresh hw hq hnode
  have hold : ∀ i∈order++s.queue, s.indegree i=0 := fun i hi =>
    (List.mem_append.mp hi).elim h.peeled_indegree (h.queued i)
  have hsplit : ((order++[n])++(pushed++queue)).Perm (pushed++(order++s.queue)) := by
    rw [hq,List.append_assoc,List.singleton_append]
    refine (List.Perm.append_left order ?_).trans (List.perm_append_comm_assoc order pushed _)
    exact List.perm_middle.symm
  have hnew : ∀ i∈pushed, i∉order++s.queue := by
    intro i hi hin
    exact absurd (hold i hin) (h.touched_pos hfresh ((hpushed i).mp hi).1).ne'
  refine ⟨by rw [h.peeled,List.length_append,List.length_singleton],?_,?_,?_,?_,?_,?_⟩
  · intro i hi
    simp only [hqueue] at hi
    rcases List.mem_append.mp (hsplit.mem_iff.mp hi) with hi|hi
    · obtain ⟨t,hget,-⟩ := touches_eq_true_iff.mp ((hpushed i).mp hi).1
      exact (List.getElem?_eq_some_iff.mp hget).1
    · exact h.bounded i hi
  · simp only [hqueue]
    rw [hsplit.nodup_iff,List.nodup_append]
    exact ⟨hnodup,h.nodup,fun i hi j hj hij => hnew i hi (hij ▸ hj)⟩
  · intro i t hget
    have hdeps := hw.depsNodup t (List.mem_of_getElem? hget)
    have htouch : touches tasks node.id i=decide (node.id∈t.deps) := by simp [touches,hget]
    simp only [hdeg,htouch,decide_eq_true_eq,namesOf_concat hnode,
      openDeps_concat_length hdeps hfresh,h.indegree i t hget]
  · intro i hi
    simp only [hqueue] at hi
    simp only [hdeg]
    rcases List.mem_append.mp hi with hi|hi
    · rw [if_pos ((hpushed i).mp hi).1,((hpushed i).mp hi).2]
    · rw [h.queued i (by rw [hq]; exact List.mem_cons_of_mem n hi)]
      simp
  · refine eachAfter_concat_iff.mpr ⟨h.closed,fun t hget d hd => ?_⟩
    have hzero := h.queued n (by rw [hq]; exact List.mem_cons_self)
    rw [h.indegree n t hget,List.length_eq_zero_iff,openDeps_eq_nil_iff] at hzero
    exact hzero d hd
  · intro i hlt hi
    simp only [hqueue]
    rw [hsplit.mem_iff]
    simp only [hdeg] at hi
    split at hi
    · exact List.mem_append_left _ ((hpushed i).mpr ⟨‹_›,hi⟩)
    · exact List.mem_append_right _ (h.complete i hlt hi)

/-- Distinct positions of tasks are at most as many as the tasks. -/
theorem PeelInv.length_le {tasks : List TaskNode} {order : List ℕ} {s : PeelState}
    (h : PeelInv tasks order s) : (order++s.queue).length ≤ tasks.length := by
  have hsub : order++s.queue⊆List.range tasks.length := fun i hi => List.mem_range.mpr (h.bounded i hi)
  have hle := (List.subperm_of_subset h.nodup hsub).length_le
  rwa [List.length_range] at hle

/-- With fuel for the positions not yet peeled the loop runs the queue dry. -/
theorem peelLoop_spec {tasks : List TaskNode} (hw : WellNamed tasks) (fuel : ℕ) {order : List ℕ}
    {s : PeelState} (h : PeelInv tasks order s) (hfuel : tasks.length ≤ order.length+fuel) :
    ∃ order', PeelInv tasks order' (peelLoop tasks fuel s) ∧ (peelLoop tasks fuel s).queue=[] := by
  induction fuel generalizing order s with
  | zero =>
    have hle := h.length_le
    rw [List.length_append] at hle
    exact ⟨order,h,List.length_eq_zero_iff.mp (by simp only [peelLoop]; omega)⟩
  | succ fuel ih =>
    simp only [peelLoop]
    split
    · exact ⟨order,h,‹_›⟩
    rename_i n queue hq
    have hlt := h.bounded n (by rw [hq]; simp)
    have hget : tasks[n]?=some tasks[n] := List.getElem?_eq_getElem hlt
    rw [hget]
    exact ih (h.step hw hq hget) (by rw [List.length_append,List.length_singleton]; omega)

theorem peel_spec {tasks : List TaskNode} (hw : WellNamed tasks) :
    ∃ order, PeelInv tasks order (peel tasks) ∧ (peel tasks).queue=[] :=
  peelLoop_spec hw tasks.length (PeelInv.start tasks) (by simp)

/-- When the counter reaches the number of tasks, every position was peeled. -/
theorem PeelInv.mem_of_all_peeled {tasks : List TaskNode} {order : List ℕ} {s : PeelState}
    (h : PeelInv tasks order s) (hall : s.peeled=tasks.length) {i : ℕ} (hi : i < tasks.length) :
    i∈order := by
  have hsub : order⊆List.range tasks.length := fun j hj =>
    List.mem_range.mpr (h.bounded j (List.mem_append_left _ hj))
  have hperm := (List.subperm_of_subset (List.nodup_append.mp h.nodup).1 hsub).perm_of_length_le
    (by rw [List.length_range,←hall,h.peeled])
  exact hperm.mem_iff.mpr (List.mem_range.mpr hi)

/-- The tasks can be listed after their predecessors. -/
def Ordered (tasks : List TaskNode) : Prop :=
  ∃ order : List TaskId, (∀ t∈tasks, t.id∈order) ∧
    ∀ t∈tasks, ∀ before after, order=before++t.id::after → ∀ d∈t.deps, d∈before

/-- The peeling order lists every task after its predecessors. -/
theorem ordered_of_all_peeled {tasks : List TaskNode} (hw : WellNamed tasks)
    (hall : (peel tasks).peeled=tasks.length) : Ordered tasks := by
  obtain ⟨order,h,-⟩ := peel_spec hw
  refine ⟨namesOf tasks order,fun t ht => ?_,fun t ht before after hsplit d hd => ?_⟩
  · obtain ⟨i,hi,rfl⟩ := List.mem_iff_getElem.mp ht
    exact mem_namesOf.mpr ⟨i,h.mem_of_all_peeled hall hi,_,List.getElem?_eq_getElem hi,rfl⟩
  · obtain ⟨early,late,horder,rfl,hlate⟩ := List.filterMap_eq_append_iff.mp hsplit
    obtain ⟨gap,i,rest,rfl,hgap,hi,-⟩ := List.filterMap_eq_cons_iff.mp hlate
    obtain ⟨u,hu,hid⟩ := Option.map_eq_some_iff.mp hi
    have hsame : u=t := hw.eq_of_id (List.mem_of_getElem? hu) ht hid
    have hclosed := h.closed (early++gap) i rest (by rw [horder,List.append_assoc]) u hu d
      (hsame ▸ hd)
    have hnone : namesOf tasks gap=[] := List.filterMap_eq_nil_iff.mpr hgap
    rwa [namesOf,List.filterMap_append,←namesOf,←namesOf,hnone,List.append_nil] at hclosed

/-- A validated graph. Insertion order is the deterministic tie break. -/
structure WorkflowSpec where
  /-- The tasks. -/
  tasks : List TaskNode
  /-- What adding them has checked. -/
  wellNamed : WellNamed tasks
  /-- Every declared predecessor is a task. -/
  depsKnown : ∀ t∈tasks, ∀ d∈t.deps, d∈tasks.map TaskNode.id
  /-- No task is on or behind a cycle. -/
  ordered : Ordered tasks

/-- Without an unknown predecessor every declared one is a task. -/
theorem depsKnown_of_unknownPredecessor {tasks : List TaskNode}
    (h : unknownPredecessor tasks=none) : ∀ t∈tasks, ∀ d∈t.deps, d∈tasks.map TaskNode.id := by
  intro t ht d hd
  have hfind := List.findSome?_eq_none_iff.mp h t ht
  rw [Option.map_eq_none_iff,List.find?_eq_none] at hfind
  have hknown := hfind d hd
  simp only [isTask,Bool.not_eq_true',Bool.not_eq_false,List.any_eq_true,decide_eq_true_eq]
    at hknown
  exact List.mem_map.mpr hknown

/-- Validates predecessors and rejects cycles. -/
def WorkflowBuilder.build (b : WorkflowBuilder) : Except WorkflowError WorkflowSpec :=
  match hknown : unknownPredecessor b.tasks with
  | some (task,predecessor) => .error (.unknownPredecessor task predecessor)
  | none =>
    if hall : (peel b.tasks).peeled=b.tasks.length then
      .ok ⟨b.tasks,b.wellNamed,depsKnown_of_unknownPredecessor hknown,
        ordered_of_all_peeled b.wellNamed hall⟩
    else .error (.cycle (findCycle b.tasks (peel b.tasks).indegree))

namespace WorkflowSpec

variable (spec : WorkflowSpec)

/-- Task names in insertion order. -/
def taskIds : List TaskId := spec.tasks.map TaskNode.id

/-- Number of tasks. -/
def len : ℕ := spec.tasks.length

/-- Names of tasks of this graph. Looking one up cannot fail. -/
abbrev Task : Type := {id : TaskId // id∈spec.taskIds}

/-- Every task in insertion order. -/
def ids : List spec.Task := spec.taskIds.attach

@[simp] theorem mem_ids (t : spec.Task) : t∈spec.ids := List.mem_attach _ t

theorem length_ids : spec.ids.length=spec.len := by
  rw [ids,List.length_attach,taskIds,List.length_map,len]

theorem node_isSome (t : spec.Task) : (spec.tasks.find? fun n => n.id=t.1).isSome=true := by
  rw [List.find?_isSome]
  obtain ⟨n,hn,hid⟩ := List.mem_map.mp t.2
  exact ⟨n,hn,decide_eq_true hid⟩

/-- The node of a task. -/
def node (t : spec.Task) : TaskNode := (spec.tasks.find? fun n => n.id=t.1).get (spec.node_isSome t)

theorem node_mem (t : spec.Task) : spec.node t∈spec.tasks :=
  List.mem_of_find?_eq_some (Option.some_get (spec.node_isSome t)).symm

theorem node_id (t : spec.Task) : (spec.node t).id=t.1 := by
  have h := List.find?_some (Option.some_get (spec.node_isSome t)).symm
  exact of_decide_eq_true h

/-- The declared predecessors of a task, each a task of the graph. -/
def deps (t : spec.Task) : List spec.Task :=
  (spec.node t).deps.attach.map fun d => ⟨d.1,spec.depsKnown _ (spec.node_mem t) d.1 d.2⟩

theorem mem_deps {t d : spec.Task} : d∈spec.deps t ↔ d.1∈(spec.node t).deps := by
  simp [deps,Subtype.ext_iff]

/-- Following predecessors ends. -/
theorem deps_wellFounded : WellFounded fun d t => d∈spec.deps t := by
  obtain ⟨order,hall,hclosed⟩ := spec.ordered
  refine wellFounded_of_order (Subtype.val : spec.Task → TaskId) order (fun t => ?_)
    fun before t after horder d hd => ?_
  · rw [←spec.node_id t]
    exact hall _ (spec.node_mem t)
  · rw [←spec.node_id t] at horder
    exact hclosed _ (spec.node_mem t) before after horder d.1 (spec.mem_deps.mp hd)

end WorkflowSpec

end AegisRuntime.WorkflowGraph
