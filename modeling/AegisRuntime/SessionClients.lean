import AegisRuntime.SessionStore

/-!
# Clients of the session store

Any number of clients create sessions, read them, change their copies and submit
them, in any order. What a session row keeps of its clients is a cell with a
version: every call refines an operation on the cells or leaves them alone, so
the history of the cells says that no update is lost.
-/

namespace AegisRuntime.SessionClients

open KeyedTables LabelledRuns SignedColumns VersionedCells SessionStore

/-- The columns that an update writes. -/
structure Columns where
  /-- The parent column. -/
  parentSessionId : Option String
  /-- The text of the state. -/
  status : String
  /-- The objective column. -/
  objective : Option String
  /-- The agent profile column. -/
  agentProfile : String
  /-- The model profile column. -/
  modelProfile : String
  /-- The policy profile column. -/
  policyProfile : String
  /-- The budget column. -/
  budget : SessionBudget
  deriving DecidableEq,Repr

/-- What a row holds in them. -/
def rowColumns (row : SessionRow) : Columns where
  parentSessionId := row.parentSessionId
  status := row.status
  objective := row.objective
  agentProfile := row.agentProfile
  modelProfile := row.modelProfile
  policyProfile := row.policyProfile
  budget := row.budget

/-- What a session writes into them. -/
def sessionColumns (s : Session) : Columns := rowColumns (encodeRow s)

theorem rowColumns_updated (row : SessionRow) (s : Session) (now : ℤ) :
    rowColumns (row.updated s now)=sessionColumns s := rfl

/-- The database and the copies that each client holds. -/
structure StoreState where
  /-- The database. -/
  db : SessionDatabase
  /-- The copies, newest first. -/
  held : ℕ → List Session

/-- Nothing is stored and no client holds anything. -/
def StoreState.start : StoreState := ⟨SessionDatabase.empty,fun _ => []⟩

/-- A client keeps one more copy. -/
def StoreState.hold (s : StoreState) (client : ℕ) (copy : Session) : StoreState :=
  { s with held := Function.update s.held client (copy::s.held client) }

/-- The state after a call: a failed one leaves the database as it was. -/
def StoreState.settle (s : StoreState) (result : Except PersistenceError SessionDatabase) :
    StoreState :=
  match result with
  | .ok db => { s with db := db }
  | .error _ => s

/-- The calls of clients. -/
inductive StoreCall where
  /-- Stores a session; the client keeps its value. -/
  | create (client : ℕ) (session : Session)
  /-- Reads a session. -/
  | get (client : ℕ) (id : String)
  /-- Submits a copy at a time. -/
  | update (client : ℕ) (session : Session) (now : ℤ)
  /-- Appends a message to a session. -/
  | append (client : ℕ) (sessionId : String) (message : Message)

/-- A client submits a copy that it holds and has changed in any way but the
identifier; a version that it wrote itself is one that the column can hold. -/
def MaySubmit (s : StoreState) (client : ℕ) (session : Session) : Prop :=
  (∃ copy∈s.held client, copy.id=session.id) ∧ session.version.toNat < 2^63

instance (s : StoreState) (client : ℕ) (session : Session) : Decidable (MaySubmit s client session) :=
  inferInstanceAs (Decidable (_ ∧ _))

/-- The state after a call. Sessions are created with version one. -/
def storeStep (s : StoreState) : StoreCall → Option StoreState
  | .create client session =>
    if session.version=1 then some ((s.settle (s.db.create session)).hold client session) else none
  | .get client id =>
    match s.db.get id with
    | .ok (some copy) => some (s.hold client copy)
    | .ok none | .error _ => some s
  | .update client session now =>
    if MaySubmit s client session then some (s.settle (s.db.update session now)) else none
  | .append _ sessionId message => some (s.settle (s.db.append sessionId message))

/-- The operation on the cells that a call performs, when it succeeds. -/
def writeOf (s : StoreState) : StoreCall → Option (Op String Columns)
  | .create _ session =>
    match s.db.create session with
    | .ok _ => some (.create session.id (sessionColumns session))
    | .error _ => none
  | .update _ session now =>
    match s.db.update session now with
    | .ok _ => some (.write session.id session.version.toNat (sessionColumns session))
    | .error _ => none
  | .get _ _ | .append _ _ _ => none

/-- The operations along a run, in order. -/
def writes (s : StoreState) : List StoreCall → List (Op String Columns)
  | [] => []
  | call::calls =>
    (writeOf s call).toList++match storeStep s call with
      | some t => writes t calls
      | none => []

/-- The cells that the sessions stand for. -/
def view (db : SessionDatabase) : Cells String Columns :=
  fun id => (db.sessions.find id).map fun row => ⟨row.version.toNat,rowColumns row⟩

/-- What every reachable state satisfies. -/
structure StoreInv (s : StoreState) : Prop where
  /-- Stored versions start with one. -/
  versions : ∀ id row, s.db.sessions.find id=some row → 1 ≤ row.version
  /-- A copy has a version that the column can hold. -/
  copies : ∀ client, ∀ copy∈s.held client, copy.version.toNat < 2^63

variable {s t : StoreState}

theorem mem_hold {client other : ℕ} {copy x : Session} :
    x∈(s.hold client copy).held other ↔ other=client ∧ x=copy ∨ x∈s.held other := by
  change x∈Function.update s.held client (copy::s.held client) other ↔ _
  by_cases hother : other=client
  · subst hother
    simp
  · simp [hother]

theorem StoreInv.hold (h : StoreInv s) {client : ℕ} {copy : Session}
    (hcopy : copy.version.toNat < 2^63) : StoreInv (s.hold client copy) := by
  refine ⟨h.versions,?_⟩
  intro other x hx
  rcases mem_hold.mp hx with ⟨-,rfl⟩|hx
  · exact hcopy
  · exact h.copies other x hx

/-- A call that leaves the versions positive keeps the invariant. -/
theorem StoreInv.settle (h : StoreInv s) {result : Except PersistenceError SessionDatabase}
    (hdb : ∀ db, result=.ok db → ∀ id row, db.sessions.find id=some row → 1 ≤ row.version) :
    StoreInv (s.settle result) := by
  cases result with
  | ok db => exact ⟨hdb db rfl,h.copies⟩
  | error e => exact h

/-- A session that is read has a version that the column can hold. -/
theorem version_of_get {db : SessionDatabase} {id : String} {copy : Session}
    (hpos : ∀ id row, db.sessions.find id=some row → 1 ≤ row.version)
    (h : db.get id=.ok (some copy)) : copy.version.toNat < 2^63 := by
  unfold SessionDatabase.get at h
  split at h
  · next row hrow =>
    have hone := hpos id row hrow
    unfold decodeRow at h
    split at h
    · next hlt =>
      split at h
      · cases h
      · cases h
        change (asU64 row.version).toNat < 2^63
        rw [toNat_asU64 (by omega) hlt]
        omega
    · cases h
  · cases h

theorem StoreInv.step (h : StoreInv s) {call : StoreCall} (hstep : storeStep s call=some t) :
    StoreInv t := by
  cases call with
  | create client session =>
    simp only [storeStep] at hstep
    split at hstep
    · next hone =>
      cases hstep
      refine (h.settle ?_).hold (by rw [hone]; decide)
      intro db hdb id row hrow
      rw [find_of_create hdb] at hrow
      split at hrow
      · cases hrow
        change 1 ≤ asI64 session.version
        rw [hone]
        decide
      · exact h.versions id row hrow
    · cases hstep
  | get client id =>
    simp only [storeStep] at hstep
    split at hstep
    · next copy hcopy =>
      cases hstep
      exact h.hold (version_of_get h.versions hcopy)
    · cases hstep
      exact h
    · cases hstep
      exact h
  | update client session now =>
    simp only [storeStep] at hstep
    split at hstep
    · cases hstep
      refine h.settle ?_
      intro db hdb id row hrow
      obtain ⟨old,hold,-,hfind⟩ := find_of_update hdb
      rw [hfind] at hrow
      split at hrow
      · cases hrow
        have hpos := h.versions _ old hold
        change 1 ≤ old.version+1
        omega
      · exact h.versions id row hrow
    · cases hstep
  | append client id message =>
    cases hstep
    refine h.settle ?_
    intro db hdb id row hrow
    rw [sessions_of_append hdb] at hrow
    exact h.versions id row hrow

/-- Creating a session creates its cell. -/
theorem view_of_create {db db' : SessionDatabase} {session : Session} (hone : session.version=1)
    (h : db.create session=.ok db') :
    accept (view db) (.create session.id (sessionColumns session))=some (view db') := by
  have hfresh : db.sessions.find session.id=none := by
    exact Table.find_eq_none_iff.mpr (Table.insert_rows (create_ok h).1).2
  have hview : view db'=
      Function.update (view db) session.id (some ⟨1,sessionColumns session⟩) := by
    funext id
    by_cases hid : session.id=id
    · subst hid
      rw [Function.update_self,view,find_of_create h,if_pos rfl,Option.map_some]
      have hversion : (encodeRow session).version=1 := by
        change asI64 session.version=1
        rw [hone]
        decide
      rw [hversion]
      rfl
    · rw [Function.update_of_ne (Ne.symm hid),view,find_of_create h,if_neg hid]
      rfl
  have hnone : view db session.id=none := by rw [view,hfresh,Option.map_none]
  rw [hview]
  simp only [accept,hnone]

/-- An accepted update writes over the version that was submitted. -/
theorem view_of_update {db db' : SessionDatabase} {session : Session} {now : ℤ}
    (hlt : session.version.toNat < 2^63) (h : db.update session now=.ok db') :
    accept (view db) (.write session.id session.version.toNat (sessionColumns session))=
      some (view db') := by
  obtain ⟨row,hrow,hversion,hfind⟩ := find_of_update h
  rw [asI64_of_lt hlt] at hversion
  have hview : view db'=Function.update (view db) session.id
      (some ⟨session.version.toNat+1,sessionColumns session⟩) := by
    funext id
    by_cases hid : id=session.id
    · subst hid
      rw [Function.update_self,view,hfind,if_pos rfl,Option.map_some,rowColumns_updated]
      have hraised : (row.updated session now).version.toNat=session.version.toNat+1 := by
        change (row.version+1).toNat=_
        omega
      rw [hraised]
    · rw [Function.update_of_ne hid,view,hfind,if_neg hid]
      rfl
  have hcell : view db session.id=some ⟨session.version.toNat,rowColumns row⟩ := by
    rw [view,hrow,Option.map_some,hversion,Int.toNat_natCast]
  rw [hview]
  simp only [accept,hcell,if_true]

/-- Every call performs its operation on the cells. -/
theorem storeStep_refines {call : StoreCall} (hstep : storeStep s call=some t) :
    runs accept (view s.db) (writeOf s call).toList=some (view t.db) := by
  cases call with
  | create client session =>
    simp only [storeStep] at hstep
    split at hstep
    · next hone =>
      cases hstep
      simp only [writeOf]
      cases hcreate : s.db.create session with
      | ok db => exact runs_cons_iff.mpr ⟨_,view_of_create hone hcreate,rfl⟩
      | error e => rfl
    · cases hstep
  | get client id =>
    simp only [storeStep] at hstep
    split at hstep <;> (cases hstep; rfl)
  | update client session now =>
    simp only [storeStep] at hstep
    split at hstep
    · next hmay =>
      cases hstep
      simp only [writeOf]
      cases hupdate : s.db.update session now with
      | ok db => exact runs_cons_iff.mpr ⟨_,view_of_update hmay.2 hupdate,rfl⟩
      | error e => rfl
    · cases hstep
  | append client id message =>
    cases hstep
    cases happend : s.db.append id message with
    | ok db =>
      have hview : view db=view s.db := by
        unfold view
        rw [sessions_of_append happend]
      exact congrArg some hview.symm
    | error e => rfl

/-- The operations along a run lead from the cells at its start to those at its
end. -/
theorem runs_refine {calls : List StoreCall} (h : runs storeStep s calls=some t) :
    runs accept (view s.db) (writes s calls)=some (view t.db) := by
  induction calls generalizing s with
  | nil =>
    cases h
    rfl
  | cons call calls ih =>
    obtain ⟨u,hu,hrest⟩ := runs_cons_iff.mp h
    simp only [writes,hu]
    exact runs_append_iff.mpr ⟨view u.db,storeStep_refines hu,ih hrest⟩

/-- A run of clients on an empty database. -/
structure StoreRun where
  /-- The calls, in the order in which the connection serves them. -/
  calls : List StoreCall
  /-- The state they lead to. -/
  state : StoreState
  /-- They lead to it. -/
  ran : runs storeStep StoreState.start calls=some state

/-- The operations of a run that succeeded. -/
def StoreRun.writes (r : StoreRun) : List (Op String Columns) :=
  SessionClients.writes StoreState.start r.calls

theorem StoreRun.inv (r : StoreRun) : StoreInv r.state := by
  refine run_invariant (I:=StoreInv) ?_ (fun s call t hs hstep => hs.step hstep) r.ran
  exact ⟨nofun,nofun⟩

theorem StoreRun.history (r : StoreRun) : History r.writes (view r.state.db) :=
  history_of_run (runs_refine r.ran)

/-- A client may submit every copy that it holds, changed in any way but its
identifier and its version. -/
theorem StoreRun.may_submit (r : StoreRun) {client : ℕ} {copy session : Session}
    (hcopy : copy∈r.state.held client) (hid : session.id=copy.id)
    (hversion : session.version=copy.version) : MaySubmit r.state client session := by
  refine ⟨⟨copy,hcopy,hid.symm⟩,?_⟩
  rw [hversion]
  exact r.inv.copies client copy hcopy

/-- What an update that succeeds does to the sessions. -/
structure Updated (before after : SessionDatabase) (session : Session) : Prop where
  /-- The row of the session takes the submitted columns and the next version. -/
  row : ∃ old new, before.sessions.find session.id=some old ∧
    after.sessions.find session.id=some new ∧ old.version=session.version.toNat ∧
    new.version=session.version.toNat+1 ∧ rowColumns new=sessionColumns session
  /-- Other rows stay. -/
  others : ∀ id, id≠session.id → after.sessions.find id=before.sessions.find id

theorem updated_of_update {db db' : SessionDatabase} {session : Session} {now : ℤ}
    (hlt : session.version.toNat < 2^63) (h : db.update session now=.ok db') :
    Updated db db' session := by
  obtain ⟨row,hrow,hversion,hfind⟩ := find_of_update h
  rw [asI64_of_lt hlt] at hversion
  refine ⟨⟨row,row.updated session now,hrow,?_,hversion,?_,rowColumns_updated row session now⟩,?_⟩
  · rw [hfind,if_pos rfl]
  · change row.version+1=_
    rw [hversion]
  · intro id hid
    rw [hfind,if_neg hid]

/-- No update of a session is lost. In every state that any clients reach, a client may
submit every copy that it holds, changed in any way but its identifier and its version; a
submitted copy is accepted exactly when its version is the stored one; then the
row takes its columns and the next version, and otherwise nothing changes. The
versions that were written over are one, two, three and so on, each once, and
every row holds the columns of the last accepted write. -/
theorem no_lost_update (r : StoreRun) :
    (∀ client, ∀ copy∈r.state.held client, ∀ session : Session, session.id=copy.id →
      session.version=copy.version → MaySubmit r.state client session) ∧
    (∀ client session now t, storeStep r.state (.update client session now)=some t →
      ((∃ db, r.state.db.update session now=.ok db) ↔
        ∃ row∈r.state.db.sessions.rows,
          row.id=session.id ∧ row.version=session.version.toNat) ∧
      (∀ db, r.state.db.update session now=.ok db →
        t.db=db ∧ Updated r.state.db db session) ∧
      ∀ e, r.state.db.update session now=.error e → t=r.state) ∧
    ∀ row∈r.state.db.sessions.rows,
      versionsOf row.id r.writes++[row.version.toNat]=List.range' 1 row.version.toNat ∧
      (versionsOf row.id r.writes).Nodup ∧
      (valuesOf row.id r.writes).getLast?=some (rowColumns row) := by
  refine ⟨fun client copy hcopy session => r.may_submit hcopy,?_,?_⟩
  · intro client session now t hstep
    simp only [storeStep] at hstep
    split at hstep
    · next hmay =>
      cases hstep
      refine ⟨?_,?_,?_⟩
      · rw [update_ok_iff,asI64_of_lt hmay.2]
      · intro db hdb
        rw [hdb]
        exact ⟨rfl,updated_of_update hmay.2 hdb⟩
      · intro e he
        rw [he]
        rfl
    · cases hstep
  · intro row hrow
    have hfind := Table.find_eq_some_iff.mpr ⟨hrow,rfl⟩
    have hcell : view r.state.db row.id=some ⟨row.version.toNat,rowColumns row⟩ := by
      rw [view,hfind,Option.map_some]
    have hvalues := r.history.values row.id
    rw [hcell] at hvalues
    exact ⟨r.history.versions _ _ hcell,r.history.versions_nodup row.id,hvalues.symm⟩

/-- Two clients submit copies of one version; the second submits it again after
a new read. -/
def contention : List StoreCall :=
  let copy (objective : String) (version : UInt64) : Session :=
    { firstSession with objective := some objective, version := version }
  [.create 0 firstSession,.get 1 "parent",.update 0 (copy "left" 1) 1,.update 1 (copy "right" 1) 2,
    .get 1 "parent",.update 1 (copy "right" 2) 3]

example : (writes .start contention).map (fun op => (op.over,op.value.objective))=
    [(none,none),(some 1,some "left"),(some 2,some "right")] := by rfl

end AegisRuntime.SessionClients
