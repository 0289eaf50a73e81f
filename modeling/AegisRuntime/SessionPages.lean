import AegisRuntime.LinkedStores
import AegisRuntime.RowPages

/-!
# Listing the sessions page by page

`SessionStore::list` answers pages of the sessions, last changed first and without their
messages. Between two pages any client may call any store. A write moves a session to
the front, so a session that is left alone only moves back: a client that reads on until
a page comes back short has seen it.
-/

namespace AegisRuntime.SessionPages

open KeyedTables SignedColumns RowStores RowPages SessionStore MessageLog LinkedStores

/-- The column of `ORDER BY updated_at DESC`. -/
def updatedLast (row : SessionRow) : ℤᵒᵈ := OrderDual.toDual row.updatedAt

/-- `ORDER BY updated_at DESC`. -/
abbrev SessionOrder : Type := RowOrder updatedLast

/-- `SessionStore::list`: a page of the sessions, without their messages. -/
def list (order : SessionOrder) (sessions : Table SessionRow.id) (limit offset : UInt64) :
    Except PersistenceError (List Session) :=
  (limited (asI64 limit) (asI64 offset) (order.arrange sessions.rows)).mapM fun row =>
    decodeRow row []

/-- A client reads page after page, each of the database as the calls in between have left
it, until a page is not full. -/
inductive Paged (engine : Engine) (limit : UInt64) :
    ℕ → StoreHistory → List (List StoreCall) → List (List Session) → Prop where
  | last {k : ℕ} {h : StoreHistory} {page : List Session} {offset : UInt64} (order : SessionOrder)
    (hoffset : offset.toNat=k*limit.toNat) (hfits : offset.toNat < 2^63)
    (hlist : list order h.db.conversations.sessions limit offset=.ok page)
    (hshort : page.length < limit.toNat) : Paged engine limit k h [] [page]
  | more {k : ℕ} {h : StoreHistory} {page : List Session} {offset : UInt64} {calls : List StoreCall}
    {interludes : List (List StoreCall)} {pages : List (List Session)} (order : SessionOrder)
    (hoffset : offset.toNat=k*limit.toNat) (hfits : offset.toNat < 2^63)
    (hlist : list order h.db.conversations.sessions limit offset=.ok page)
    (hrest : Paged engine limit (k+1) (h.afterAll engine calls) interludes pages) :
    Paged engine limit k h (calls::interludes) (page::pages)

/-- A call that leaves a session alone and dates what it writes later. -/
def Spares (id : String) (updatedAt : ℤ) : StoreCall → Prop
  | .createSession _ s => updatedAt < s.updatedAt
  | .updateSession _ s now => s.id≠id ∧ updatedAt < now
  | _ => True

variable {engine : Engine} {db db' : Database} {h : StoreHistory} {call : StoreCall}
  {row : SessionRow} {limit offset : UInt64} {order : SessionOrder}

/-- What a call may do with the sessions: nothing, a new row or a new version of a row. -/
inductive SessionWrite (t : Table SessionRow.id) : StoreCall → Table SessionRow.id → Prop where
  | kept (call : StoreCall) : SessionWrite t call t
  | created {refusal : Option String} {s : Session} {t' : Table SessionRow.id}
    (hinsert : t.insert (encodeRow s)=some t') : SessionWrite t (.createSession refusal s) t'
  | updated (refusal : Option String) (s : Session) (now : ℤ) :
    SessionWrite t (.updateSession refusal s now)
      (t.modify s.id (matchVersion s now) (matchVersion_id s now))

/-- What a call does with the sessions. -/
theorem sessionWrite_after (engine : Engine) (h : StoreHistory) (call : StoreCall) :
    SessionWrite h.db.conversations.sessions call
      (h.after engine call).db.conversations.sessions := by
  rcases after_cases engine h call with hsame|⟨db',heffect,hafter⟩
  · rw [hsame]
    exact .kept call
  · rw [hafter]
    cases heffect with
    | createSession hinsert => exact .created hinsert
    | updateSession => exact .updated _ _ _
    | append | createRun | updateRun | createAction | updateAction | createApproval
      | updateApproval => exact .kept _

/-- The row stands in the table, and no other has its time. -/
def Stands (t : Table SessionRow.id) (row : SessionRow) : Prop :=
  row∈t.rows ∧ ∀ other∈t.rows, updatedLast other=updatedLast row → other=row

/-- A call that spares a row leaves it standing and brings it no further forward. -/
theorem SessionWrite.stands {t t' : Table SessionRow.id} (hwrite : SessionWrite t call t')
    (hspares : Spares row.id row.updatedAt call) (hstands : Stands t row) :
    Stands t' row ∧ rank updatedLast t.rows row ≤ rank updatedLast t'.rows row := by
  cases hwrite with
  | kept => exact ⟨hstands,le_rfl⟩
  | @created _ s _ hinsert =>
    have hrows := (Table.insert_rows hinsert).1
    refine ⟨⟨?_,fun other hother hsame => ?_⟩,?_⟩
    · rw [hrows]
      exact List.mem_append_left _ hstands.1
    · rw [hrows] at hother
      rcases List.mem_append.mp hother with hother|hother
      · exact hstands.2 other hother hsame
      · rw [List.mem_singleton.mp hother] at hsame
        have hlater : row.updatedAt < s.updatedAt := hspares
        exact absurd hlater (Int.not_lt.mpr (OrderDual.toDual.injective hsame).le)
    · rw [hrows]
      exact rank_le_append _ _ _ _
  | updated refusal s now =>
    obtain ⟨hid,hlater⟩ : s.id≠row.id ∧ row.updatedAt < now := hspares
    -- a written row is later than `row`, and no other row is changed
    have hchange : ∀ old : SessionRow, (if old.id=s.id then matchVersion s now old else old)=old ∨
        row.updatedAt < (if old.id=s.id then matchVersion s now old else old).updatedAt := by
      intro old
      unfold matchVersion
      split
      · split
        · exact .inr hlater
        · exact .inl rfl
      · exact .inl rfl
    refine ⟨⟨?_,fun other hother hsame => ?_⟩,?_⟩
    · refine List.mem_map.mpr ⟨row,hstands.1,if_neg (Ne.symm hid)⟩
    · obtain ⟨old,hold,rfl⟩ := List.mem_map.mp hother
      rcases hchange old with heq|hlt
      · rw [heq] at hsame ⊢
        exact hstands.2 old hold hsame
      · exact absurd hlt (Int.not_lt.mpr (OrderDual.toDual.injective hsame).le)
    · exact rank_le_map hchange t.rows

/-- So do any calls that spare it. -/
theorem stands_afterAll (engine : Engine) {calls : List StoreCall}
    (hspares : ∀ call∈calls, Spares row.id row.updatedAt call)
    (hstands : Stands h.db.conversations.sessions row) :
    Stands (h.afterAll engine calls).db.conversations.sessions row ∧
      rank updatedLast h.db.conversations.sessions.rows row ≤
        rank updatedLast (h.afterAll engine calls).db.conversations.sessions.rows row := by
  induction calls generalizing h with
  | nil => exact ⟨hstands,le_rfl⟩
  | cons call calls ih =>
    obtain ⟨hcall,hcalls⟩ := List.forall_mem_cons.mp hspares
    obtain ⟨hafter,hrank⟩ := (sessionWrite_after engine h call).stands hcall hstands
    obtain ⟨hend,hrank'⟩ := ih hcalls hafter
    exact ⟨hend,hrank.trans hrank'⟩

/-- The session of a row as it is got. -/
theorem get_of_decodeRow (engine : Engine) (calls : List StoreCall) {s : Session}
    (hrow : row∈(history engine calls).db.conversations.sessions.rows)
    (hdecode : decodeRow row []=.ok s) :
    ∃ ms, (history engine calls).db.conversations.get engine.runs.serde s.id=
      .ok (some { s with messages := ms }) := by
  have hid := (decodeRow_ok hdecode).1
  obtain ⟨ms,hms,-⟩ := list_stored engine.runs.serde (sound_history engine calls).inLine.messages s.id
  have hfind : (history engine calls).db.conversations.sessions.find s.id=some row :=
    Table.find_eq_some_iff.mpr ⟨hrow,hid.symm⟩
  refine ⟨ms,?_⟩
  rw [get_stored hfind hms,hdecode]
  rfl

/-- What a page is. -/
structure IsPage (engine : Engine) (db : Database) (limit offset : UInt64)
    (page : List Session) : Prop where
  /-- Its sessions are what their reads answer, but for the messages. -/
  read : ∀ s∈page, s.messages=[] ∧ ∃ ms,
    db.conversations.get engine.runs.serde s.id=.ok (some { s with messages := ms })
  /-- They are different sessions. -/
  distinct : (page.map Session.id).Nodup
  /-- The last changed come first. -/
  ordered : page.Pairwise fun a b => b.updatedAt ≤ a.updatedAt
  /-- They are as many as there are. -/
  full : limit.toNat < 2^63 → offset.toNat < 2^63 →
    page.length=min limit.toNat (db.sessionIds.length-offset.toNat)

theorem asI64_toNat (n : UInt64) (h : n.toNat < 2^63) : 0 ≤ asI64 n ∧ (asI64 n).toNat=n.toNat := by
  rw [asI64_of_lt h]
  exact ⟨Int.natCast_nonneg _,Int.toNat_natCast _⟩

/-- An answered page is one. -/
theorem isPage_of_list (engine : Engine) (calls : List StoreCall) {page : List Session}
    (hlist : list order (history engine calls).db.conversations.sessions limit offset=.ok page) :
    IsPage engine (history engine calls).db limit offset page := by
  have hperm := order.arrange_perm (history engine calls).db.conversations.sessions.rows
  have hsub := limited_sublist (asI64 limit) (asI64 offset)
    (order.arrange (history engine calls).db.conversations.sessions.rows)
  have hids : page.map Session.id=_ := map_decoded (fun _ _ h => (decodeRow_ok h).1) hlist
  have htimes : page.map Session.updatedAt=_ :=
    map_decoded (fun _ _ h => (decodeRow_ok h).2.2.1) hlist
  refine ⟨fun s hs => ?_,?_,?_,fun hlimit hoffset => ?_⟩
  · obtain ⟨row,hrow,hdecode⟩ := exists_left (decodes_of_mapM hlist) hs
    have hmem := hperm.subset (hsub.subset hrow)
    exact ⟨(decodeRow_ok hdecode).2.2.2,get_of_decodeRow engine calls hmem hdecode⟩
  · rw [hids]
    have hnodup := (history engine calls).db.conversations.sessions.keys_nodup
    exact ((hperm.map SessionRow.id).nodup_iff.mpr hnodup).sublist (hsub.map SessionRow.id)
  · have hsorted := (order.arrange_sorted
      (history engine calls).db.conversations.sessions.rows).sublist hsub
    rw [←List.pairwise_map (f:=Session.updatedAt) (R:=fun a b => b ≤ a),htimes,List.pairwise_map]
    exact hsorted
  · obtain ⟨hpos,hlimit'⟩ := asI64_toNat limit hlimit
    rw [←List.length_map (f:=Session.id),hids,List.length_map,length_limited hpos,hlimit',
      (asI64_toNat offset hoffset).2,hperm.length_eq,Database.sessionIds,List.length_map]

/-- A page is answered unless a version on it is used up. -/
theorem exists_used_up (engine : Engine) (calls : List StoreCall) {e : PersistenceError}
    (hlist : list order (history engine calls).db.conversations.sessions limit offset=.error e) :
    ∃ row∈(history engine calls).db.conversations.sessions.rows, 2^63 ≤ row.version := by
  obtain ⟨row,hrow,hfails⟩ := fails_of_mapM hlist
  have hmem := (order.arrange_perm _).subset ((limited_sublist _ _ _).subset hrow)
  refine ⟨row,hmem,?_⟩
  by_contra hversion
  obtain ⟨status,hstatus⟩ := (sound_history engine calls).statuses row hmem
  obtain ⟨s,hs⟩ := decodeRow_known hstatus (Int.not_le.mp hversion)
  rw [hs] at hfails
  cases hfails

/-- The pages that a client reads are a sweep over the rows as they are at each read. Where
the calls in between spare a row, it stands and is never brought forward. -/
theorem Paged.sweep {k : ℕ} {interludes : List (List StoreCall)} {pages : List (List Session)}
    (row : SessionRow) (hlimit : limit.toNat < 2^63)
    (hpaged : Paged engine limit k h interludes pages)
    (hspares : ∀ calls∈interludes, ∀ call∈calls, Spares row.id row.updatedAt call)
    (hstands : Stands h.db.conversations.sessions row) :
    ∃ views rowPages, Sweep updatedLast limit.toNat k (h.db.conversations.sessions.rows::views)
        rowPages ∧
      List.Forall₂ (fun rows page => rows.mapM (fun row => decodeRow row [])=.ok page) rowPages
        pages ∧
      (∀ rows∈h.db.conversations.sessions.rows::views,
        row∈rows ∧ ∀ b∈rows, updatedLast b=updatedLast row → b=row) ∧
      ((h.db.conversations.sessions.rows::views).map fun rows =>
        rank updatedLast rows row).Pairwise (· ≤ ·) := by
  -- the rows of one page, as the sweep has them
  have hread : ∀ {k : ℕ} {h : StoreHistory} {page : List Session} {offset : UInt64}
      (order : SessionOrder), offset.toNat=k*limit.toNat → offset.toNat < 2^63 →
      list order h.db.conversations.sessions limit offset=.ok page →
      (limited limit.toNat (k*limit.toNat : ℕ)
        (order.arrange h.db.conversations.sessions.rows)).mapM (fun row => decodeRow row [])=
        .ok page := by
    intro k h page offset order hoffset hfits hlist
    rwa [list,asI64_of_lt hlimit,asI64_of_lt hfits,hoffset] at hlist
  induction hpaged with
  | @last k h page offset order hoffset hfits hlist hshort =>
    have hrows := hread order hoffset hfits hlist
    have hlength := (decodes_of_mapM hrows).length_eq
    refine ⟨[],[_],.last order (hlength.trans_lt hshort),.cons hrows .nil,?_,?_⟩
    · intro rows hrows
      rw [List.mem_singleton.mp hrows]
      exact hstands
    · exact List.pairwise_singleton _ _
  | @more k h page offset calls interludes pages order hoffset hfits hlist hrest ih =>
    obtain ⟨hcalls,hinterludes⟩ := List.forall_mem_cons.mp hspares
    obtain ⟨hstands',hrank⟩ := stands_afterAll engine hcalls hstands
    obtain ⟨views,rowPages,hsweep,hpages,hall,hkept⟩ := ih hinterludes hstands'
    refine ⟨_::views,_::rowPages,.more order hsweep,.cons (hread order hoffset hfits hlist) hpages,
      List.forall_mem_cons.mpr ⟨hstands,hall⟩,List.pairwise_cons.mpr ⟨fun later hlater => ?_,hkept⟩⟩
    rw [List.map_cons] at hlater hkept
    rcases List.mem_cons.mp hlater with rfl|hlater
    · exact hrank
    · exact hrank.trans ((List.pairwise_cons.mp hkept).1 later hlater)

/-- The session list can be paged. A page that is answered has different sessions as they
are got but for their messages, the last changed first and as many as there are, and one
is not answered only when a version is used up. A client that reads page after page until
one is not full, while any calls of any stores come in between, sees every session that
these calls leave alone, if no other session has its time and later writes are dated later. -/
theorem sessions_paged (engine : Engine) (calls : List StoreCall) :
    (∀ order limit offset page,
        list order (history engine calls).db.conversations.sessions limit offset=.ok page →
        IsPage engine (history engine calls).db limit offset page) ∧
      (∀ order limit offset e,
        list order (history engine calls).db.conversations.sessions limit offset=.error e →
        ∃ row∈(history engine calls).db.conversations.sessions.rows, 2^63 ≤ row.version) ∧
      ∀ limit : UInt64, limit.toNat < 2^63 → ∀ interludes pages,
        Paged engine limit 0 (history engine calls) interludes pages → ∀ id s,
        (history engine calls).db.conversations.get engine.runs.serde id=.ok (some s) →
        (∀ row∈(history engine calls).db.conversations.sessions.rows,
          row.updatedAt=s.updatedAt → row.id=id) →
        (∀ between∈interludes, ∀ call∈between, Spares id s.updatedAt call) →
        ∃ page∈pages, { s with messages := [] }∈page := by
  refine ⟨fun order limit offset page => isPage_of_list engine calls,
    fun order limit offset e => exists_used_up engine calls,
    fun limit hlimit interludes pages hpaged id s hget hsole hspares => ?_⟩
  obtain ⟨row,hfind,hdecode⟩ := (sound_history engine calls).session_stored engine hget
  obtain ⟨hrow,hid⟩ := Table.find_eq_some_iff.mp hfind
  obtain ⟨-,-,htime,-⟩ := decodeRow_ok hdecode
  have hstands : Stands (history engine calls).db.conversations.sessions row := by
    refine ⟨hrow,fun other hother hsame => ?_⟩
    have htimes : other.updatedAt=s.updatedAt :=
      (OrderDual.toDual.injective hsame).trans htime.symm
    exact Table.eq_of_key hother hrow ((hsole other hother htimes).trans hid.symm)
  obtain ⟨views,rowPages,hsweep,hpages,hall,hkept⟩ := hpaged.sweep row hlimit
    (by rwa [hid,←htime]) hstands
  obtain ⟨rowPage,hmem,hseen⟩ := hsweep.sees hall hkept fun rows _ => by
    rw [Nat.zero_mul]
    exact Nat.zero_le _
  obtain ⟨page,hpage,hdecoded⟩ := exists_left (R:=fun page rows => rows.mapM (fun row =>
    decodeRow row [])=.ok page) hpages.flip hmem
  refine ⟨page,hpage,?_⟩
  obtain ⟨s',hs',heq⟩ := exists_left (decodes_of_mapM hdecoded).flip hseen
  rw [hdecode] at heq
  cases heq
  exact hs'

/-- Two pages of two, between which the newest of three sessions is written once more. -/
example : Paged default 2 0 (history default [.createSession none (.new "a" none 1),
      .createSession none (.new "b" none 2),.createSession none (.new "c" none 3)])
    [[.updateSession none (.new "c" none 3) 4]]
    [[.new "c" none 3,.new "b" none 2],[.new "a" none 1]] := by
  have hfirst : (0 : UInt64).toNat < 2^63 := by decide
  have hsecond : (2 : UInt64).toNat < 2^63 := by decide
  exact .more default rfl hfirst rfl (.last default rfl hsecond rfl (by decide))

end AegisRuntime.SessionPages
