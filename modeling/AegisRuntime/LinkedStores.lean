import AegisRuntime.ActionRecords
import AegisRuntime.ApprovalRecords
import AegisRuntime.MessageLog
import AegisRuntime.RunRecords
import AegisRuntime.TableReferences

/-!
# The five stores over one database

Sessions, messages, runs, actions and approvals in the tables of one connection,
under calls of any clients in any order; each call is atomic under the mutex. A
step appends rows whose references are met or rewrites columns that are no part
of what a row is. It follows that no reference ever dangles, that what was stored
stays what it was, and that every store answers from its own calls alone. Two things
that are stored may not be answered: a session whose version is used up, and an action
whose parameters the JSON crate does not read back.
-/

namespace AegisRuntime.LinkedStores

open KeyedTables WriteHistories RowStores TableReferences SessionStore MessageLog
open RunRecords (RunTable RunText runEncoding)
open ActionRecords (Action ActionOrder ActionTable ActionText actionEncoding)
open ApprovalRecords (Approval ApprovalOrder ApprovalTable ApprovalText approvalEncoding)
open RunStore (Run)

/-- The engine and the JSON crate, as far as the queries leave them a choice. -/
structure Engine where
  /-- The choices for runs, and the JSON crate. -/
  runs : RunRecords.Engine
  /-- The JSON crate at values of any shape. -/
  values : StoredValues.ValueReader
  /-- `ORDER BY created_at ASC`. -/
  actions : ActionOrder
  /-- `ORDER BY requested_at ASC`. -/
  approvals : ApprovalOrder

/-- The grammar's readers and insertion sort. -/
instance : Inhabited Engine where
  default := ⟨default,default,default,default⟩

/-- The tables. -/
structure Database where
  /-- `sessions` and `messages`. -/
  conversations : MessageDatabase
  /-- `runs`. -/
  runs : RunTable
  /-- `actions`. -/
  actions : ActionTable
  /-- `approvals`. -/
  approvals : ApprovalTable

/-- No rows. -/
def Database.empty : Database where
  conversations := MessageDatabase.empty
  runs := Table.empty RunText.id
  actions := Table.empty ActionText.id
  approvals := Table.empty ApprovalText.id

/-- The keys of the sessions. -/
def Database.sessionIds (db : Database) : List String :=
  db.conversations.sessions.rows.map SessionRow.id

/-- The keys of the runs. -/
def Database.runIds (db : Database) : List String := db.runs.rows.map RunText.id

/-- The keys of the actions. -/
def Database.actionIds (db : Database) : List String := db.actions.rows.map ActionText.id

/-- The error of the session and message stores, or of the other stores. -/
abbrev StoreError : Type := SessionStore.PersistenceError ⊕ RunStore.PersistenceError

/-- A call that writes. -/
inductive StoreCall where
  /-- `SessionStore::create`. -/
  | createSession (refusal : Option String) (s : Session)
  /-- `SessionStore::update`. -/
  | updateSession (refusal : Option String) (s : Session) (now : ℤ)
  /-- `MessageStore::append`. -/
  | append (refusal : Option String) (sessionId : String) (m : StampedMessage)
  /-- `RunStore::create`. -/
  | createRun (queryRefusal writeRefusal : Option String) (run : Run)
  /-- `RunStore::update`. -/
  | updateRun (refusal : Option String) (run : Run)
  /-- `ActionStore::create`. -/
  | createAction (refusal : Option String) (action : Action)
  /-- `ActionStore::update`. -/
  | updateAction (refusal : Option String) (action : Action)
  /-- `ApprovalStore::create`. -/
  | createApproval (refusal : Option String) (approval : Approval)
  /-- `ApprovalStore::update`. -/
  | updateApproval (refusal : Option String) (approval : Approval)

/-- Whether the foreign keys of a new action are met. -/
def Database.knowsAction (db : Database) (action : Action) : Bool :=
  decide (action.sessionId∈db.sessionIds) && decide (action.runId∈db.runIds)

/-- Whether the foreign keys of a new approval are met. -/
def Database.knowsApproval (db : Database) (approval : Approval) : Bool :=
  decide (approval.sessionId∈db.sessionIds) && decide (approval.runId∈db.runIds) &&
    decide (approval.actionId∈db.actionIds)

/-- What a call on runs meets. -/
def Database.moment (db : Database) (queryRefusal writeRefusal : Option String) :
    RunRecords.Moment :=
  ⟨db.sessionIds,queryRefusal,writeRefusal⟩

/-- The database with other conversations. -/
def Database.withConversations (db : Database)
    (result : MessageDatabase×Except SessionStore.PersistenceError Unit) :
    Database×Except StoreError Unit :=
  ({ db with conversations := result.1 },result.2.mapError .inl)

/-- A statement on sessions, unless the engine refuses it. -/
def Database.onSessions (db : Database) (refusal : Option String)
    (result : MessageDatabase×Except SessionStore.PersistenceError Unit) :
    Database×Except StoreError Unit :=
  match refusal with
  | some msg => (db,.error (.inl (.sqlite msg)))
  | none => db.withConversations result

/-- The database with other runs. -/
def Database.withRuns (db : Database)
    (result : RunTable×Except RunStore.PersistenceError Unit) : Database×Except StoreError Unit :=
  ({ db with runs := result.1 },result.2.mapError .inr)

/-- The database with other actions. -/
def Database.withActions (db : Database)
    (result : ActionTable×Except RunStore.PersistenceError Unit) :
    Database×Except StoreError Unit :=
  ({ db with actions := result.1 },result.2.mapError .inr)

/-- The database with other approvals. -/
def Database.withApprovals (db : Database)
    (result : ApprovalTable×Except RunStore.PersistenceError Unit) :
    Database×Except StoreError Unit :=
  ({ db with approvals := result.1 },result.2.mapError .inr)

/-- Makes a call. -/
def perform (engine : Engine) (db : Database) : StoreCall → Database×Except StoreError Unit
  | .createSession refusal s => db.onSessions refusal (db.conversations.createSession s)
  | .updateSession refusal s now => db.onSessions refusal (db.conversations.updateSession s now)
  | .append refusal sessionId m =>
    db.withConversations (db.conversations.append refusal sessionId m)
  | .createRun queryRefusal writeRefusal run =>
    db.withRuns (RunRecords.create engine.runs (db.moment queryRefusal writeRefusal) db.runs run)
  | .updateRun refusal run => db.withRuns (RunRecords.update (db.moment none refusal) db.runs run)
  | .createAction refusal action =>
    db.withActions (ActionRecords.create refusal (db.knowsAction action) db.actions action)
  | .updateAction refusal action =>
    db.withActions (ActionRecords.update refusal db.actions action)
  | .createApproval refusal approval =>
    db.withApprovals
      (ApprovalRecords.create refusal (db.knowsApproval approval) db.approvals approval)
  | .updateApproval refusal approval =>
    db.withApprovals (ApprovalRecords.update refusal db.approvals approval)

/-- The successful calls of each store. -/
structure Logs where
  /-- The appended messages. -/
  messages : List Entry := []
  /-- The calls on runs. -/
  runs : List (Write Run) := []
  /-- The calls on actions. -/
  actions : List (Write Action) := []
  /-- The calls on approvals. -/
  approvals : List (Write Approval) := []

/-- The logs after a call that succeeded. -/
def Logs.noted (logs : Logs) : StoreCall → Logs
  | .createSession _ _ | .updateSession _ _ _ => logs
  | .append _ sessionId m => { logs with messages := logs.messages++[(sessionId,m)] }
  | .createRun _ _ run => { logs with runs := logs.runs++[.created run] }
  | .updateRun _ run => { logs with runs := logs.runs++[.updated run] }
  | .createAction _ action => { logs with actions := logs.actions++[.created action] }
  | .updateAction _ action => { logs with actions := logs.actions++[.updated action] }
  | .createApproval _ approval => { logs with approvals := logs.approvals++[.created approval] }
  | .updateApproval _ approval => { logs with approvals := logs.approvals++[.updated approval] }

/-- The database and the logs. -/
structure StoreHistory where
  /-- The tables. -/
  db : Database
  /-- The successful calls. -/
  logs : Logs

/-- The history after a call. -/
def StoreHistory.after (engine : Engine) (h : StoreHistory) (call : StoreCall) : StoreHistory :=
  let result := perform engine h.db call
  match result.2 with
  | .ok _ => ⟨result.1,h.logs.noted call⟩
  | .error _ => ⟨result.1,h.logs⟩

/-- The history after some calls. -/
def StoreHistory.afterAll (engine : Engine) (h : StoreHistory) (calls : List StoreCall) :
    StoreHistory :=
  calls.foldl (StoreHistory.after engine) h

/-- The history of a sequence of calls on empty tables. -/
def history (engine : Engine) (calls : List StoreCall) : StoreHistory :=
  StoreHistory.afterAll engine ⟨Database.empty,{}⟩ calls

/-- What a call that succeeds does. -/
inductive Effect (db : Database) : StoreCall → Database → Prop where
  | createSession {refusal : Option String} {s : Session} {t : Table SessionRow.id}
    (hinsert : db.conversations.sessions.insert (encodeRow s)=some t) :
    Effect db (.createSession refusal s) { db with conversations.sessions := t }
  | updateSession {refusal : Option String} {s : Session} {now : ℤ} :
    Effect db (.updateSession refusal s now)
      { db with conversations.sessions :=
        db.conversations.sessions.modify s.id (matchVersion s now) (matchVersion_id s now) }
  | append {refusal : Option String} {sessionId : String} {m : StampedMessage}
    {t : Table MessageText.id} (hknown : sessionId∈db.sessionIds)
    (hinsert : db.conversations.messages.insert
      (MessageLog.encode (nextRowid db.conversations.messages.rows) sessionId m)=some t) :
    Effect db (.append refusal sessionId m) { db with conversations.messages := t }
  | createRun {queryRefusal writeRefusal : Option String} {run : Run} {t : RunTable}
    (hknown : run.sessionId∈db.sessionIds)
    (hinsert : db.runs.insert (RunRecords.encode run)=some t) :
    Effect db (.createRun queryRefusal writeRefusal run) { db with runs := t }
  | updateRun {refusal : Option String} {run : Run} (hmem : run.id∈db.runIds) :
    Effect db (.updateRun refusal run)
      { db with
        runs := db.runs.modify run.id (fun row => row.updated run)
          (RunRecords.RunText.updated_id run) }
  | createAction {refusal : Option String} {action : Action} {t : ActionTable}
    (hknown : action.sessionId∈db.sessionIds ∧ action.runId∈db.runIds)
    (hinsert : db.actions.insert (ActionRecords.encode action)=some t) :
    Effect db (.createAction refusal action) { db with actions := t }
  | updateAction {refusal : Option String} {action : Action} (hmem : action.id∈db.actionIds) :
    Effect db (.updateAction refusal action)
      { db with
        actions := db.actions.modify action.id (fun row => row.updated action)
          (actionEncoding.rowKey_rewrite action) }
  | createApproval {refusal : Option String} {approval : Approval} {t : ApprovalTable}
    (hknown : approval.sessionId∈db.sessionIds ∧ approval.runId∈db.runIds ∧
      approval.actionId∈db.actionIds)
    (hinsert : db.approvals.insert (ApprovalRecords.encode approval)=some t) :
    Effect db (.createApproval refusal approval) { db with approvals := t }
  | updateApproval {refusal : Option String} {approval : Approval}
    (hmem : approval.id∈db.approvals.rows.map ApprovalText.id) :
    Effect db (.updateApproval refusal approval)
      { db with
        approvals := db.approvals.modify approval.id (fun row => row.updated approval)
          (approvalEncoding.rowKey_rewrite approval) }

variable {engine : Engine} {db db' : Database} {h : StoreHistory} {call : StoreCall}

/-- A version that no row has rewrites nothing. -/
theorem modify_stale {t : Table SessionRow.id} {s : Session} {now : ℤ}
    (h : (t.rows.filter fun row => decide (row.id=s.id) &&
      decide (row.version=SignedColumns.asI64 s.version)).length=0) :
    t.modify s.id (matchVersion s now) (matchVersion_id s now)=t := by
  refine Table.eq_of_rows ((List.map_congr_left fun row hrow => ?_).trans (List.map_id t.rows))
  split
  · next hid =>
    refine if_neg fun hversion => ?_
    have hnil := List.eq_nil_of_length_eq_zero h
    exact List.not_mem_nil (hnil ▸ List.mem_filter.mpr ⟨hrow,by simp [hid,hversion]⟩)
  · rfl

/-- A call fails and leaves the database, or has its effect. -/
theorem perform_cases (engine : Engine) (db : Database) (call : StoreCall) :
    (∃ e, perform engine db call=(db,.error e)) ∨
      ∃ db', perform engine db call=(db',.ok ()) ∧ Effect db call db' := by
  cases call with
  | createSession refusal s =>
    cases refusal with
    | some msg => exact .inl ⟨_,rfl⟩
    | none =>
      cases hinsert : db.conversations.sessions.insert (encodeRow s) with
      | none =>
        rw [perform,MessageDatabase.createSession,hinsert]
        exact .inl ⟨_,rfl⟩
      | some t =>
        rw [perform,MessageDatabase.createSession,hinsert]
        exact .inr ⟨_,rfl,.createSession hinsert⟩
  | updateSession refusal s now =>
    cases refusal with
    | some msg => exact .inl ⟨_,rfl⟩
    | none =>
      rw [perform,MessageDatabase.updateSession]
      split
      · next hstale =>
        rw [modify_stale hstale]
        exact .inl ⟨_,rfl⟩
      · exact .inr ⟨_,rfl,.updateSession⟩
  | append refusal sessionId m =>
    rcases append_cases refusal db.conversations sessionId m with ⟨e,he,-⟩|
      ⟨messages,hinsert,hknown,hok⟩
    · rw [perform,he]
      exact .inl ⟨_,rfl⟩
    · rw [perform,hok]
      exact .inr ⟨_,rfl,.append hknown hinsert⟩
  | createRun queryRefusal writeRefusal run =>
    rcases RunRecords.create_cases engine.runs (db.moment queryRefusal writeRefusal) db.runs run
      with ⟨e,he,-⟩|⟨t,-,hinsert,hknown,hok⟩
    · rw [perform,he]
      exact .inl ⟨_,rfl⟩
    · rw [perform,hok]
      exact .inr ⟨_,rfl,.createRun hknown hinsert⟩
  | updateRun refusal run =>
    rcases RunRecords.update_cases (db.moment none refusal) db.runs run with ⟨e,he,-⟩|⟨hmem,hok⟩
    · rw [perform,he]
      exact .inl ⟨_,rfl⟩
    · rw [perform,hok]
      exact .inr ⟨_,rfl,.updateRun hmem⟩
  | createAction refusal action =>
    rcases insertRow_cases (e:=actionEncoding) ActionRecords.actionErrors refusal
      (db.knowsAction action) db.actions action with ⟨e,he,-⟩|⟨t,-,hknown,hinsert,hok⟩
    · rw [perform,ActionRecords.create,he]
      exact .inl ⟨_,rfl⟩
    · rw [Database.knowsAction,Bool.and_eq_true,decide_eq_true_eq,decide_eq_true_eq] at hknown
      rw [perform,ActionRecords.create,hok]
      exact .inr ⟨_,rfl,.createAction hknown hinsert⟩
  | updateAction refusal action =>
    rcases updateRow_cases (e:=actionEncoding) ActionRecords.actionErrors refusal db.actions
      action with ⟨e,he,-⟩|⟨-,hmem,hok⟩
    · rw [perform,ActionRecords.update,he]
      exact .inl ⟨_,rfl⟩
    · rw [perform,ActionRecords.update,hok]
      exact .inr ⟨_,rfl,.updateAction hmem⟩
  | createApproval refusal approval =>
    rcases insertRow_cases (e:=approvalEncoding) ApprovalRecords.approvalErrors refusal
      (db.knowsApproval approval) db.approvals approval with ⟨e,he,-⟩|⟨t,-,hknown,hinsert,hok⟩
    · rw [perform,ApprovalRecords.create,he]
      exact .inl ⟨_,rfl⟩
    · rw [Database.knowsApproval,Bool.and_eq_true,Bool.and_eq_true,decide_eq_true_eq,
        decide_eq_true_eq,decide_eq_true_eq,and_assoc] at hknown
      rw [perform,ApprovalRecords.create,hok]
      exact .inr ⟨_,rfl,.createApproval hknown hinsert⟩
  | updateApproval refusal approval =>
    rcases updateRow_cases (e:=approvalEncoding) ApprovalRecords.approvalErrors refusal
      db.approvals approval with ⟨e,he,-⟩|⟨-,hmem,hok⟩
    · rw [perform,ApprovalRecords.update,he]
      exact .inl ⟨_,rfl⟩
    · rw [perform,ApprovalRecords.update,hok]
      exact .inr ⟨_,rfl,.updateApproval hmem⟩

/-- The columns of a session that no call rewrites. -/
def sessionIdentity (row : SessionRow) : String×ℤ := (row.id,row.createdAt)

/-- The columns of a run that no call rewrites. -/
def runIdentity (row : RunText) : String×String×String×ℤ :=
  (row.id,row.sessionId,row.triggerJson,row.startedAt)

/-- The columns of an action that no call rewrites. -/
def actionIdentity (row : ActionText) : String×String×String×String×String×String×ℤ :=
  (row.id,row.runId,row.sessionId,row.capability,row.intent,row.paramsJson,row.createdAt)

/-- The columns of an approval that no call rewrites. -/
def approvalIdentity (row : ApprovalText) : String×String×String×String×String×ℤ :=
  (row.id,row.actionId,row.runId,row.sessionId,row.prompt,row.requestedAt)

/-- What a step may do: each table keeps what its rows are, and the references of new rows
meet keys that were there. -/
structure Extends (db db' : Database) : Prop where
  sessions : Grows sessionIdentity (fun _ => True) db.conversations.sessions
    db'.conversations.sessions
  messages : Grows id (fun row => row.sessionId∈db.sessionIds) db.conversations.messages
    db'.conversations.messages
  runs : Grows runIdentity (fun row => row.sessionId∈db.sessionIds) db.runs db'.runs
  actions : Grows actionIdentity
    (fun row => row.sessionId∈db.sessionIds ∧ row.runId∈db.runIds) db.actions db'.actions
  approvals : Grows approvalIdentity
    (fun row => row.sessionId∈db.sessionIds ∧ row.runId∈db.runIds ∧ row.actionId∈db.actionIds)
    db.approvals db'.approvals

theorem matchVersion_identity (s : Session) (now : ℤ) (row : SessionRow) :
    sessionIdentity (matchVersion s now row)=sessionIdentity row := by
  unfold matchVersion
  split <;> rfl

/-- Every effect is such a step. -/
theorem Effect.extends (h : Effect db call db') : Extends db db' := by
  cases h with
  | createSession hinsert =>
    exact ⟨.insert hinsert trivial,.refl _,.refl _,.refl _,.refl _⟩
  | updateSession =>
    exact ⟨.modify (matchVersion_id _ _) (matchVersion_identity _ _),.refl _,.refl _,.refl _,
      .refl _⟩
  | append hknown hinsert => exact ⟨.refl _,.insert hinsert hknown,.refl _,.refl _,.refl _⟩
  | createRun hknown hinsert => exact ⟨.refl _,.refl _,.insert hinsert hknown,.refl _,.refl _⟩
  | updateRun hmem =>
    exact ⟨.refl _,.refl _,.modify (RunRecords.RunText.updated_id _) fun _ => rfl,.refl _,.refl _⟩
  | createAction hknown hinsert => exact ⟨.refl _,.refl _,.refl _,.insert hinsert hknown,.refl _⟩
  | updateAction hmem =>
    exact ⟨.refl _,.refl _,.refl _,.modify (actionEncoding.rowKey_rewrite _) fun _ => rfl,.refl _⟩
  | createApproval hknown hinsert =>
    exact ⟨.refl _,.refl _,.refl _,.refl _,.insert hinsert hknown⟩
  | updateApproval hmem =>
    exact ⟨.refl _,.refl _,.refl _,.refl _,
      .modify (approvalEncoding.rowKey_rewrite _) fun _ => rfl⟩

theorem Extends.sessionIds (h : Extends db db') : db.sessionIds ⊆ db'.sessionIds :=
  (h.sessions.column Prod.fst).subset

theorem Extends.runIds (h : Extends db db') : db.runIds ⊆ db'.runIds :=
  (h.runs.column Prod.fst).subset

theorem Extends.actionIds (h : Extends db db') : db.actionIds ⊆ db'.actionIds :=
  (h.actions.column Prod.fst).subset

/-- No reference dangles. -/
structure Linked (db : Database) : Prop where
  messages : ∀ row∈db.conversations.messages.rows, row.sessionId∈db.sessionIds
  runs : ∀ row∈db.runs.rows, row.sessionId∈db.sessionIds
  actions : ∀ row∈db.actions.rows, row.sessionId∈db.sessionIds ∧ row.runId∈db.runIds
  approvals : ∀ row∈db.approvals.rows,
    row.sessionId∈db.sessionIds ∧ row.runId∈db.runIds ∧ row.actionId∈db.actionIds

/-- A step that meets its references lets none dangle. -/
theorem Linked.extends (hlinked : Linked db) (h : Extends db db') : Linked db' := by
  have hsessions := h.sessionIds
  have hruns := h.runIds
  have hactions := h.actionIds
  refine ⟨?_,?_,?_,?_⟩
  · exact h.messages.all (P:=fun row => row.sessionId∈db'.sessionIds)
      (fun _ hrow => hsessions hrow) fun row hrow => hsessions (hlinked.messages row hrow)
  · exact h.runs.all (P:=fun i => i.2.1∈db'.sessionIds)
      (fun _ hrow => hsessions hrow) fun row hrow => hsessions (hlinked.runs row hrow)
  · exact h.actions.all (P:=fun i => i.2.2.1∈db'.sessionIds ∧ i.2.1∈db'.runIds)
      (fun _ hrow => ⟨hsessions hrow.1,hruns hrow.2⟩)
      fun row hrow => (hlinked.actions row hrow).imp (hsessions ·) (hruns ·)
  · exact h.approvals.all
      (P:=fun i => i.2.2.2.1∈db'.sessionIds ∧ i.2.2.1∈db'.runIds ∧ i.2.1∈db'.actionIds)
      (fun _ hrow => ⟨hsessions hrow.1,hruns hrow.2.1,hactions hrow.2.2⟩)
      fun row hrow => (hlinked.approvals row hrow).imp (hsessions ·) fun hrest =>
        hrest.imp (hruns ·) (hactions ·)

/-- The tables are in line with the logs. -/
structure InLine (db : Database) (logs : Logs) : Prop where
  messages : Holds db.conversations.messages logs.messages
  runs : runEncoding.Stores db.runs logs.runs
  actions : actionEncoding.Stores db.actions logs.actions
  approvals : approvalEncoding.Stores db.approvals logs.approvals

/-- An effect that is noted keeps the tables in line with the logs. -/
theorem InLine.noted {logs : Logs} (hline : InLine db logs) (h : Effect db call db') :
    InLine db' (logs.noted call) := by
  obtain ⟨hmessages,hruns,hactions,happrovals⟩ := hline
  cases h with
  | createSession hinsert => exact ⟨hmessages,hruns,hactions,happrovals⟩
  | updateSession => exact ⟨hmessages,hruns,hactions,happrovals⟩
  | append hknown hinsert => exact ⟨hmessages.insert hinsert,hruns,hactions,happrovals⟩
  | createRun hknown hinsert => exact ⟨hmessages,hruns.insert hinsert,hactions,happrovals⟩
  | updateRun hmem => exact ⟨hmessages,hruns.modify hmem,hactions,happrovals⟩
  | createAction hknown hinsert => exact ⟨hmessages,hruns,hactions.insert hinsert,happrovals⟩
  | updateAction hmem => exact ⟨hmessages,hruns,hactions.modify hmem,happrovals⟩
  | createApproval hknown hinsert => exact ⟨hmessages,hruns,hactions,happrovals.insert hinsert⟩
  | updateApproval hmem => exact ⟨hmessages,hruns,hactions,happrovals.modify hmem⟩

/-- After a call the history is as it was, or it shows the effect of the call. -/
theorem after_cases (engine : Engine) (h : StoreHistory) (call : StoreCall) :
    h.after engine call=h ∨
      ∃ db', Effect h.db call db' ∧ h.after engine call=⟨db',h.logs.noted call⟩ := by
  rcases perform_cases engine h.db call with ⟨e,he⟩|⟨db',hok,heffect⟩
  · refine .inl ?_
    rw [StoreHistory.after,he]
  · refine .inr ⟨db',heffect,?_⟩
    rw [StoreHistory.after,hok]

/-- A log of each store goes on. -/
structure Continues (logs logs' : Logs) : Prop where
  messages : logs.messages <+: logs'.messages
  runs : logs.runs <+: logs'.runs
  actions : logs.actions <+: logs'.actions
  approvals : logs.approvals <+: logs'.approvals

theorem Continues.refl (logs : Logs) : Continues logs logs :=
  ⟨List.prefix_rfl,List.prefix_rfl,List.prefix_rfl,List.prefix_rfl⟩

theorem Continues.trans {a b c : Logs} (h : Continues a b) (h' : Continues b c) : Continues a c :=
  ⟨h.messages.trans h'.messages,h.runs.trans h'.runs,h.actions.trans h'.actions,
    h.approvals.trans h'.approvals⟩

theorem continues_noted (logs : Logs) (call : StoreCall) : Continues logs (logs.noted call) := by
  cases call <;> constructor <;> first | exact List.prefix_rfl | exact List.prefix_append _ _

/-- An effect writes texts of statuses only. -/
theorem Effect.statusKnown (h : Effect db call db') (hknown : StatusKnown db.conversations) :
    StatusKnown db'.conversations := by
  cases h with
  | @createSession _ s _ hinsert =>
    intro row hrow
    have hrows : row∈db.conversations.sessions.rows++[encodeRow s] :=
      (Table.insert_rows hinsert).1 ▸ hrow
    rcases List.mem_append.mp hrows with hrow|hrow
    · exact hknown row hrow
    · rw [List.mem_singleton.mp hrow]
      exact ⟨s.status,rfl⟩
  | @updateSession _ s now =>
    intro row hrow
    obtain ⟨old,hold,rfl⟩ := List.mem_map.mp hrow
    unfold matchVersion
    split
    · split
      · exact ⟨s.status,rfl⟩
      · exact hknown old hold
    · exact hknown old hold
  | append | createRun | updateRun | createAction | updateAction | createApproval
    | updateApproval => exact hknown

/-- What holds after any calls. -/
structure Sound (h : StoreHistory) : Prop where
  linked : Linked h.db
  inLine : InLine h.db h.logs
  statuses : StatusKnown h.db.conversations

/-- A call keeps the history sound, goes on with the logs and loses no session. -/
theorem Sound.after (hsound : Sound h) (engine : Engine) (call : StoreCall) :
    Sound (h.after engine call) ∧ Continues h.logs (h.after engine call).logs ∧
      h.db.conversations.sessions.rows.map sessionIdentity <+:
        (h.after engine call).db.conversations.sessions.rows.map sessionIdentity := by
  rcases after_cases engine h call with hsame|⟨db',heffect,hafter⟩
  · rw [hsame]
    exact ⟨hsound,.refl _,List.prefix_rfl⟩
  · rw [hafter]
    exact ⟨⟨hsound.linked.extends heffect.extends,hsound.inLine.noted heffect,
        heffect.statusKnown hsound.statuses⟩,
      continues_noted h.logs call,heffect.extends.sessions.isPrefix⟩

/-- Any calls do. -/
theorem Sound.afterAll (hsound : Sound h) (engine : Engine) (calls : List StoreCall) :
    Sound (h.afterAll engine calls) ∧ Continues h.logs (h.afterAll engine calls).logs ∧
      h.db.conversations.sessions.rows.map sessionIdentity <+:
        (h.afterAll engine calls).db.conversations.sessions.rows.map sessionIdentity := by
  induction calls generalizing h with
  | nil => exact ⟨hsound,.refl _,List.prefix_rfl⟩
  | cons call calls ih =>
    obtain ⟨hafter,hlogs,hsessions⟩ := hsound.after engine call
    obtain ⟨hend,hlogs',hsessions'⟩ := ih hafter
    exact ⟨hend,hlogs.trans hlogs',hsessions.trans hsessions'⟩

theorem sound_empty : Sound ⟨Database.empty,{}⟩ := by
  refine ⟨⟨?_,?_,?_,?_⟩,⟨⟨[],rfl,rfl,List.Pairwise.nil⟩,Encoding.stores_empty,
    Encoding.stores_empty,Encoding.stores_empty⟩,?_⟩
  all_goals exact fun row hrow => absurd hrow List.not_mem_nil

theorem sound_history (engine : Engine) (calls : List StoreCall) : Sound (history engine calls) :=
  (sound_empty.afterAll engine calls).1

theorem history_append (engine : Engine) (calls more : List StoreCall) :
    history engine (calls++more)=(history engine calls).afterAll engine more :=
  List.foldl_append

/-- A stored session is found. -/
theorem exists_session {id : String} (hid : id∈db.sessionIds) :
    ∃ row, db.conversations.sessions.find id=some row := by
  obtain ⟨row,hrow,rfl⟩ := List.mem_map.mp hid
  exact ⟨row,Table.find_eq_some_iff.mpr ⟨hrow,rfl⟩⟩

/-- A key of a table that is in line is what the history expects. -/
theorem exists_expected {α : Type} {ρ : Type} {e : Encoding α ρ String} {t : Table e.rowKey}
    {log : List (Write α)} (hstores : e.Stores t log) {id : String} (hid : id∈t.rows.map e.rowKey) :
    ∃ a, e.expected log id=some a ∧ e.key a=id := by
  obtain ⟨row,hrow,rfl⟩ := List.mem_map.mp hid
  have hfind : t.find (e.rowKey row)=some row := Table.find_eq_some_iff.mpr ⟨hrow,rfl⟩
  rw [hstores.find] at hfind
  obtain ⟨a,ha,rfl⟩ := Option.map_eq_some_iff.mp hfind
  exact ⟨a,ha,(e.rowKey_encode a).symm⟩

/-- What a history expects under a key has its row in the table. -/
theorem mem_rows_of_expected {α : Type} {ρ : Type} {e : Encoding α ρ String}
    {t : Table e.rowKey} {log : List (Write α)} (hstores : e.Stores t log) {id : String} {a : α}
    (ha : e.expected log id=some a) : e.encode a∈t.rows := by
  rw [rows_values hstores]
  exact List.mem_map_of_mem (mem_values_of_expected ha)

/-- A row is decoded as a session of its identifier and times, without messages. -/
theorem decodeRow_ok {row : SessionRow} {session : Session} (h : decodeRow row []=.ok session) :
    session.id=row.id ∧ session.createdAt=row.createdAt ∧ session.updatedAt=row.updatedAt ∧
      session.messages=[] := by
  unfold decodeRow at h
  split at h
  · split at h
    · cases h
    · cases h
      exact ⟨rfl,rfl,rfl,rfl⟩
  · cases h

/-- A stored session is answered unless its version is used up. -/
theorem Sound.session_answered (hsound : Sound h) (engine : Engine) {id : String}
    {row : SessionRow} (hrow : h.db.conversations.sessions.find id=some row)
    (hversion : row.version < 2^63) :
    ∃ session, h.db.conversations.get engine.runs.serde id=.ok (some session) ∧
      session.id=id ∧ session.createdAt=row.createdAt := by
  obtain ⟨hmem,hid⟩ := Table.find_eq_some_iff.mp hrow
  obtain ⟨ms,hms,-⟩ := list_stored engine.runs.serde hsound.inLine.messages id
  obtain ⟨status,hstatus⟩ := hsound.statuses row hmem
  obtain ⟨session,hsession⟩ := decodeRow_known hstatus hversion
  obtain ⟨hsame,hcreated,-⟩ := decodeRow_ok hsession
  refine ⟨{ session with messages := ms },?_,hsame.trans hid,hcreated⟩
  rw [get_stored hrow hms,hsession]
  rfl

/-- A session that is answered is stored, and its row is decoded as it, without messages. -/
theorem Sound.session_stored (hsound : Sound h) (engine : Engine) {id : String}
    {session : Session} (hget : h.db.conversations.get engine.runs.serde id=.ok (some session)) :
    ∃ row, h.db.conversations.sessions.find id=some row ∧
      decodeRow row []=.ok { session with messages := [] } := by
  obtain ⟨ms,hms,-⟩ := list_stored engine.runs.serde hsound.inLine.messages id
  cases hrow : h.db.conversations.sessions.find id with
  | none =>
    rw [MessageDatabase.get,hrow] at hget
    cases hget
  | some row =>
    rw [get_stored hrow hms] at hget
    cases hdecode : decodeRow row [] with
    | error e =>
      rw [hdecode] at hget
      cases hget
    | ok read =>
      rw [hdecode] at hget
      cases hget
      obtain ⟨-,-,-,hnone⟩ := decodeRow_ok hdecode
      exact ⟨row,rfl,hdecode.trans (congrArg Except.ok (by rw [←hnone]))⟩

/-- The session store answers a session, unless its version is used up. -/
def SessionMet (engine : Engine) (db : Database) (id : String) : Prop :=
  ∃ row, db.conversations.sessions.find id=some row ∧ (row.version < 2^63 →
    ∃ session, db.conversations.get engine.runs.serde id=.ok (some session) ∧ session.id=id)

/-- The run store answers a run. -/
def RunMet (engine : Engine) (db : Database) (id : String) : Prop :=
  ∃ run, RunRecords.get engine.runs db.runs id=.ok (some run) ∧ run.id=id

/-- The action store has an action, and answers it if its stored parameters are read back. -/
def ActionMet (engine : Engine) (db : Database) (id : String) : Prop :=
  ∃ row, db.actions.find id=some row ∧
    ∀ params, engine.values.fromStr row.paramsJson=.ok params →
      ∃ action, ActionRecords.get engine.runs.serde engine.values db.actions id=
        .ok (some action) ∧ action.id=id ∧ action.params=params

/-- What the stores answer refers to what the stores answer. -/
structure ReferencesMet (engine : Engine) (db : Database) : Prop where
  /-- A listed message belongs to a session. -/
  messages : ∀ sessionId ms m, db.conversations.list engine.runs.serde sessionId=.ok ms → m∈ms →
    SessionMet engine db sessionId
  /-- A run belongs to a session. -/
  runs : ∀ id run, RunRecords.get engine.runs db.runs id=.ok (some run) →
    SessionMet engine db run.sessionId
  /-- An action belongs to a session and a run. -/
  actions : ∀ id action,
    ActionRecords.get engine.runs.serde engine.values db.actions id=.ok (some action) →
    SessionMet engine db action.sessionId ∧ RunMet engine db action.runId
  /-- An approval belongs to a session, a run and an action. -/
  approvals : ∀ id approval, ApprovalRecords.get db.approvals id=.ok (some approval) →
    SessionMet engine db approval.sessionId ∧ RunMet engine db approval.runId ∧
      ActionMet engine db approval.actionId

/-- A stored session is met. -/
theorem Sound.sessionMet (hsound : Sound h) (engine : Engine) {id : String}
    (hid : id∈h.db.sessionIds) : SessionMet engine h.db id := by
  obtain ⟨row,hrow⟩ := exists_session hid
  refine ⟨row,hrow,fun hversion => ?_⟩
  obtain ⟨session,hget,hsame,-⟩ := hsound.session_answered engine hrow hversion
  exact ⟨session,hget,hsame⟩

/-- A stored run is met. -/
theorem Sound.runMet (hsound : Sound h) (engine : Engine) {id : String} (hid : id∈h.db.runIds) :
    RunMet engine h.db id := by
  obtain ⟨run,hexpected,hkey⟩ := exists_expected hsound.inLine.runs hid
  exact ⟨run,by rw [RunRecords.get_stored hsound.inLine.runs,hexpected],hkey⟩

/-- A stored action is met. -/
theorem Sound.actionMet (hsound : Sound h) (engine : Engine) {id : String}
    (hid : id∈h.db.actionIds) : ActionMet engine h.db id := by
  have hactions := hsound.inLine.actions
  obtain ⟨action,hexpected,hkey⟩ := exists_expected hactions hid
  have hrow : h.db.actions.find id=some (ActionRecords.encode action) := by
    rw [hactions.find,hexpected]
    rfl
  refine ⟨_,hrow,fun params hparams => ⟨{ action with params := params },?_,hkey,rfl⟩⟩
  have hread : ActionRecords.reread engine.values action=.ok { action with params := params } :=
    ActionRecords.reread_of_read hparams
  rw [ActionRecords.get_of_expected hactions hexpected,hread]
  rfl

/-- No call in any order lets a reference dangle: whatever the five stores answer after
any calls, failures included, refers to what they answer, but for a session whose version is
used up and an action whose parameters are not read back. -/
theorem references_met (engine : Engine) (calls : List StoreCall) :
    ReferencesMet engine (history engine calls).db := by
  have hsound := sound_history engine calls
  have hlinked := hsound.linked
  obtain ⟨hmessages,hruns,hactions,happrovals⟩ := hsound.inLine
  refine ⟨fun sessionId ms m hlist hm => hsound.sessionMet engine ?_,
    fun id run hget => hsound.sessionMet engine ?_,fun id action hget => ?_,
    fun id approval hget => ?_⟩
  · obtain ⟨ms',hms',hstable⟩ := list_stored engine.runs.serde hmessages sessionId
    have hsame : ms=ms' := Except.ok.inj (hlist.symm.trans hms')
    obtain ⟨entry,hentry,-⟩ := List.mem_map.mp (hstable.perm.subset (hsame ▸ hm))
    obtain ⟨hmem,hsession⟩ := List.mem_filter.mp hentry
    obtain ⟨numbered,hrows,hlog,-⟩ := hmessages
    rw [←hlog] at hmem
    obtain ⟨p,hp,rfl⟩ := List.mem_map.mp hmem
    have hrow : rowOf p∈(history engine calls).db.conversations.messages.rows :=
      hrows ▸ List.mem_map_of_mem hp
    have hknown : p.2.1∈(history engine calls).db.sessionIds := hlinked.messages (rowOf p) hrow
    rwa [of_decide_eq_true hsession] at hknown
  · rw [RunRecords.get_stored hruns] at hget
    exact hlinked.runs _ (mem_rows_of_expected hruns (Except.ok.inj hget))
  · obtain ⟨stored,hexpected,hread⟩ := ActionRecords.expected_of_get hactions hget
    obtain ⟨hsession,hrun⟩ := hlinked.actions _ (mem_rows_of_expected hactions hexpected)
    rw [(ActionRecords.reread_ok hread).1]
    exact ⟨hsound.sessionMet engine hsession,hsound.runMet engine hrun⟩
  · rw [ApprovalRecords.get_stored happrovals] at hget
    obtain ⟨hsession,hrun,haction⟩ :=
      hlinked.approvals _ (mem_rows_of_expected happrovals (Except.ok.inj hget))
    exact ⟨hsound.sessionMet engine hsession,hsound.runMet engine hrun,
      hsound.actionMet engine haction⟩

/-- Every store answers from its own successful calls. -/
structure AnswersAlone (engine : Engine) (h : StoreHistory) : Prop where
  /-- The lists of messages. -/
  messages : ∀ sessionId, ∃ ms, h.db.conversations.list engine.runs.serde sessionId=.ok ms ∧
    StableSorts.StableSort Message.createdAt (appendedTo h.logs.messages sessionId) ms
  /-- The reads of runs. -/
  runs : RunRecords.AnswersFrom engine.runs h.db.runs h.logs.runs
  /-- The reads of actions. -/
  actions :
    ActionRecords.AnswersFrom engine.runs.serde engine.values engine.actions h.db.actions
      h.logs.actions
  /-- The reads of approvals. -/
  approvals : ApprovalRecords.AnswersFrom engine.approvals h.db.approvals h.logs.approvals

/-- The stores share one database and do not disturb each other: whatever the order of
the calls, each answers from its own successful calls, and a call that fails changes no
table at all. -/
theorem stores_answer_alone (engine : Engine) (calls : List StoreCall) :
    AnswersAlone engine (history engine calls) ∧
      ∀ call e, (perform engine (history engine calls).db call).2=.error e →
        (perform engine (history engine calls).db call).1=(history engine calls).db := by
  obtain ⟨-,⟨hmessages,hruns,hactions,happrovals⟩,-⟩ := sound_history engine calls
  refine ⟨⟨list_stored engine.runs.serde hmessages,RunRecords.answers_stored hruns,
    ActionRecords.answers_stored _ _ _ hactions,ApprovalRecords.answers_stored _ happrovals⟩,
    fun call e herror => ?_⟩
  rcases perform_cases engine (history engine calls).db call with ⟨e',he⟩|⟨db',hok,-⟩
  · rw [he]
  · rw [hok] at herror
    cases herror

/-- What makes a session the session it is. -/
def sessionCore (session : Session) : String×ℤ := (session.id,session.createdAt)

/-- What makes a run the run it is. -/
def runCore (run : Run) : String×String×RunStore.Trigger×ℤ :=
  (run.id,run.sessionId,run.trigger,run.startedAt)

/-- What makes an action the action it is. -/
def actionCore (action : Action) :
    String×String×String×String×String×JsonValues.JsonValue×ℤ :=
  (action.id,action.runId,action.sessionId,action.capability,action.intent,action.params,
    action.createdAt)

/-- What makes an approval the approval it is. -/
def approvalCore (approval : Approval) : String×String×String×String×String×ℤ :=
  (approval.id,approval.actionId,approval.runId,approval.sessionId,approval.prompt,
    approval.requestedAt)

/-- What was answered once is answered later, and is what it was. -/
structure Endures (engine : Engine) (db db' : Database) : Prop where
  /-- A session is got with its time of creation, unless its version is used up. -/
  sessions : ∀ id session, db.conversations.get engine.runs.serde id=.ok (some session) →
    ∃ row, db'.conversations.sessions.find id=some row ∧ (row.version < 2^63 →
      ∃ session', db'.conversations.get engine.runs.serde id=.ok (some session') ∧
        sessionCore session'=sessionCore session)
  /-- A list of messages has the messages it had, in the order it had. -/
  messages : ∀ sessionId ms, db.conversations.list engine.runs.serde sessionId=.ok ms →
    ∃ ms', db'.conversations.list engine.runs.serde sessionId=.ok ms' ∧ ms.Sublist ms'
  /-- A run is got with its session, its trigger and its start. -/
  runs : ∀ id run, RunRecords.get engine.runs db.runs id=.ok (some run) →
    ∃ run', RunRecords.get engine.runs db'.runs id=.ok (some run') ∧ runCore run'=runCore run
  /-- An action is got with all but its status, its receipt and its end. -/
  actions : ∀ id action,
    ActionRecords.get engine.runs.serde engine.values db.actions id=.ok (some action) →
    ∃ action', ActionRecords.get engine.runs.serde engine.values db'.actions id=
        .ok (some action') ∧ actionCore action'=actionCore action
  /-- An approval is got with all but its decision. -/
  approvals : ∀ id approval, ApprovalRecords.get db.approvals id=.ok (some approval) →
    ∃ approval', ApprovalRecords.get db'.approvals id=.ok (some approval') ∧
      approvalCore approval'=approvalCore approval

/-- A session stays, with its time of creation. -/
theorem session_endures
    (h : db.conversations.sessions.rows.map sessionIdentity <+:
      db'.conversations.sessions.rows.map sessionIdentity) {id : String} {row : SessionRow}
    (hrow : db.conversations.sessions.find id=some row) :
    ∃ row', db'.conversations.sessions.find id=some row' ∧ row'.createdAt=row.createdAt := by
  obtain ⟨hmem,rfl⟩ := Table.find_eq_some_iff.mp hrow
  obtain ⟨row',hmem',hsame⟩ := List.mem_map.mp (h.subset (List.mem_map_of_mem hmem))
  have hid : row'.id=row.id := congrArg Prod.fst hsame
  exact ⟨row',Table.find_eq_some_iff.mpr ⟨hmem',hid⟩,congrArg Prod.snd hsame⟩

/-- A longer log sorts to a longer list. -/
theorem list_endures {serde : SerdeRecords.SerdeJson} {log log' : List Entry}
    (hholds : Holds db.conversations.messages log)
    (hholds' : Holds db'.conversations.messages log') (hlogs : log <+: log') {sessionId : String}
    {ms : List Message} (hms : db.conversations.list serde sessionId=.ok ms) :
    ∃ ms', db'.conversations.list serde sessionId=.ok ms' ∧ ms.Sublist ms' := by
  obtain ⟨more,rfl⟩ := hlogs
  obtain ⟨first,hfirst,hstable⟩ := list_stored serde hholds sessionId
  obtain ⟨ms',hms',hstable'⟩ := list_stored serde hholds' sessionId
  have hsame : ms=first := Except.ok.inj (hms.symm.trans hfirst)
  subst hsame
  refine ⟨ms',hms',?_⟩
  have hsplit : appendedTo (log++more) sessionId=
      appendedTo log sessionId++appendedTo more sessionId := by
    rw [appendedTo,List.filter_append,List.map_append]
    rfl
  rw [hsplit] at hstable'
  refine hstable.sublist_append hstable' fun m hm hold => ?_
  -- a message that was in the log before would have been appended twice
  have hnodup := hholds'.nodup
  rw [List.map_append,List.nodup_append] at hnodup
  obtain ⟨entry,hentry,rfl⟩ := List.mem_map.mp hm
  obtain ⟨earlier,hearlier,hmessage⟩ := List.mem_map.mp hold
  exact hnodup.2.2 _ (List.mem_map_of_mem (List.mem_filter.mp hearlier).1) _
    (List.mem_map_of_mem (List.mem_filter.mp hentry).1) (congrArg Message.id hmessage)

/-- An action that is read back is read back later, if its parameters are the same. -/
theorem reread_endures {values : StoredValues.ValueReader} {action action' read : Action}
    (hread : ActionRecords.reread values action=.ok read)
    (hcore : actionCore action'=actionCore action) :
    ∃ read', ActionRecords.reread values action'=.ok read' ∧ actionCore read'=actionCore read := by
  obtain ⟨hsame,hparams⟩ := ActionRecords.reread_ok hread
  simp only [actionCore,Prod.mk.injEq] at hcore
  obtain ⟨hid,hrun,hsession,hcapability,hintent,hvalue,hcreated⟩ := hcore
  refine ⟨{ action' with params := read.params },?_,?_⟩
  · rw [ActionRecords.reread,ActionRecords.parsedValue,hvalue,hparams]
    rfl
  · rw [hsame]
    simp only [actionCore,hid,hrun,hsession,hcapability,hintent,hcreated]

/-- Nothing that was answered is lost or becomes something else: after any further calls,
failures included, every session, message, run, action and approval is answered with all
that makes it what it is, but for a session whose version has been used up. -/
theorem stored_endures (engine : Engine) (calls more : List StoreCall) :
    Endures engine (history engine calls).db (history engine (calls++more)).db := by
  have hsound := sound_history engine calls
  obtain ⟨hsound',hlogs,hsessions⟩ := hsound.afterAll engine more
  rw [←history_append] at hsound' hlogs hsessions
  have hline := hsound.inLine
  have hline' := hsound'.inLine
  refine ⟨fun id session hget => ?_,
    fun sessionId ms hms => list_endures hline.messages hline'.messages hlogs.messages hms,
    fun id run hget => ?_,fun id action hget => ?_,fun id approval hget => ?_⟩
  · obtain ⟨row,hrow,hdecode⟩ := hsound.session_stored engine hget
    obtain ⟨hid,hcreated,-⟩ := decodeRow_ok hdecode
    obtain ⟨row',hrow',hcreated'⟩ := session_endures hsessions hrow
    refine ⟨row',hrow',fun hversion => ?_⟩
    obtain ⟨session',hget',hid',hsame⟩ := hsound'.session_answered engine hrow' hversion
    refine ⟨session',hget',Prod.ext ?_ ?_⟩
    · exact hid'.trans ((Table.find_eq_some_iff.mp hrow).2.symm.trans hid.symm)
    · exact hsame.trans (hcreated'.trans hcreated.symm)
  · obtain ⟨later,hlater⟩ := hlogs.runs
    rw [RunRecords.get_stored hline.runs] at hget
    obtain ⟨run',hrun',hcore⟩ :=
      expected_append (e:=runEncoding) runCore (fun _ _ => rfl) (Except.ok.inj hget) later
    exact ⟨run',by rw [RunRecords.get_stored hline'.runs,←hlater,hrun'],hcore⟩
  · obtain ⟨later,hlater⟩ := hlogs.actions
    obtain ⟨stored,hexpected,hread⟩ := ActionRecords.expected_of_get hline.actions hget
    obtain ⟨stored',hexpected',hcore⟩ :=
      expected_append (e:=actionEncoding) actionCore (fun _ _ => rfl) hexpected later
    obtain ⟨action',hread',hsame⟩ := reread_endures hread hcore
    refine ⟨action',?_,hsame⟩
    rw [hlater] at hexpected'
    rw [ActionRecords.get_of_expected hline'.actions hexpected',hread']
    rfl
  · obtain ⟨later,hlater⟩ := hlogs.approvals
    rw [ApprovalRecords.get_stored hline.approvals] at hget
    obtain ⟨approval',happroval',hcore⟩ :=
      expected_append (e:=approvalEncoding) approvalCore (fun _ _ => rfl) (Except.ok.inj hget) later
    exact ⟨approval',by rw [ApprovalRecords.get_stored hline'.approvals,←hlater,happroval'],hcore⟩

end AegisRuntime.LinkedStores
