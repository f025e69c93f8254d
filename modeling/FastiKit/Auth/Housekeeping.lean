import FastiKit.Auth.Readings
import FastiKit.Interleave.Simulation
import FastiKit.Relational.Thinned

/- The two cleanup tasks of the auth tables are not seen by anybody.

   They delete the rows of `revoked_tokens` and of `refresh_sessions` that have expired.
   A request that was under way when a task read the clock can miss such a row, since it
   may still use an older reading; so here a task reads the clock only while no other
   request waits. Then every run of the service is answered as some run in which no
   cleanup task ever starts (`cleanup_unseen`): the second world has the same users, the
   same keys in Redis and the same tokens handed out, and its tables are those of the
   first with some expired rows besides. The only request that can tell the rows'
   absence is a refresh that looks its session up after it could not rotate it, and it
   turns an expired session away as it turns away a missing one, one reading of the
   clock later. -/
namespace FastiKit

open Interleave Relational

/-! The tables, and a transaction over both versions of them. -/

/-- `db` is `db'` without some rows that had expired by `cutoff`. -/
structure Cleaned (cutoff : Time) (goneS goneT : Uuid → Bool) (db db' : Db) : Prop where
  users : db.users = db'.users
  events : db.outboxEvents = db'.outboxEvents
  sessions : Table.Thinned (fun r => r.expiresAt ≤ cutoff) goneS db.refreshSessions db'.refreshSessions
  tokens : Table.Thinned (fun r => r.expiresAt ≤ cutoff) goneT db.revokedTokens db'.revokedTokens

/-- The statement claims no row that had expired by `cutoff`, and inserts none under a
key that is gone. -/
def Stmt.Fits (cutoff : Time) (goneS goneT : Uuid → Bool) : Stmt → Prop
  | .insertRevokedToken model => goneT model.jti = false
  | .insertRevokedTokenOrNothing model => goneT model.jti = false
  | .insertSession model => goneS model.id = false
  | .rotateSession _ _ _ now => cutoff ≤ now
  | .deleteExpiredSessions _ => False
  | .deleteExpiredTokens _ => False
  | _ => True

section Transactions
variable {cfg : Config} {cutoff : Time} {goneS goneT : Uuid → Bool} {db db' : Db}

theorem not_rotatable_of_spent {now : Time} (hnow : cutoff ≤ now) (userId : Uuid) (generation : Nat)
    (r : RefreshSession) (hr : r.expiresAt ≤ cutoff) : r.rotatable userId generation now = false := by
  have hlate : ¬ now < r.expiresAt := not_lt.mpr (le_trans hr hnow)
  simp [RefreshSession.rotatable, hlate]

/-- A statement answers alike on both and keeps them alike. -/
theorem cleaned_execStmt (h : Cleaned cutoff goneS goneT db db') {stmt : Stmt}
    (hfits : stmt.Fits cutoff goneS goneT) :
    (execStmt cfg stmt db).1 = (execStmt cfg stmt db').1 ∧
      Cleaned cutoff goneS goneT (execStmt cfg stmt db).2 (execStmt cfg stmt db').2 := by
  obtain ⟨husers, hevents, hsessions, htokens⟩ := h
  cases stmt with
  | getUser id => exact ⟨congrArg (Table.get · id) husers, husers, hevents, hsessions, htokens⟩
  | insertUser model =>
    have htaken : db.emailTaken model.email model.id = db'.emailTaken model.email model.id := by
      rw [Db.emailTaken, Db.emailTaken, husers]
    simp only [execStmt, htaken, husers]
    split
    · exact ⟨rfl, husers, hevents, hsessions, htokens⟩
    · split
      · exact ⟨rfl, husers, hevents, hsessions, htokens⟩
      · exact ⟨rfl, rfl, hevents, hsessions, htokens⟩
  | updateUser id fields now =>
    have htaken : ∀ email, db.emailTaken email id = db'.emailTaken email id := by
      intro email
      rw [Db.emailTaken, Db.emailTaken, husers]
    simp only [execStmt, htaken, husers]
    split
    · exact ⟨rfl, husers, hevents, hsessions, htokens⟩
    · split
      · exact ⟨rfl, husers, hevents, hsessions, htokens⟩
      · split
        · exact ⟨rfl, husers, hevents, hsessions, htokens⟩
        · exact ⟨rfl, rfl, hevents, hsessions, htokens⟩
  | insertRevokedToken model =>
    rcases htokens.insert hfits with ⟨hu, hu'⟩ | ⟨u, u', hu, hu', hinserted⟩
    · simp only [execStmt, hu, hu']
      exact ⟨trivial, husers, hevents, hsessions, htokens⟩
    · simp only [execStmt, hu, hu']
      exact ⟨trivial, husers, hevents, hsessions, hinserted⟩
  | insertRevokedTokenOrNothing model =>
    rcases htokens.insert hfits with ⟨hu, hu'⟩ | ⟨u, u', hu, hu', hinserted⟩
    · simp only [execStmt, hu, hu']
      exact ⟨trivial, husers, hevents, hsessions, htokens⟩
    · simp only [execStmt, hu, hu']
      exact ⟨trivial, husers, hevents, hsessions, hinserted⟩
  | insertSession model =>
    simp only [execStmt, husers]
    split
    · exact ⟨rfl, husers, hevents, hsessions, htokens⟩
    · rcases hsessions.insert hfits with ⟨hu, hu'⟩ | ⟨u, u', hu, hu', hinserted⟩
      · simp only [hu, hu']
        exact ⟨trivial, husers, hevents, hsessions, htokens⟩
      · simp only [hu, hu']
        exact ⟨trivial, rfl, hevents, hinserted, htokens⟩
  | rotateSession sessionId userId generation now =>
    have hclaimed := hsessions.get_filter sessionId (not_rotatable_of_spent hfits userId generation)
    refine ⟨congrArg (Option.map (RefreshSession.rotated now)) hclaimed, husers, hevents, ?_, htokens⟩
    exact hsessions.updateWhere _ _ (RefreshSession.rotated_id now) fun _ hr => hr
  | revokeSessions conditions now =>
    refine ⟨rfl, husers, hevents, ?_, htokens⟩
    exact hsessions.updateWhere _ _ (RefreshSession.revoked_id now) fun _ hr => hr
  | deleteExpiredSessions now => exact hfits.elim
  | deleteExpiredTokens now => exact hfits.elim
  | insertOutboxEvent event =>
    simp only [execStmt, hevents]
    split
    · exact ⟨rfl, husers, hevents, hsessions, htokens⟩
    · exact ⟨rfl, husers, rfl, hsessions, htokens⟩
  | dispatchEvents ids now =>
    simp only [execStmt, hevents]
    exact ⟨trivial, husers, rfl, hsessions, htokens⟩
  | deleteDispatched cutoff =>
    simp only [execStmt, hevents]
    exact ⟨trivial, husers, rfl, hsessions, htokens⟩

variable (cfg) in
/-- A transaction of such statements. -/
theorem cleaned_transaction {α : Type} (h : Cleaned cutoff goneS goneT db db') {tx : Tx α}
    (huses : tx.Uses (Stmt.Fits cutoff goneS goneT) (fun _ => True)) :
    (transaction cfg tx db).1 = (transaction cfg tx db').1 ∧
      Cleaned cutoff goneS goneT (transaction cfg tx db).2 (transaction cfg tx db').2 := by
  have hstmt : ∀ stmt v v', Stmt.Fits cutoff goneS goneT stmt → Cleaned cutoff goneS goneT v v' →
      (execStmt cfg stmt v).1 = (execStmt cfg stmt v').1 ∧
        Cleaned cutoff goneS goneT (execStmt cfg stmt v).2 (execStmt cfg stmt v').2 :=
    fun _ _ _ hfits hv => cleaned_execStmt hv hfits
  obtain ⟨hout, hdb⟩ := Prog.eval_related hstmt tx db db' huses h
  rcases he : tx.eval (execStmt cfg) db with ⟨out, v⟩
  rcases he' : tx.eval (execStmt cfg) db' with ⟨out', v'⟩
  rw [he, he'] at hout hdb
  cases hout
  cases out with
  | ok a =>
    simp only [transaction, he, he']
    exact ⟨trivial, hdb⟩
  | error e =>
    -- rolled back
    simp only [transaction, he, he']
    exact ⟨trivial, h⟩

theorem flushOrRaise_fits {α : Type} (r : Except IntegrityError α) :
    (UserRepository.flushOrRaise r).Uses (Stmt.Fits cutoff goneS goneT) (fun _ => True) := by
  cases r with
  | ok a => trivial
  | error err =>
    show Prog.Uses _ _ (ite _ _ _)
    split <;> trivial

theorem stageUpdate_fits (id : Uuid) (fields : UserFields) (now : Time) :
    (UserRepository.stageUpdate id fields now).Uses (Stmt.Fits cutoff goneS goneT) (fun _ => True) := by
  refine ⟨trivial, ?_⟩
  intro user
  cases user with
  | none => trivial
  | some user =>
    refine ⟨trivial, fun r => ?_⟩
    show Prog.Uses _ _ (UserRepository.flushOrRaise r >>= _)
    rw [Prog.uses_bind]
    refine (flushOrRaise_fits r).mono (fun _ h => h) ?_
    intro out _
    cases out <;> trivial

theorem stageAddEvent_fits (event : OutboxEvent EmailPayload) :
    (OutboxRepository.stageAdd event).Uses (Stmt.Fits cutoff goneS goneT) (fun _ => True) := by
  refine ⟨trivial, ?_⟩
  intro r
  rcases r with err | ⟨⟩ <;> trivial

/-- A transaction that starts by updating a user. -/
theorem stageUpdate_bind_fits {α : Type} (id : Uuid) (fields : UserFields) (now : Time)
    {f : Option User → Tx α} (hf : ∀ user, (f user).Uses (Stmt.Fits cutoff goneS goneT) (fun _ => True)) :
    (UserRepository.stageUpdate id fields now >>= f).Uses (Stmt.Fits cutoff goneS goneT) (fun _ => True) := by
  rw [Prog.uses_bind]
  refine (stageUpdate_fits id fields now).mono (fun _ h => h) ?_
  intro out _
  cases out with
  | ok user => exact hf user
  | error e => trivial

theorem register_fits (model : User) (event : OutboxEvent EmailPayload) :
    (UserRepository.register model event).Uses (Stmt.Fits cutoff goneS goneT) (fun _ => True) := by
  refine ⟨trivial, fun r => ?_⟩
  show Prog.Uses _ _ ((UserRepository.flushOrRaise r >>= fun _ => .ret model) >>= _)
  rw [Prog.uses_bind, Prog.uses_bind]
  refine (flushOrRaise_fits r).mono (fun _ h => h) ?_
  intro out _
  cases out with
  | error e => trivial
  | ok _ =>
    show Prog.Uses _ _ (OutboxRepository.stageAdd event >>= _)
    rw [Prog.uses_bind]
    refine (stageAddEvent_fits event).mono (fun _ h => h) ?_
    intro out _
    cases out <;> trivial

theorem stageAdd_fits {jti : Uuid} (hjti : goneT jti = false) (expiresAt : Time) :
    (RevokedTokenRepository.stageAdd jti expiresAt).Uses (Stmt.Fits cutoff goneS goneT) (fun _ => True) := by
  refine ⟨hjti, ?_⟩
  intro r
  rcases r with err | ⟨⟩ <;> trivial

theorem stageAddAll_bind_fits {α : Type} {f : Unit → Tx α}
    (hf : (f ()).Uses (Stmt.Fits cutoff goneS goneT) (fun _ => True)) :
    ∀ {tokens : List TokenRef}, (∀ ref ∈ tokens, goneT ref.jti = false) →
      (RevokedTokenRepository.stageAddAll tokens >>= f).Uses (Stmt.Fits cutoff goneS goneT) (fun _ => True) := by
  intro tokens
  induction tokens with
  | nil => exact fun _ => hf
  | cons token tokens ih =>
    intro htokens
    exact ⟨htokens _ List.mem_cons_self, fun _ => ih fun ref href => htokens ref (List.mem_cons_of_mem _ href)⟩

theorem verifyEmail_fits (userId : Uuid) {jti : Uuid} (hjti : goneT jti = false) (expiresAt now : Time) :
    (AccountRepository.verifyEmail userId jti expiresAt now).Uses (Stmt.Fits cutoff goneS goneT)
      (fun _ => True) := by
  apply stageUpdate_bind_fits
  intro user
  cases user with
  | none => trivial
  | some user =>
    show Prog.Uses _ _ (RevokedTokenRepository.stageAdd jti expiresAt >>= _)
    rw [Prog.uses_bind]
    refine (stageAdd_fits hjti expiresAt).mono (fun _ h => h) ?_
    intro out _
    cases out <;> trivial

theorem resetPassword_fits (userId : Uuid) (passwordHash : PasswordHash) {jti : Uuid} (hjti : goneT jti = false)
    (expiresAt : Time) (snapshot : Snapshot) (now : Time) :
    (AccountRepository.resetPassword userId passwordHash jti expiresAt snapshot now).Uses
      (Stmt.Fits cutoff goneS goneT) (fun _ => True) := by
  apply stageUpdate_bind_fits
  intro user
  cases user with
  | none => trivial
  | some user =>
    show Prog.Uses _ _ (RevokedTokenRepository.stageAdd jti expiresAt >>= _)
    rw [Prog.uses_bind]
    refine (stageAdd_fits hjti expiresAt).mono (fun _ h => h) ?_
    intro out _
    cases out with
    | error e => trivial
    | ok _ => exact ⟨trivial, fun _ => trivial⟩

theorem startLink_fits (userId : Uuid) (pending : UserFields) (event : OutboxEvent EmailPayload) (now : Time) :
    (AccountRepository.startLink userId pending event now).Uses (Stmt.Fits cutoff goneS goneT) (fun _ => True) := by
  apply stageUpdate_bind_fits
  intro user
  cases user with
  | none => trivial
  | some user => exact stageAddEvent_fits event

theorem logout_fits (userId : Uuid) {tokens : List TokenRef} (htokens : ∀ ref ∈ tokens, goneT ref.jti = false)
    (refreshSessionId : Option Uuid) (now : Time) :
    (AccountRepository.logout userId tokens refreshSessionId now).Uses (Stmt.Fits cutoff goneS goneT)
      (fun _ => True) := by
  refine stageAddAll_bind_fits ?_ htokens
  cases refreshSessionId with
  | none => trivial
  | some sessionId => exact ⟨trivial, fun _ => trivial⟩

theorem closeAccount_fits (userId : Uuid) {tokens : List TokenRef} (htokens : ∀ ref ∈ tokens, goneT ref.jti = false)
    (snapshot : Snapshot) (now : Time) :
    (AccountRepository.closeAccount userId tokens snapshot now).Uses (Stmt.Fits cutoff goneS goneT)
      (fun _ => True) := by
  apply stageUpdate_bind_fits
  intro user
  cases user with
  | none => trivial
  | some user =>
    refine stageAddAll_bind_fits ?_ htokens
    exact ⟨trivial, fun _ => trivial⟩

theorem create_fits {id : Uuid} (hid : goneS id = false) (userId : Uuid) (expiresAt : Time) :
    (RefreshSessionRepository.create id userId expiresAt).Uses (Stmt.Fits cutoff goneS goneT) (fun _ => True) := by
  refine ⟨hid, ?_⟩
  intro r
  rcases r with err | ⟨⟩ <;> trivial

end Transactions

/-! The worlds. -/

/-- `v` is `w` as it would be without the cleanup tasks, which have read the clock up
to `cutoff`. -/
structure Twin (cutoff : Time) (w v : World) : Prop where
  now : v.now = w.now
  past : cutoff ≤ w.now
  uuids : v.uuids = w.uuids
  redis : v.redis = w.redis
  signed : v.signed = w.signed
  db : ∃ goneS goneT, Cleaned cutoff goneS goneT w.db v.db
  replica : v.replica.users = w.replica.users
  versions : ∀ db ∈ w.db :: w.versions, ∃ db' ∈ v.versions, db'.users = db.users
  responses : v.responses = w.responses.filter (fun x => !x.1.purges)
  cleaned : v.cleaned = w.cleaned

/-- The row under an issued token's jti is that token's. -/
def OwnRows (w : World) : Prop :=
  ∀ p row, w.issued p = true → w.db.revokedTokens.get p.jti = some row → row = ⟨p.ref.jti, p.ref.expiresAt⟩

section Worlds
variable {cfg : Config} {cutoff : Time} {w v : World}

theorem Op.Fits.revokes {op : Op} (h : op.Fits cutoff) : ∀ ref ∈ op.revokes, cutoff < ref.expiresAt := by
  intro ref href
  cases op with
  | verifyEmail userId token => rw [List.mem_singleton.mp href]; exact h
  | resetPassword userId passwordHash token snapshot => rw [List.mem_singleton.mp href]; exact h
  | logout userId tokens refreshSessionId => exact h ref href
  | closeAccount userId tokens snapshot => exact h ref href
  | _ => cases href

/-- A token that an operation takes back is not one whose row is gone. -/
theorem Cleaned.present {goneS goneT : Uuid → Bool} (h : Cleaned cutoff goneS goneT w.db v.db) {op : Op}
    (hfits : op.Fits cutoff) (hj : Justified op v) (hown : OwnRows v) :
    ∀ ref ∈ op.revokes, goneT ref.jti = false := by
  intro ref href
  by_contra hgone
  obtain ⟨row, hrow, hspent⟩ := h.tokens.spent ref.jti (by simpa using hgone)
  obtain ⟨p, hp, rfl⟩ := hj.revokes ref href
  have hlater := hfits.revokes p.ref href
  rw [hown p row hp hrow] at hspent
  exact absurd hspent (not_le.mpr hlater)

/-- Transactions on both primaries. -/
theorem twin_transact {α : Type} (h : Twin cutoff w v) {tx tx' : Tx α} (hsame : tx' = tx)
    (huses : ∀ goneS goneT, Cleaned cutoff goneS goneT w.db v.db →
      tx.Uses (Stmt.Fits cutoff goneS goneT) (fun _ => True)) :
    (w.transact cfg tx).1 = (v.transact cfg tx').1 ∧ Twin cutoff (w.transact cfg tx).2 (v.transact cfg tx').2 := by
  subst hsame
  obtain ⟨goneS, goneT, hdb⟩ := h.db
  obtain ⟨hout, hafter⟩ := cleaned_transaction cfg hdb (huses goneS goneT hdb)
  refine ⟨hout, h.now, h.past, h.uuids, h.redis, h.signed, ⟨goneS, goneT, hafter⟩, h.replica, ?_, h.responses, h.cleaned⟩
  intro db hmem
  have hcurrent : ∃ db' ∈ (v.transact cfg tx').2.versions, db'.users = (w.transact cfg tx').2.db.users :=
    ⟨_, List.mem_cons_self, hafter.users.symm⟩
  rcases List.mem_cons.mp hmem with rfl | hmem
  · exact hcurrent
  · rcases List.mem_cons.mp hmem with rfl | hold
    · exact hcurrent
    · obtain ⟨db', hdb', husers⟩ := h.versions db (List.mem_cons_of_mem _ hold)
      exact ⟨db', List.mem_cons_of_mem _ hdb', husers⟩

theorem twin_draw (h : Twin cutoff w v) : Twin cutoff w.draw.2 v.draw.2 :=
  ⟨h.now, h.past, congrArg (· + 1) h.uuids, h.redis, h.signed, h.db, h.replica, h.versions, h.responses, h.cleaned⟩

theorem twin_emailEvent (h : Twin cutoff w v) (payload : EmailPayload) : emailEvent v payload = emailEvent w payload := by
  rw [emailEvent, emailEvent, h.uuids, h.now]

theorem twin_send (h : Twin cutoff w v) (command : Redis → Redis) :
    (w.send command).1 = (v.send command).1 ∧ Twin cutoff (w.send command).2 (v.send command).2 := by
  simp only [World.send, h.redis]
  cases w.redis.fault with
  | up => exact ⟨rfl, h.now, h.past, h.uuids, rfl, h.signed, h.db, h.replica, h.versions, h.responses, h.cleaned⟩
  | lost => exact ⟨rfl, h⟩
  | unacknowledged => exact ⟨rfl, h.now, h.past, h.uuids, rfl, h.signed, h.db, h.replica, h.versions, h.responses, h.cleaned⟩

/-- An operation that fits answers alike in both worlds, unless it looks up a session. -/
theorem twin_execOp (h : Twin cutoff w v) {op : Op} (hfits : op.Fits cutoff) (hs : Sane v) (hj : Justified op v)
    (hown : OwnRows v) (hne : ∀ sid, op ≠ .getSession sid) :
    (execOp cfg op w).1 = (execOp cfg op v).1 ∧ Twin cutoff (execOp cfg op w).2 (execOp cfg op v).2 := by
  obtain ⟨goneS, goneT, hdb⟩ := h.db
  cases op with
  | clock => exact ⟨h.now.symm, h⟩
  | revokeClock seeding tokens => exact ⟨h.now.symm, h⟩
  | uuid4 => exact ⟨h.uuids.symm, twin_draw h⟩
  | gensalt => exact ⟨h.uuids.symm, twin_draw h⟩
  | getUser id consistent =>
    refine ⟨?_, h⟩
    simp only [execOp]
    cases consistent with
    | true => exact congrArg (Table.get · id) hdb.users
    | false => exact congrArg (Table.get · id) h.replica.symm
  | getUserByEmail email consistent =>
    refine ⟨?_, h⟩
    simp only [execOp]
    cases consistent with
    | true => rw [if_pos rfl, if_pos rfl, hdb.users]
    | false => rw [if_neg Bool.false_ne_true, if_neg Bool.false_ne_true, h.replica]
  | listUsers params =>
    refine ⟨?_, h⟩
    simp only [execOp, h.replica]
  | getSession id => exact absurd rfl (hne id)
  | snapshot tokens =>
    refine ⟨?_, h⟩
    simp only [execOp, h.uuids]
  | tokenExists jti now =>
    refine ⟨hdb.tokens.any ?_, h⟩
    intro r hr
    have hlate : ¬ now < r.expiresAt := not_lt.mpr (le_trans hr hfits)
    simp [hlate]
  | listActive now =>
    refine ⟨congrArg (List.map _) (hdb.tokens.filter ?_), h⟩
    intro r hr
    have hlate : ¬ now < r.expiresAt := not_lt.mpr (le_trans hr hfits)
    simp [hlate]
  | register id fullName email passwordHash jti payload =>
    refine twin_transact (twin_draw h) ?_ fun _ _ _ => register_fits _ _
    rw [twin_emailEvent h, h.now]
  | updateUser id fields =>
    refine twin_transact h ?_ fun _ _ _ => stageUpdate_fits _ _ _
    rw [h.now]
  | verifyEmail userId token =>
    refine twin_transact h ?_ fun _ _ hdb => verifyEmail_fits _ (hdb.present hfits hj hown token.ref ?_) _ _
    · rw [h.now]
    · exact List.mem_singleton_self _
  | resetPassword userId passwordHash token snapshot =>
    refine twin_transact h ?_ fun _ _ hdb => resetPassword_fits _ _ (hdb.present hfits hj hown token.ref ?_) _ _ _
    · rw [h.now]
    · exact List.mem_singleton_self _
  | startEmailVerification userId jti payload =>
    refine twin_transact (twin_draw h) ?_ fun _ _ _ => startLink_fits _ _ _ _
    rw [twin_emailEvent h, h.now]
  | startPasswordReset userId jti payload =>
    refine twin_transact (twin_draw h) ?_ fun _ _ _ => startLink_fits _ _ _ _
    rw [twin_emailEvent h, h.now]
  | logout userId tokens refreshSessionId =>
    refine twin_transact h ?_ fun _ _ hdb => logout_fits _ (hdb.present hfits hj hown) _ _
    rw [h.now]
  | closeAccount userId tokens snapshot =>
    refine twin_transact h ?_ fun _ _ hdb => closeAccount_fits _ (hdb.present hfits hj hown) _ _
    rw [h.now]
  | createSession user expiresAt =>
    refine twin_transact (twin_draw h) ?_ fun goneS _ hdb => create_fits ?_ _ _
    · rw [h.uuids]
    · -- the id is drawn now, and no session has it yet
      by_contra hgone
      obtain ⟨r, hr, -⟩ := hdb.sessions.spent w.uuids (by simpa using hgone)
      have hlt := hs.sessions _ r hr
      rw [h.uuids] at hlt
      exact absurd hlt (Nat.lt_irrefl _)
  | rotate sessionId userId generation now =>
    exact twin_transact h rfl fun _ _ _ => ⟨hfits, fun _ => trivial⟩
  | revokeSession sessionId =>
    refine twin_transact h ?_ fun _ _ _ => ⟨trivial, fun _ => trivial⟩
    rw [h.now]
  | purgeSessions now => exact hfits.elim
  | purgeTokens now => exact hfits.elim
  | purgeEvents before =>
    have htx : (w.transact cfg (OutboxRelay.cleanupDispatched before)).1 =
        (v.transact cfg (OutboxRelay.cleanupDispatched before)).1 ∧
        Twin cutoff (w.transact cfg (OutboxRelay.cleanupDispatched before)).2
          (v.transact cfg (OutboxRelay.cleanupDispatched before)).2 :=
      twin_transact h rfl fun _ _ _ => ⟨trivial, fun _ => trivial⟩
    obtain ⟨hanswer, htwin⟩ := htx
    refine ⟨hanswer, htwin.now, htwin.past, htwin.uuids, htwin.redis, htwin.signed, htwin.db, htwin.replica,
      htwin.versions, htwin.responses, ?_⟩
    simp only [execOp, Db.dispatchedBefore, hdb.events, h.cleaned]
  | dispatchEvents ids =>
    refine twin_transact h ?_ fun _ _ _ => ⟨trivial, fun _ => trivial⟩
    rw [h.now]
  | setJti pipe token => exact twin_send h _
  | mget jti =>
    refine ⟨?_, h⟩
    simp only [execOp, h.redis, h.now]
  | setSeeding =>
    simp only [execOp, h.redis, h.now]
    split
    · exact ⟨rfl, h⟩
    · obtain ⟨hanswer, hsent⟩ := twin_send h (fun r => { r with seedingUntil := some (w.now + 60 * 1000000) })
      exact ⟨by rw [hanswer], hsent⟩
  | setReady => exact twin_send h _

variable (cfg) in
/-- The session looked up is the same, or it has expired and is gone. -/
theorem twin_getSession (h : Twin cutoff w v) (sid : Uuid) :
    (execOp cfg (.getSession sid) w).1 = (execOp cfg (.getSession sid) v).1 ∨
      (execOp cfg (.getSession sid) w).1 = none ∧
        ∃ r : RefreshSession, (execOp cfg (.getSession sid) v).1 = some r ∧ r.expiresAt ≤ cutoff := by
  obtain ⟨goneS, goneT, hdb⟩ := h.db
  exact hdb.sessions.get_cases sid

/-- A request of a client is answered alike. -/
theorem twin_respond (h : Twin cutoff w v) {req : Request} (hreq : req.purges = false) (out : Except Err Response) :
    Twin cutoff (w.respond cfg req out) (v.respond cfg req out) := by
  have hresponses : (req, out) :: v.responses =
      ((req, out) :: w.responses).filter (fun x => !x.1.purges) := by
    rw [List.filter_cons, if_pos (by simp [hreq]), h.responses]
  have hlogged : Twin cutoff { w with responses := (req, out) :: w.responses }
      { v with responses := (req, out) :: v.responses } :=
    ⟨h.now, h.past, h.uuids, h.redis, h.signed, h.db, h.replica, h.versions, hresponses, h.cleaned⟩
  unfold World.respond
  split
  · refine ⟨h.now, h.past, ?_, h.redis, ?_, h.db, h.replica, h.versions, hresponses, h.cleaned⟩
    · simp only [World.sign, h.uuids]
    · simp only [World.sign, h.uuids, h.now, h.signed]
  · exact hlogged

/-- What a cleanup task answers is left out of the second world. -/
theorem twin_respond_purge (h : Twin cutoff w v) {req : Request} (hreq : req.purges = true)
    {out : Except Err Response} (hout : ∀ user session, out ≠ .ok (.tokens user session)) :
    Twin cutoff (w.respond cfg req out) v := by
  have hlogged : w.respond cfg req out = { w with responses := (req, out) :: w.responses } := by
    unfold World.respond
    split
    · exact absurd rfl (hout _ _)
    · rfl
  rw [hlogged]
  refine ⟨h.now, h.past, h.uuids, h.redis, h.signed, h.db, h.replica, h.versions, ?_, h.cleaned⟩
  show v.responses = _
  rw [List.filter_cons, if_neg (by simp [hreq]), h.responses]

/-- What happens around the requests happens in both worlds; the replicas may serve
different versions, with the same users. -/
theorem twin_event (h : Twin cutoff w v) {e : Event} {w' : World} (he : w.event e = some w') :
    ∃ e' v', v.event e' = some v' ∧ Twin cutoff w' v' := by
  cases e with
  | tick elapsed =>
    cases he
    refine ⟨.tick elapsed, _, rfl, ?_, ?_, h.uuids, h.redis, h.signed, h.db, h.replica, h.versions, h.responses, h.cleaned⟩
    · exact congrArg (· + (elapsed : Int)) h.now
    · exact le_trans h.past (Int.le_add_of_nonneg_right (Int.natCast_nonneg elapsed))
  | replicate version =>
    simp only [World.event, Option.map_eq_some_iff] at he
    obtain ⟨replica, hget, rfl⟩ := he
    obtain ⟨replica', hmem, husers⟩ := h.versions replica (List.mem_cons_of_mem _ (List.mem_of_getElem? hget))
    obtain ⟨version', hget'⟩ := List.mem_iff_getElem?.mp hmem
    refine ⟨.replicate version', { v with replica := replica' }, ?_, h.now, h.past, h.uuids, h.redis, h.signed,
      h.db, husers, h.versions, h.responses, h.cleaned⟩
    simp only [World.event, hget', Option.map_some]
  | redisFault fault =>
    cases he
    refine ⟨.redisFault fault, _, rfl, h.now, h.past, h.uuids, ?_, h.signed, h.db, h.replica, h.versions,
      h.responses, h.cleaned⟩
    simp only [h.redis]
  | loseKeys =>
    cases he
    refine ⟨.loseKeys, _, rfl, h.now, h.past, h.uuids, ?_, h.signed, h.db, h.replica, h.versions, h.responses, h.cleaned⟩
    simp only [h.redis]

/-- The same requests are accepted. -/
theorem twin_accepts (h : Twin cutoff w v) (req : Request) : v.accepts req = w.accepts req := by
  obtain ⟨goneS, goneT, hdb⟩ := h.db
  have hissued : v.issued = w.issued := by
    funext token
    rw [World.issued, World.issued, World.staged, World.staged, h.signed, hdb.events, h.cleaned]
  rw [World.accepts, World.accepts, hissued]

theorem Cleaned.mono {goneS goneT : Uuid → Bool} {db db' : Db} {later : Time}
    (h : Cleaned cutoff goneS goneT db db') (hle : cutoff ≤ later) : Cleaned later goneS goneT db db' :=
  ⟨h.users, h.events, h.sessions.mono fun _ hr => le_trans hr hle, h.tokens.mono fun _ hr => le_trans hr hle⟩

/-- A task reads the clock. -/
theorem Twin.cut (h : Twin cutoff w v) : Twin w.now w v := by
  obtain ⟨goneS, goneT, hdb⟩ := h.db
  exact ⟨h.now, le_refl _, h.uuids, h.redis, h.signed, ⟨goneS, goneT, hdb.mono h.past⟩, h.replica, h.versions,
    h.responses, h.cleaned⟩

/-- A transaction that only the first world runs, and that leaves the users alone. -/
theorem twin_transact_left {α : Type} (h : Twin cutoff w v) {tx : Tx α}
    (hdb : ∃ goneS goneT, Cleaned cutoff goneS goneT (w.transact cfg tx).2.db v.db) :
    Twin cutoff (w.transact cfg tx).2 v := by
  refine ⟨h.now, h.past, h.uuids, h.redis, h.signed, hdb, h.replica, ?_, h.responses, h.cleaned⟩
  obtain ⟨goneS, goneT, hbefore⟩ := h.db
  obtain ⟨goneS', goneT', hafter⟩ := hdb
  -- a version with the same users is known already
  obtain ⟨db', hdb', husers⟩ := h.versions w.db List.mem_cons_self
  have hcurrent : db'.users = (w.transact cfg tx).2.db.users := by rw [husers, hbefore.users, hafter.users]
  intro db hmem
  rcases List.mem_cons.mp hmem with rfl | hmem
  · exact ⟨db', hdb', hcurrent⟩
  · rcases List.mem_cons.mp hmem with rfl | hold
    · exact ⟨db', hdb', hcurrent⟩
    · exact h.versions db (List.mem_cons_of_mem _ hold)

/-- A task deletes the rows that had expired when it read the clock. -/
theorem twin_purgeSessions (h : Twin cutoff w v) {now : Time} (hnow : now ≤ cutoff) :
    Twin cutoff (execOp cfg (.purgeSessions now) w).2 v := by
  apply twin_transact_left h
  obtain ⟨goneS, goneT, hdb⟩ := h.db
  refine ⟨_, goneT, hdb.users, hdb.events, hdb.sessions.deleteWhere ?_, hdb.tokens⟩
  intro r hr
  exact le_trans (of_decide_eq_true hr) hnow

theorem twin_purgeTokens (h : Twin cutoff w v) {now : Time} (hnow : now ≤ cutoff) :
    Twin cutoff (execOp cfg (.purgeTokens now) w).2 v := by
  apply twin_transact_left h
  obtain ⟨goneS, goneT, hdb⟩ := h.db
  refine ⟨goneS, _, hdb.users, hdb.events, hdb.sessions, hdb.tokens.deleteWhere ?_⟩
  intro r hr
  exact le_trans (of_decide_eq_true hr) hnow

end Worlds

/-! The pools. -/

/-- A cleanup task reads the clock only while no other request waits. -/
def readsApart (s : Service) : Action Request Event → Bool
  | .run i =>
    !s.threads[i]?.any (fun th => th.req.purges && decide (th.code.next = some .clock)) ||
      s.threads.all (fun th => th.req.purges || !th.live || th.code.next.isNone)
  | _ => true

/-- No cleanup task runs. -/
def noPurge (s : Service) : Action Request Event → Bool
  | .run i => s.threads[i]?.all (fun th => !th.req.purges)
  | _ => true

/-- What a cleanup task does once it has read the clock. -/
def purgeAt : Request → Time → Api Response
  | .cleanupRevokedTokens, now => do
    let _ ← orRaise (← api (.purgeTokens now))
    return .completed none
  | _, now => do
    return .completed (some (← orRaise (← api (.purgeSessions now))))

abbrev ServiceThread := Thread Op Op.Res Err Response Request

/-- The thread in the second world, where a cleanup task is cancelled before it starts. -/
def shadow (cfg : Config) (th : ServiceThread) : ServiceThread :=
  if th.req.purges then ⟨th.req, serve cfg th.req, false⟩ else th

/-- What a thread may still do when the tasks have read the clock up to `cutoff`. -/
def Paced (cfg : Config) (cutoff : Time) (th : ServiceThread) : Prop :=
  if th.req.purges then
    th.code = serve cfg th.req ∨ (∃ now, now ≤ cutoff ∧ th.code = purgeAt th.req now) ∨ th.code.next = none
  else Unhurried cutoff (fun _ => True) th.code

/-- `t` follows `s` without its cleanup tasks. -/
structure Shadows (cfg : Config) (cutoff : Time) (s t : Service) : Prop where
  world : Twin cutoff s.state t.state
  threads : t.threads = s.threads.map (shadow cfg)
  paced : ∀ th ∈ s.threads, th.live = true → Paced cfg cutoff th

section Pools
variable {cfg : Config} {cutoff : Time} {s s' t : Service}

theorem serve_purge {req : Request} (hreq : req.purges = true) :
    serve cfg req = .call .clock (purgeAt req) := by
  cases req <;> first | rfl | cases hreq

/-- No request is answered before its first operation. -/
theorem serve_outcome (req : Request) : (serve cfg req).outcome = none := by
  cases req <;> rfl

theorem shadow_client (th : ServiceThread) (h : th.req.purges = false) : shadow cfg th = th := by
  rw [shadow, if_neg (by simp [h])]

theorem shadow_purge (th : ServiceThread) (h : th.req.purges = true) :
    shadow cfg th = ⟨th.req, serve cfg th.req, false⟩ := if_pos h

theorem paced_client {th : ServiceThread} (h : th.req.purges = false) :
    Paced cfg cutoff th ↔ Unhurried cutoff (fun _ => True) th.code := by
  rw [Paced, if_neg (by simp [h])]

theorem paced_serve (req : Request) : Paced cfg cutoff ⟨req, serve cfg req, true⟩ := by
  cases hreq : req.purges with
  | false => exact (paced_client hreq).mpr (unhurried_serve cfg hreq)
  | true =>
    rw [Paced, if_pos hreq]
    exact .inl rfl

/-- The threads when one of them changes. -/
theorem map_set_shadow {i : Nat} {th : ServiceThread} (h : t.threads = s.threads.map (shadow cfg)) :
    (s.threads.set i th).map (shadow cfg) = t.threads.set i (shadow cfg th) := by
  rw [h, List.map_set]

theorem Shadows.thread (h : Shadows cfg cutoff s t) {i : Nat} {th : ServiceThread} (hi : s.threads[i]? = some th) :
    t.threads[i]? = some (shadow cfg th) := by
  rw [h.threads, List.getElem?_map, hi, Option.map_some]

/-- Both programs have come to the same point. -/
theorem Shadows.settle {w v : World} (h : Twin cutoff w v) {req : Request} (hreq : req.purges = false)
    (p : Api Response) : Twin cutoff ((service cfg).settle req p w) ((service cfg).settle req p v) := by
  unfold System.settle
  split
  · exact twin_respond h hreq _
  · exact h

theorem Shadows.spawn (h : Shadows cfg cutoff s t) {req : Request} (ha : (service cfg).step s (.spawn req) = some s') :
    ∃ t', StepsIf cfg noPurge t t' ∧ Shadows cfg cutoff s' t' := by
  obtain ⟨hacc, rfl⟩ := System.step_spawn ha
  have hstate : ∀ w, (service cfg).settle req ((service cfg).program req) w = w :=
    fun w => settle_of_none (serve_outcome req)
  have hpaced : ∀ th ∈ s.threads ++ [⟨req, serve cfg req, true⟩], th.live = true → Paced cfg cutoff th := by
    intro th hth hlive
    rcases List.mem_append.mp hth with hold | hnew
    · exact h.paced th hold hlive
    · rw [List.mem_singleton.mp hnew]
      exact paced_serve req
  have hspawn : (service cfg).step t (.spawn req) =
      some ⟨t.state, t.threads ++ [⟨req, serve cfg req, true⟩]⟩ := by
    have hacc' : t.state.accepts req = true := by rw [twin_accepts h.world]; exact hacc
    simp only [System.step, hstate]
    exact if_pos hacc'
  cases hreq : req.purges with
  | false =>
    refine ⟨_, Relation.ReflTransGen.single ⟨.spawn req, rfl, hspawn⟩, ?_, ?_, hpaced⟩
    · rw [hstate]
      exact h.world
    · show t.threads ++ _ = (s.threads ++ [(⟨req, serve cfg req, true⟩ : ServiceThread)]).map (shadow cfg)
      have hnew : shadow cfg ⟨req, serve cfg req, true⟩ = ⟨req, serve cfg req, true⟩ := shadow_client _ hreq
      rw [List.map_append, h.threads, List.map_singleton, hnew]
  | true =>
    -- the task is let in and cancelled before it runs
    have hlast : (t.threads ++ [⟨req, serve cfg req, true⟩])[t.threads.length]? =
        some (⟨req, serve cfg req, true⟩ : ServiceThread) := List.getElem?_concat_length
    have hcancel : (service cfg).step ⟨t.state, t.threads ++ [⟨req, serve cfg req, true⟩]⟩ (.cancel t.threads.length) =
        some ⟨t.state, t.threads ++ [⟨req, serve cfg req, false⟩]⟩ := by
      simp only [System.step, hlast, List.set_append_right _ _ (Nat.le_refl _), Nat.sub_self, List.set_cons_zero]
    refine ⟨_, (Relation.ReflTransGen.single ⟨.spawn req, rfl, hspawn⟩).tail ⟨.cancel _, rfl, hcancel⟩, ?_, ?_, hpaced⟩
    · rw [hstate]
      exact h.world
    · show t.threads ++ _ = (s.threads ++ [(⟨req, serve cfg req, true⟩ : ServiceThread)]).map (shadow cfg)
      have hnew : shadow cfg ⟨req, serve cfg req, true⟩ = ⟨req, serve cfg req, false⟩ := shadow_purge _ hreq
      rw [List.map_append, h.threads, List.map_singleton, hnew]

/-- What changes besides the thread `i`, which now stands at `code`. -/
theorem Shadows.set {i : Nat} {req : Request} {code : Api Response} {w v : World} (h : Shadows cfg cutoff s t)
    (hreq : req.purges = false) (hworld : Twin cutoff w v) (hcode : Unhurried cutoff (fun _ => True) code) :
    Shadows cfg cutoff ⟨w, s.threads.set i ⟨req, code, true⟩⟩ ⟨v, t.threads.set i ⟨req, code, true⟩⟩ := by
  have hnew : shadow cfg ⟨req, code, true⟩ = ⟨req, code, true⟩ := shadow_client _ hreq
  refine ⟨hworld, ?_, ?_⟩
  · show t.threads.set i _ = (s.threads.set i _).map (shadow cfg)
    rw [map_set_shadow h.threads, hnew]
  · intro th hth hlive
    rcases List.mem_or_eq_of_mem_set hth with hold | rfl
    · exact h.paced th hold hlive
    · exact (paced_client hreq).mpr hcode

/-- The clock is past `cutoff`. -/
theorem Twin.reads {w v : World} (h : Twin cutoff w v) (op : Op) : op.Reads cutoff (execOp cfg op w).1 := by
  cases op with
  | clock => exact h.past
  | _ => trivial

/-- An operation of a client runs in both worlds. -/
theorem Shadows.run (h : Shadows cfg cutoff s t) (hs : Sane t.state) (hown : OwnRows t.state)
    (hjust : ∀ i op, t.Waits i op → Justified op t.state) {i : Nat} {req : Request} {op : Op}
    {k : op.Res → Api Response} (hi : s.threads[i]? = some ⟨req, .call op k, true⟩) (hreq : req.purges = false)
    (ha : (service cfg).step s (.run i) = some s') :
    ∃ t', StepsIf cfg noPurge t t' ∧ Shadows cfg cutoff s' t' := by
  have hi' : t.threads[i]? = some ⟨req, .call op k, true⟩ := by
    rw [h.thread hi]
    exact congrArg some (shadow_client _ hreq)
  have hlt : i < t.threads.length := (List.getElem?_eq_some_iff.mp hi').1
  have hC : noPurge t (.run i) = true := by simp [noPurge, hi', hreq]
  have hs' : s' = ⟨(service cfg).settle req (k (execOp cfg op s.state).1) (execOp cfg op s.state).2,
      s.threads.set i ⟨req, k (execOp cfg op s.state).1, true⟩⟩ := by
    simp only [System.step, hi] at ha
    exact (Option.some.inj ha).symm
  have ht' : (service cfg).step t (.run i) =
      some ⟨(service cfg).settle req (k (execOp cfg op t.state).1) (execOp cfg op t.state).2,
        t.threads.set i ⟨req, k (execOp cfg op t.state).1, true⟩⟩ := by
    simp only [System.step, hi']
    rfl
  obtain ⟨hfits, htolerates, hrest⟩ : Unhurried cutoff (fun _ => True) (.call op k) :=
    (paced_client hreq).mp (h.paced _ (List.mem_of_getElem? hi) rfl)
  have hcode : Unhurried cutoff (fun _ => True) (k (execOp cfg op s.state).1) := hrest _ (h.world.reads op)
  -- where the answers are alike, one step is followed by one step
  have hone : (execOp cfg op s.state).1 = (execOp cfg op t.state).1 →
      Twin cutoff (execOp cfg op s.state).2 (execOp cfg op t.state).2 →
      ∃ t', StepsIf cfg noPurge t t' ∧ Shadows cfg cutoff s' t' := by
    intro hanswer hworld
    refine ⟨_, Relation.ReflTransGen.single ⟨.run i, hC, ht'⟩, ?_⟩
    rw [hs', ← hanswer]
    exact h.set hreq (Shadows.settle hworld hreq _) hcode
  by_cases hsession : ∃ sid, op = .getSession sid
  · obtain ⟨sid, rfl⟩ := hsession
    rcases twin_getSession cfg h.world sid with hsame | ⟨hnone, r, hr, hspent⟩
    · exact hone hsame h.world
    · -- the session has expired and is gone: the second world reads the clock and raises the same
      obtain ⟨e, kk, hknone, hksome, hkk⟩ := htolerates r hspent
      have hraise : kk t.state.now = .raise e := hkk _ (h.world.now ▸ h.world.past)
      have hfirst : (service cfg).step t (.run i) =
          some ⟨t.state, t.threads.set i ⟨req, .call .clock kk, true⟩⟩ := by
        rw [ht', hr, hksome]
        rfl
      have hmid : (t.threads.set i ⟨req, .call .clock kk, true⟩)[i]? = some (⟨req, .call .clock kk, true⟩ : ServiceThread) :=
        List.getElem?_set_self hlt
      have hsecond : (service cfg).step ⟨t.state, t.threads.set i ⟨req, .call .clock kk, true⟩⟩ (.run i) =
          some ⟨(service cfg).settle req (.raise e) t.state, t.threads.set i ⟨req, .raise e, true⟩⟩ := by
        simp only [System.step, hmid, List.set_set]
        show some (⟨(service cfg).settle req (kk t.state.now) t.state,
          t.threads.set i ⟨req, kk t.state.now, true⟩⟩ : Service) = _
        rw [hraise]
      have hC' : noPurge ⟨t.state, t.threads.set i ⟨req, .call .clock kk, true⟩⟩ (.run i) = true := by
        simp [noPurge, hmid, hreq]
      refine ⟨_, (Relation.ReflTransGen.single ⟨.run i, hC, hfirst⟩).tail ⟨.run i, hC', hsecond⟩, ?_⟩
      rw [hs', hnone, hknone]
      exact h.set hreq (Shadows.settle h.world hreq _) trivial
  · exact hone (twin_execOp h.world hfits hs (hjust i op ⟨_, hi', rfl, rfl⟩) hown fun sid hop => hsession ⟨sid, hop⟩).1
      (twin_execOp h.world hfits hs (hjust i op ⟨_, hi', rfl, rfl⟩) hown fun sid hop => hsession ⟨sid, hop⟩).2

/-- No thread changes in the second world. -/
theorem Shadows.purge_thread (h : Shadows cfg cutoff s t) {i : Nat} {req : Request} {code code' : Api Response}
    (hi : s.threads[i]? = some ⟨req, code, true⟩) (hreq : req.purges = true) :
    t.threads = (s.threads.set i ⟨req, code', true⟩).map (shadow cfg) := by
  have hsame : shadow cfg ⟨req, code', true⟩ = shadow cfg ⟨req, code, true⟩ := by
    rw [shadow_purge _ hreq, shadow_purge _ hreq]
  have hi' := h.thread hi
  obtain ⟨hlt, hget⟩ := List.getElem?_eq_some_iff.mp hi'
  rw [map_set_shadow h.threads, hsame, ← hget, List.set_getElem_self]

/-- The rows are deleted, and the task is done. -/
theorem Shadows.purged (h : Shadows cfg cutoff s t) {i : Nat} {req : Request} {code p : Api Response} {w : World}
    (hi : s.threads[i]? = some ⟨req, code, true⟩) (hreq : req.purges = true) (hworld : Twin cutoff w t.state)
    {out : Except Err Response} (hp : p.outcome = some out)
    (hout : ∀ user session, out ≠ .ok (.tokens user session)) :
    Shadows cfg cutoff ⟨(service cfg).settle req p w, s.threads.set i ⟨req, p, true⟩⟩ t := by
  refine ⟨?_, h.purge_thread hi hreq, ?_⟩
  · rw [settle_of_some hp]
    exact twin_respond_purge hworld hreq hout
  · intro th hth hlive
    rcases List.mem_or_eq_of_mem_set hth with hold | rfl
    · exact h.paced th hold hlive
    · rw [Paced, if_pos hreq]
      refine .inr (.inr ?_)
      cases p with
      | call op k => cases hp
      | _ => rfl

/-- A cleanup task runs in the first world only. -/
theorem Shadows.run_purge (h : Shadows cfg cutoff s t) {i : Nat} {req : Request} {op : Op}
    {k : op.Res → Api Response} (hi : s.threads[i]? = some ⟨req, .call op k, true⟩) (hreq : req.purges = true)
    (hC : readsApart s (.run i) = true) (ha : (service cfg).step s (.run i) = some s') :
    ∃ later, Shadows cfg later s' t := by
  have hpaced := h.paced _ (List.mem_of_getElem? hi) rfl
  rw [Paced, if_pos hreq] at hpaced
  rcases hpaced with hstart | ⟨now, hnow, hcut⟩ | hdone
  · -- it reads the clock: no client waits, and who comes later reads no earlier time
    rw [show (⟨req, .call op k, true⟩ : ServiceThread).code = .call op k from rfl, serve_purge hreq] at hstart
    cases hstart
    have hs' : s' = ⟨s.state, s.threads.set i ⟨req, purgeAt req s.state.now, true⟩⟩ := by
      simp only [System.step, hi] at ha
      rw [← Option.some.inj ha]
      cases req <;> rfl
    rw [hs']
    refine ⟨s.state.now, h.world.cut, h.purge_thread hi hreq, ?_⟩
    intro th hth hlive
    rcases List.mem_or_eq_of_mem_set hth with hold | rfl
    · cases hth' : th.req.purges with
      | true =>
        have hbefore := h.paced th hold hlive
        rw [Paced, if_pos hth'] at hbefore ⊢
        refine hbefore.imp_right (Or.imp_left ?_)
        intro hcut
        obtain ⟨now, hnow, hcode⟩ := hcut
        exact ⟨now, le_trans hnow h.world.past, hcode⟩
      | false =>
        rw [paced_client hth']
        simp only [readsApart, hi, Option.any_some, hreq, Bool.true_and, Prog.next, decide_true, Bool.not_true,
          Bool.false_or, List.all_eq_true] at hC
        have hquiet := hC th hold
        rw [hth', hlive, Bool.not_true, Bool.false_or, Bool.false_or] at hquiet
        cases hcode : th.code with
        | ret a => trivial
        | raise e => trivial
        | call op' k' => rw [hcode] at hquiet; cases hquiet
    · rw [Paced, if_pos hreq]
      exact .inr (.inl ⟨s.state.now, le_refl _, rfl⟩)
  · -- it deletes what had expired when it read the clock
    have hs' : s' = ⟨(service cfg).settle req (k (execOp cfg op s.state).1) (execOp cfg op s.state).2,
        s.threads.set i ⟨req, k (execOp cfg op s.state).1, true⟩⟩ := by
      simp only [System.step, hi] at ha
      exact (Option.some.inj ha).symm
    rw [hs']
    cases req with
    | cleanupRevokedTokens =>
      cases hcut
      exact ⟨cutoff, h.purged hi rfl (twin_purgeTokens h.world hnow) rfl fun user session hout => by cases hout⟩
    | cleanupRefreshSessions =>
      cases hcut
      exact ⟨cutoff, h.purged hi rfl (twin_purgeSessions h.world hnow) rfl fun user session hout => by cases hout⟩
    | _ => cases hreq
  · cases hdone

theorem Shadows.cancel (h : Shadows cfg cutoff s t) {i : Nat} (ha : (service cfg).step s (.cancel i) = some s') :
    ∃ t', StepsIf cfg noPurge t t' ∧ Shadows cfg cutoff s' t' := by
  obtain ⟨th, hi, rfl⟩ := System.step_cancel ha
  have hi' := h.thread hi
  have hcancel : (service cfg).step t (.cancel i) =
      some ⟨t.state, t.threads.set i { shadow cfg th with live := false }⟩ := by
    simp only [System.step, hi']
  have hdead : shadow cfg { th with live := false } = { shadow cfg th with live := false } := by
    cases hreq : th.req.purges with
    | true => rw [shadow_purge th hreq, shadow_purge { th with live := false } hreq]
    | false => rw [shadow_client th hreq, shadow_client { th with live := false } hreq]
  refine ⟨_, Relation.ReflTransGen.single ⟨.cancel i, rfl, hcancel⟩, h.world, ?_, ?_⟩
  · show t.threads.set i _ = (s.threads.set i _).map (shadow cfg)
    rw [map_set_shadow h.threads, hdead]
  · intro th' hth' hlive
    rcases List.mem_or_eq_of_mem_set hth' with hold | rfl
    · exact h.paced th' hold hlive
    · cases hlive

theorem Shadows.env (h : Shadows cfg cutoff s t) {e : Event} (ha : (service cfg).step s (.env e) = some s') :
    ∃ t', StepsIf cfg noPurge t t' ∧ Shadows cfg cutoff s' t' := by
  obtain ⟨w, hw, rfl⟩ := System.step_env ha
  obtain ⟨e', v, hv, hworld⟩ := twin_event h.world hw
  have henv : (service cfg).step t (.env e') = some { t with state := v } := by
    show (t.state.event e').map _ = _
    rw [hv]
    rfl
  exact ⟨_, Relation.ReflTransGen.single ⟨.env e', rfl, henv⟩, hworld, h.threads, h.paced⟩

/-- Every step is followed by steps in which no cleanup task runs. -/
theorem Shadows.step {now : Time} (ht : StepsIf cfg noPurge (System.start (World.init now)) t)
    (h : Shadows cfg cutoff s t) {a : Action Request Event} (hC : readsApart s a = true)
    (ha : (service cfg).step s a = some s') :
    ∃ t' later, StepsIf cfg noPurge t t' ∧ Shadows cfg later s' t' := by
  cases a with
  | spawn req =>
    obtain ⟨t', hsteps, h'⟩ := h.spawn ha
    exact ⟨t', cutoff, hsteps, h'⟩
  | run i =>
    obtain ⟨req, op, k, hi, -⟩ := System.step_run ha
    cases hreq : req.purges with
    | true =>
      obtain ⟨later, h'⟩ := h.run_purge hi hreq hC ha
      exact ⟨t, later, Relation.ReflTransGen.refl, h'⟩
    | false =>
      have hserved := served_steps ht (served_start now)
      have hjust : ∀ i op, t.Waits i op → Justified op t.state := by
        intro j op' hw
        obtain ⟨t₁, -, hg⟩ := waits_guarantee hserved hw
        exact hg.1
      obtain ⟨t', hsteps, h'⟩ := h.run hserved.2.1 (fun p row hp hrow => row_of_ref ht hp hrow) hjust hi hreq ha
      exact ⟨t', cutoff, hsteps, h'⟩
  | cancel i =>
    obtain ⟨t', hsteps, h'⟩ := h.cancel ha
    exact ⟨t', cutoff, hsteps, h'⟩
  | env e =>
    obtain ⟨t', hsteps, h'⟩ := h.env ha
    exact ⟨t', cutoff, hsteps, h'⟩

end Pools

/-- What nobody can tell apart: the clock, the users, the outbox, the keys in Redis and
the tokens are the same, the answers are the same but for the tasks' own, and only rows
that have expired are missing. -/
structure Alike (w v : World) : Prop where
  now : v.now = w.now
  users : v.db.users = w.db.users
  events : v.db.outboxEvents = w.db.outboxEvents
  redis : v.redis = w.redis
  signed : v.signed = w.signed
  responses : v.responses = w.responses.filter (fun x => !x.1.purges)
  sessions : ∃ gone, Table.Thinned (fun r => r.expiresAt ≤ w.now) gone w.db.refreshSessions v.db.refreshSessions
  tokens : ∃ gone, Table.Thinned (fun r => r.expiresAt ≤ w.now) gone w.db.revokedTokens v.db.revokedTokens

theorem Twin.alike {cutoff : Time} {w v : World} (h : Twin cutoff w v) : Alike w v := by
  obtain ⟨goneS, goneT, hdb⟩ := h.cut.db
  exact ⟨h.now, hdb.users.symm, hdb.events.symm, h.redis, h.signed, h.responses, ⟨goneS, hdb.sessions⟩,
    ⟨goneT, hdb.tokens⟩⟩

theorem twin_start (now : Time) : Twin now (World.init now) (World.init now) := by
  refine ⟨rfl, le_refl _, rfl, rfl, rfl, ⟨fun _ => false, fun _ => false, rfl, rfl, ?_, ?_⟩, rfl, ?_, rfl, rfl⟩
  · exact Table.thinned_refl _
  · exact Table.thinned_refl _
  · intro db hmem
    rcases List.mem_cons.mp hmem with rfl | hmem
    · exact ⟨_, List.mem_singleton_self _, rfl⟩
    · exact ⟨db, hmem, rfl⟩

/-- Whatever the service does, it could have done without its cleanup tasks, if these
read the clock while no other request is under way. -/
theorem cleanup_unseen (cfg : Config) (now : Time) (s : Service)
    (h : StepsIf cfg readsApart (System.start (World.init now)) s) :
    ∃ t : Service, StepsIf cfg noPurge (System.start (World.init now)) t ∧ Alike s.state t.state := by
  have hstart : Shadows cfg now (System.start (World.init now)) (System.start (World.init now)) := by
    refine ⟨twin_start now, rfl, ?_⟩
    intro th hth
    cases hth
  obtain ⟨t, ht, -, cutoff, hshadows⟩ := System.Steps.simulated
    (R := fun v t => StepsIf cfg noPurge (System.start (World.init now)) t ∧ ∃ cutoff, Shadows cfg cutoff v t)
    (fun v a v' t hR hC ha => by
      obtain ⟨ht, cutoff, hshadows⟩ := hR
      obtain ⟨t', later, hsteps, h'⟩ := hshadows.step ht hC ha
      exact ⟨t', hsteps, ht.trans hsteps, later, h'⟩)
    h ⟨Relation.ReflTransGen.refl, now, hstart⟩
  exact ⟨t, ht, hshadows.world.alike⟩

/-- Both tasks run after the session and the used link have expired, and the user logs in
again. -/
theorem cleanup_unseen_sample : ∃ s t : Service,
    (s.state.responses.map (fun x => x.1.purges) = [false, true, true, false, false, false] ∧
      s.state.db.refreshSessions.rows.length = 1 ∧ s.state.db.revokedTokens.rows.length = 0) ∧
    StepsIf .sample noPurge (System.start (World.init 0)) t ∧ Alike s.state t.state := by
  have hrun : ((service .sample).runIf readsApart (System.start (World.init 0))
      (signIn ++ .env (.tick (30 * 86400 * 1000000)) :: serially 3 2 .cleanupRevokedTokens ++
        serially 4 2 .cleanupRefreshSessions ++ serially 5 3 (.login "ada@example.org" "first"))).any (fun s =>
      decide (s.state.responses.map (fun x => x.1.purges) = [false, true, true, false, false, false] ∧
        s.state.db.refreshSessions.rows.length = 1 ∧ s.state.db.revokedTokens.rows.length = 0)) = true := by
    decide +kernel
  obtain ⟨s, hs, hfacts⟩ := (Option.any_eq_true _ _).mp hrun
  obtain ⟨t, ht, halike⟩ := cleanup_unseen .sample 0 s (System.steps_of_runIf _ _ _ hs)
  exact ⟨s, t, of_decide_eq_true hfacts, ht, halike⟩

end FastiKit
