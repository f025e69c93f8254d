import FastiKit.Auth.World

/- What each transaction does to the database: one lemma a transaction, giving
   every way it can end and the rows it leaves. A transaction that raises leaves
   the database as it was. The lemmas about requests cite these and do not look
   at the statements again. -/
namespace FastiKit

open Interleave Relational

/-! Row changes the transactions share. -/

/-- One user's row updated. -/
def Db.setUser (db : Db) (id : Uuid) (fields : UserFields) (now : Time) : Db :=
  { db with users := db.users.updateWhere (fun r => r.id = id) (fields.apply now) (fields.apply_id now) }

/-- The sessions that satisfy the conditions revoked. -/
def Db.revokeWhere (db : Db) (conditions : RefreshSession → Bool) (now : Time) : Db :=
  let refreshSessions := db.refreshSessions.updateWhere
    (fun r => conditions r && r.revokedAt.isNone) (RefreshSession.revoked now)
    (RefreshSession.revoked_id now)
  { db with refreshSessions }

/-- A token's row, unless there is one. -/
def Db.addIfAbsent (db : Db) (token : TokenRef) : Db :=
  { db with revokedTokens := (db.revokedTokens.insert ⟨token.jti, token.expiresAt⟩).getD db.revokedTokens }

def Db.addAll (db : Db) (tokens : List TokenRef) : Db := tokens.foldl Db.addIfAbsent db

/-- What a logout leaves: its tokens, and its session revoked if it names one. -/
def Db.logout (db : Db) (userId : Uuid) (tokens : List TokenRef) (refreshSessionId : Option Uuid)
    (now : Time) : Db :=
  match refreshSessionId with
  | none => db.addAll tokens
  | some sessionId => (db.addAll tokens).revokeWhere (fun r => r.id = sessionId && r.userId = userId) now

/-- The user's sessions revoked, of those the snapshot shows. -/
def Db.revokeAllForUser (db : Db) (userId : Uuid) (snapshot : Snapshot) (now : Time) : Db :=
  db.revokeWhere (fun r => r.userId = userId && snapshot.shows r.id) now

/-- What a closure leaves. -/
def Db.closeAccount (db : Db) (userId : Uuid) (tokens : List TokenRef) (snapshot : Snapshot) (now : Time) : Db :=
  ((db.setUser userId { isActive := some false } now).addAll tokens).revokeAllForUser userId snapshot now

/-- The pending events among these stamped. -/
def Db.dispatch (db : Db) (ids : List Uuid) (now : Time) : Db :=
  let outboxEvents := db.outboxEvents.updateWhere (fun e => ids.contains e.id && e.pending)
    (OutboxEvent.dispatched now) (OutboxEvent.dispatched_id now)
  { db with outboxEvents }

/-- The row `rotate` claims, if it is there to claim. -/
def Db.rotate (db : Db) (sessionId userId : Uuid) (generation : Nat) (now : Time) : Db :=
  let refreshSessions := db.refreshSessions.updateWhere
    (fun r => r.id = sessionId && r.rotatable userId generation now) (RefreshSession.rotated now)
    (RefreshSession.rotated_id now)
  { db with refreshSessions }

theorem Db.get_setUser (db : Db) (id : Uuid) (fields : UserFields) (now : Time) (k : Uuid) :
    (db.setUser id fields now).users.get k =
      (db.users.get k).map (fun u => if k = id then fields.apply now u else u) := by
  rw [setUser, Table.get_updateWhere]
  cases hu : db.users.get k with
  | none => rfl
  | some u =>
    have hk : u.id = k := Table.get_key hu
    simp [hk]

theorem Db.get_revokeWhere (db : Db) (conditions : RefreshSession → Bool) (now : Time) (k : Uuid) :
    (db.revokeWhere conditions now).refreshSessions.get k =
      (db.refreshSessions.get k).map
        (fun r => if conditions r && r.revokedAt.isNone then r.revoked now else r) := by
  rw [revokeWhere, Table.get_updateWhere]

/-- Where an UPDATE that began with this snapshot commits, it leaves the session revoked. -/
def Snapshot.covers (snapshot : Snapshot) (r : RefreshSession) : Bool := snapshot.shows r.id || r.revokedAt.isSome

theorem Db.revokedAt_of_covers {db : Db} {userId sid : Uuid} {snapshot : Snapshot} {now : Time}
    {session : RefreshSession}
    (hget : (db.revokeAllForUser userId snapshot now).refreshSessions.get sid = some session)
    (howner : session.userId = userId)
    (hcovers : ∀ r, db.refreshSessions.get sid = some r → snapshot.covers r = true) :
    session.revokedAt.isSome = true := by
  rw [revokeAllForUser, Db.get_revokeWhere, Option.map_eq_some_iff] at hget
  obtain ⟨old, hold, rfl⟩ := hget
  have hcovered := hcovers old hold
  by_cases hmatch : (decide (old.userId = userId) && snapshot.shows old.id && old.revokedAt.isNone) = true
  · rw [if_pos hmatch]
    rfl
  · rw [if_neg hmatch] at howner ⊢
    simp only [Snapshot.covers, Bool.or_eq_true] at hcovered
    rcases hcovered with hshown | hrevoked
    · cases hrevoked : old.revokedAt with
      | some stamp => rfl
      | none => simp [howner, hshown, hrevoked] at hmatch
    · exact hrevoked

theorem Db.get_rotate {db : Db} {sessionId userId : Uuid} {generation : Nat} {now : Time}
    {r : RefreshSession} (hr : db.refreshSessions.get sessionId = some r)
    (hrot : r.rotatable userId generation now = true) (k : Uuid) :
    (db.rotate sessionId userId generation now).refreshSessions.get k =
      if k = sessionId then some (r.rotated now) else db.refreshSessions.get k := by
  rw [rotate, Table.get_updateWhere]
  by_cases hk : k = sessionId
  · subst hk
    have hid : r.id = k := Table.get_key hr
    simp [hr, hid, hrot]
  · cases hg : db.refreshSessions.get k with
    | none => simp [hk]
    | some r' =>
      have hid : r'.id = k := Table.get_key hg
      simp [hid, hk]

theorem Db.get_dispatch (db : Db) (ids : List Uuid) (now : Time) (k : Uuid) :
    (db.dispatch ids now).outboxEvents.get k =
      (db.outboxEvents.get k).map (fun e => if ids.contains e.id && e.pending then e.dispatched now else e) := by
  rw [dispatch, Table.get_updateWhere]

@[simp] theorem Db.addAll_nil (db : Db) : db.addAll [] = db := rfl

@[simp] theorem Db.addAll_cons (db : Db) (token : TokenRef) (tokens : List TokenRef) :
    db.addAll (token :: tokens) = (db.addIfAbsent token).addAll tokens := rfl

/-- A token's row is only added. -/
theorem Db.get_addIfAbsent (db : Db) (token : TokenRef) (k : Uuid) :
    (db.addIfAbsent token).revokedTokens.get k =
      (db.revokedTokens.get k).or (if token.jti = k then some ⟨token.jti, token.expiresAt⟩ else none) := by
  unfold addIfAbsent
  cases hi : db.revokedTokens.insert ⟨token.jti, token.expiresAt⟩ with
  | none =>
    obtain ⟨r, hr⟩ := Table.insert_eq_none.mp hi
    by_cases hk : token.jti = k
    · subst hk
      simp only [Option.getD_none, if_true]
      rw [hr]
      rfl
    · simp [hk]
  | some t =>
    have hfresh := Table.insert_fresh hi
    simp only [Option.getD_some, Table.get_insert hi]
    by_cases hk : token.jti = k
    · subst hk
      rw [hfresh]
      rfl
    · simp [hk]

/-- The first of the tokens counts, where there is no row yet. -/
theorem Db.get_addAll (tokens : List TokenRef) (k : Uuid) :
    ∀ db : Db, (db.addAll tokens).revokedTokens.get k = (db.revokedTokens.get k).or
      ((tokens.find? (fun token => token.jti = k)).map (fun token => ⟨token.jti, token.expiresAt⟩)) := by
  induction tokens with
  | nil => intro db; simp
  | cons token tokens ih =>
    intro db
    rw [addAll_cons, ih, get_addIfAbsent, Option.or_assoc]
    by_cases hk : token.jti = k
    · simp [hk]
    · simp [hk]

theorem Db.addAll_frame (tokens : List TokenRef) :
    ∀ db : Db, (db.addAll tokens).users = db.users ∧
      (db.addAll tokens).refreshSessions = db.refreshSessions ∧
      (db.addAll tokens).outboxEvents = db.outboxEvents := by
  induction tokens with
  | nil => intro db; exact ⟨rfl, rfl, rfl⟩
  | cons token tokens ih => intro db; exact ih (db.addIfAbsent token)

section Eval
variable (cfg : Config)

theorem eval_stageUpdate (id : Uuid) (fields : UserFields) (now : Time) (db : Db) :
    (db.users.get id = none ∧
      (UserRepository.stageUpdate id fields now).eval (execStmt cfg) db = (.ok none, db)) ∨
    (∃ e, (UserRepository.stageUpdate id fields now).eval (execStmt cfg) db = (.error e, db)) ∨
    ∃ u, db.users.get id = some u ∧ fields.nullColumn = none ∧
      (UserRepository.stageUpdate id fields now).eval (execStmt cfg) db =
        (.ok (some (fields.apply now u)), db.setUser id fields now) := by
  cases hu : db.users.get id with
  | none =>
    left
    simp [UserRepository.stageUpdate, sql, execStmt, hu]
  | some u =>
    right
    cases hnull : fields.nullColumn with
    | some column =>
      left
      simp only [UserRepository.stageUpdate, sql, UserRepository.flushOrRaise, Prog.perform_bind,
        Prog.eval_call, execStmt, hu, hnull]
      split <;> simp
    | none =>
      by_cases htaken : db.emailTaken (fields.set u).email id = true
      · left
        simp only [UserRepository.stageUpdate, sql, UserRepository.flushOrRaise, Prog.perform_bind,
          Prog.eval_call, execStmt, hu, hnull, htaken, if_true]
        split <;> simp
      · right
        refine ⟨u, rfl, rfl, ?_⟩
        simp [UserRepository.stageUpdate, sql, UserRepository.flushOrRaise, execStmt, hu, hnull, htaken,
          Db.setUser]

theorem eval_stageAddUser (model : User) (db : Db) :
    (∃ e, (UserRepository.stageAdd model).eval (execStmt cfg) db = (.error e, db)) ∨
    ∃ users, db.users.insert model = some users ∧
      (UserRepository.stageAdd model).eval (execStmt cfg) db = (.ok model, { db with users }) := by
  simp only [UserRepository.stageAdd, UserRepository.flushOrRaise, sql, Prog.perform_bind, Prog.eval_call,
    execStmt]
  by_cases htaken : db.emailTaken model.email model.id = true
  · left
    simp only [htaken, if_true]
    split <;> simp
  · cases hi : db.users.insert model with
    | none =>
      left
      simp only [htaken, Bool.false_eq_true, if_false]
      split <;> simp
    | some users =>
      right
      exact ⟨users, rfl, by simp [htaken]⟩

theorem eval_stageAdd (jti : Uuid) (expiresAt : Time) (db : Db) :
    (∃ e, (RevokedTokenRepository.stageAdd jti expiresAt).eval (execStmt cfg) db = (.error e, db)) ∨
    ∃ revokedTokens, db.revokedTokens.insert ⟨jti, expiresAt⟩ = some revokedTokens ∧
      (RevokedTokenRepository.stageAdd jti expiresAt).eval (execStmt cfg) db =
        (.ok (), { db with revokedTokens }) := by
  cases h : db.revokedTokens.insert ⟨jti, expiresAt⟩ with
  | none => left; simp [RevokedTokenRepository.stageAdd, sql, execStmt, h]
  | some revokedTokens =>
    right
    exact ⟨revokedTokens, rfl, by simp [RevokedTokenRepository.stageAdd, sql, execStmt, h]⟩

theorem eval_stageAddIfAbsent (token : TokenRef) (db : Db) :
    (RevokedTokenRepository.stageAddIfAbsent token.jti token.expiresAt).eval (execStmt cfg) db =
      (.ok (), db.addIfAbsent token) := by
  cases h : db.revokedTokens.insert ⟨token.jti, token.expiresAt⟩ <;>
    simp [RevokedTokenRepository.stageAddIfAbsent, sql, Prog.perform, execStmt, Db.addIfAbsent, h]

theorem eval_stageAddAll (tokens : List TokenRef) :
    ∀ db : Db, (RevokedTokenRepository.stageAddAll tokens).eval (execStmt cfg) db =
      (.ok (), db.addAll tokens) := by
  induction tokens with
  | nil => intro db; rfl
  | cons token tokens ih =>
    intro db
    simp only [RevokedTokenRepository.stageAddAll, Prog.eval_bind, eval_stageAddIfAbsent, ih,
      Db.addAll_cons]

theorem eval_stageAddEvent (event : OutboxEvent EmailPayload) (db : Db) :
    (∃ e, (OutboxRepository.stageAdd event).eval (execStmt cfg) db = (.error e, db)) ∨
    ∃ outboxEvents, db.outboxEvents.insert event = some outboxEvents ∧
      (OutboxRepository.stageAdd event).eval (execStmt cfg) db = (.ok (), { db with outboxEvents }) := by
  cases h : db.outboxEvents.insert event with
  | none => left; simp [OutboxRepository.stageAdd, sql, execStmt, h]
  | some outboxEvents => right; exact ⟨outboxEvents, rfl, by simp [OutboxRepository.stageAdd, sql, execStmt, h]⟩

theorem eval_create (id userId : Uuid) (expiresAt : Time) (db : Db) :
    (∃ e, (RefreshSessionRepository.create id userId expiresAt).eval (execStmt cfg) db = (.error e, db)) ∨
    ∃ u refreshSessions, db.users.get userId = some u ∧
      db.refreshSessions.insert (newSession id userId expiresAt) = some refreshSessions ∧
      (RefreshSessionRepository.create id userId expiresAt).eval (execStmt cfg) db =
        (.ok (newSession id userId expiresAt), { db with refreshSessions }) := by
  have huser : (newSession id userId expiresAt).userId = userId := rfl
  cases hu : db.users.get userId with
  | none =>
    left
    simp [RefreshSessionRepository.create, sql, execStmt, huser, hu]
  | some u =>
    cases hi : db.refreshSessions.insert (newSession id userId expiresAt) with
    | none =>
      left
      simp [RefreshSessionRepository.create, sql, execStmt, huser, hu, hi]
    | some refreshSessions =>
      right
      exact ⟨u, refreshSessions, rfl, rfl,
        by simp [RefreshSessionRepository.create, sql, execStmt, huser, hu, hi]⟩

end Eval

/-! The transactions. -/

section Transactions
variable (cfg : Config)

variable {cfg} {α : Type} {tx : Tx α} {db : Db}

theorem transaction_commit {a : α} {db' : Db} (h : tx.eval (execStmt cfg) db = (.ok a, db')) :
    transaction cfg tx db = (.ok a, db') := by
  simp only [transaction, h]

theorem transaction_rollback {e : Err} {db' : Db} (h : tx.eval (execStmt cfg) db = (.error e, db')) :
    transaction cfg tx db = (.error e, db) := by
  simp only [transaction, h]

variable (cfg)

theorem transaction_update (id : Uuid) (fields : UserFields) (now : Time) (db : Db) :
    (db.users.get id = none ∧
      transaction cfg (UserRepository.update id fields now) db = (.ok none, db)) ∨
    (∃ e, transaction cfg (UserRepository.update id fields now) db = (.error e, db)) ∨
    ∃ u, db.users.get id = some u ∧ fields.nullColumn = none ∧
      transaction cfg (UserRepository.update id fields now) db =
        (.ok (some (fields.apply now u)), db.setUser id fields now) := by
  rcases eval_stageUpdate cfg id fields now db with ⟨hu, h⟩ | ⟨e, h⟩ | ⟨u, hu, hnull, h⟩
  · exact .inl ⟨hu, transaction_commit h⟩
  · exact .inr (.inl ⟨e, transaction_rollback h⟩)
  · exact .inr (.inr ⟨u, hu, hnull, transaction_commit h⟩)

theorem transaction_register (model : User) (event : OutboxEvent EmailPayload) (db : Db) :
    (∃ e, transaction cfg (UserRepository.register model event) db = (.error e, db)) ∨
    ∃ users outboxEvents, db.users.insert model = some users ∧
      db.outboxEvents.insert event = some outboxEvents ∧
      transaction cfg (UserRepository.register model event) db =
        (.ok model, { db with users, outboxEvents }) := by
  rcases eval_stageAddUser cfg model db with ⟨e, h⟩ | ⟨users, hu, h⟩
  · left
    exact ⟨_, transaction_rollback (by simp only [UserRepository.register, Prog.eval_bind, h]; rfl)⟩
  · rcases eval_stageAddEvent cfg event { db with users } with ⟨e, he⟩ | ⟨outboxEvents, hi, he⟩
    · left
      exact ⟨_, transaction_rollback (by simp only [UserRepository.register, Prog.eval_bind, h, he]; rfl)⟩
    · right
      exact ⟨users, outboxEvents, hu, hi,
        transaction_commit (by simp only [UserRepository.register, Prog.eval_bind, h, he]; rfl)⟩

theorem transaction_verifyEmail (userId jti : Uuid) (expiresAt now : Time) (db : Db) :
    (∃ e, transaction cfg (AccountRepository.verifyEmail userId jti expiresAt now) db = (.error e, db)) ∨
    ∃ u revokedTokens, db.users.get userId = some u ∧
      db.revokedTokens.insert ⟨jti, expiresAt⟩ = some revokedTokens ∧
      transaction cfg (AccountRepository.verifyEmail userId jti expiresAt now) db =
        (.ok (UserFields.apply { isVerified := some true } now u),
          { db.setUser userId { isVerified := some true } now with revokedTokens }) := by
  rcases eval_stageUpdate cfg userId { isVerified := some true } now db with
    ⟨-, h⟩ | ⟨e, h⟩ | ⟨u, hu, -, h⟩
  · left
    exact ⟨_, transaction_rollback (by simp only [AccountRepository.verifyEmail, Prog.eval_bind, h]; rfl)⟩
  · left
    exact ⟨_, transaction_rollback (by simp only [AccountRepository.verifyEmail, Prog.eval_bind, h]; rfl)⟩
  · rcases eval_stageAdd cfg jti expiresAt (db.setUser userId { isVerified := some true } now) with
      ⟨e, he⟩ | ⟨revokedTokens, hi, he⟩
    · left
      exact ⟨_, transaction_rollback (by simp only [AccountRepository.verifyEmail, Prog.eval_bind, h, he]; rfl)⟩
    · right
      exact ⟨u, revokedTokens, hu, hi,
        transaction_commit (by simp only [AccountRepository.verifyEmail, Prog.eval_bind, h, he]; rfl)⟩

theorem transaction_resetPassword (userId : Uuid) (passwordHash : PasswordHash) (jti : Uuid)
    (expiresAt : Time) (snapshot : Snapshot) (now : Time) (db : Db) :
    (∃ e, transaction cfg (AccountRepository.resetPassword userId passwordHash jti expiresAt snapshot now) db =
      (.error e, db)) ∨
    ∃ u revokedTokens, db.users.get userId = some u ∧
      db.revokedTokens.insert ⟨jti, expiresAt⟩ = some revokedTokens ∧
      transaction cfg (AccountRepository.resetPassword userId passwordHash jti expiresAt snapshot now) db =
        (.ok (UserFields.apply { passwordHash := some passwordHash } now u),
          { (db.setUser userId { passwordHash := some passwordHash } now).revokeAllForUser userId snapshot
              now with revokedTokens }) := by
  rcases eval_stageUpdate cfg userId { passwordHash := some passwordHash } now db with
    ⟨-, h⟩ | ⟨e, h⟩ | ⟨u, hu, -, h⟩
  · left
    exact ⟨_, transaction_rollback (by simp only [AccountRepository.resetPassword, Prog.eval_bind, h]; rfl)⟩
  · left
    exact ⟨_, transaction_rollback (by simp only [AccountRepository.resetPassword, Prog.eval_bind, h]; rfl)⟩
  · rcases eval_stageAdd cfg jti expiresAt (db.setUser userId { passwordHash := some passwordHash } now)
      with ⟨e, he⟩ | ⟨revokedTokens, hi, he⟩
    · left
      exact ⟨_, transaction_rollback (by
        simp only [AccountRepository.resetPassword, Prog.eval_bind, h, he]; rfl)⟩
    · right
      exact ⟨u, revokedTokens, hu, hi, transaction_commit (by
        simp only [AccountRepository.resetPassword, Prog.eval_bind, h, he]; rfl)⟩

theorem transaction_startLink (userId : Uuid) (pending : UserFields) (event : OutboxEvent EmailPayload)
    (now : Time) (db : Db) :
    (∃ e, transaction cfg (AccountRepository.startLink userId pending event now) db = (.error e, db)) ∨
    ∃ u outboxEvents, db.users.get userId = some u ∧ db.outboxEvents.insert event = some outboxEvents ∧
      transaction cfg (AccountRepository.startLink userId pending event now) db =
        (.ok (), { db.setUser userId pending now with outboxEvents }) := by
  rcases eval_stageUpdate cfg userId pending now db with ⟨-, h⟩ | ⟨e, h⟩ | ⟨u, hu, -, h⟩
  · left
    exact ⟨_, transaction_rollback (by simp only [AccountRepository.startLink, Prog.eval_bind, h]; rfl)⟩
  · left
    exact ⟨_, transaction_rollback (by simp only [AccountRepository.startLink, Prog.eval_bind, h]; rfl)⟩
  · rcases eval_stageAddEvent cfg event (db.setUser userId pending now) with ⟨e, he⟩ | ⟨events, hi, he⟩
    · left
      exact ⟨_, transaction_rollback (by simp only [AccountRepository.startLink, Prog.eval_bind, h, he]; rfl)⟩
    · right
      exact ⟨u, events, hu, hi,
        transaction_commit (by simp only [AccountRepository.startLink, Prog.eval_bind, h, he])⟩

theorem transaction_logout (userId : Uuid) (tokens : List TokenRef) (refreshSessionId : Option Uuid)
    (now : Time) (db : Db) :
    transaction cfg (AccountRepository.logout userId tokens refreshSessionId now) db =
      (.ok (), db.logout userId tokens refreshSessionId now) := by
  apply transaction_commit
  simp only [AccountRepository.logout, Prog.eval_bind, eval_stageAddAll]
  cases refreshSessionId with
  | none => rfl
  | some sessionId => rfl

theorem transaction_closeAccount (userId : Uuid) (tokens : List TokenRef) (snapshot : Snapshot) (now : Time)
    (db : Db) :
    (db.users.get userId = none ∧
      transaction cfg (AccountRepository.closeAccount userId tokens snapshot now) db = (.ok none, db)) ∨
    (∃ e, transaction cfg (AccountRepository.closeAccount userId tokens snapshot now) db = (.error e, db)) ∨
    ∃ u, db.users.get userId = some u ∧
      transaction cfg (AccountRepository.closeAccount userId tokens snapshot now) db =
        (.ok (some (UserFields.apply { isActive := some false } now u)),
          db.closeAccount userId tokens snapshot now) := by
  rcases eval_stageUpdate cfg userId { isActive := some false } now db with
    ⟨hu, h⟩ | ⟨e, h⟩ | ⟨u, hu, -, h⟩
  · left
    refine ⟨hu, transaction_commit ?_⟩
    simp only [AccountRepository.closeAccount, UserRepository.stageDeactivate, Prog.eval_bind, h]
    rfl
  · right; left
    exact ⟨_, transaction_rollback (by
      simp only [AccountRepository.closeAccount, UserRepository.stageDeactivate, Prog.eval_bind, h]; rfl)⟩
  · right; right
    refine ⟨u, hu, transaction_commit ?_⟩
    simp only [AccountRepository.closeAccount, UserRepository.stageDeactivate, Prog.eval_bind, h,
      eval_stageAddAll]
    rfl

theorem transaction_createSession (id userId : Uuid) (expiresAt : Time) (db : Db) :
    (∃ e, transaction cfg (RefreshSessionRepository.create id userId expiresAt) db = (.error e, db)) ∨
    ∃ u refreshSessions, db.users.get userId = some u ∧
      db.refreshSessions.insert (newSession id userId expiresAt) = some refreshSessions ∧
      transaction cfg (RefreshSessionRepository.create id userId expiresAt) db =
        (.ok (newSession id userId expiresAt), { db with refreshSessions }) := by
  rcases eval_create cfg id userId expiresAt db with ⟨e, h⟩ | ⟨u, refreshSessions, hu, hi, h⟩
  · exact .inl ⟨e, transaction_rollback h⟩
  · exact .inr ⟨u, refreshSessions, hu, hi, transaction_commit h⟩

/-- The UPDATE of `rotate` takes the row or leaves every row alone. -/
theorem transaction_rotate (sessionId userId : Uuid) (generation : Nat) (now : Time) (db : Db) :
    ((∀ r, db.refreshSessions.get sessionId = some r → r.rotatable userId generation now = false) ∧
      transaction cfg (RefreshSessionRepository.rotate sessionId userId generation now) db =
        (.ok none, db)) ∨
    ∃ r, db.refreshSessions.get sessionId = some r ∧ r.rotatable userId generation now = true ∧
      transaction cfg (RefreshSessionRepository.rotate sessionId userId generation now) db =
        (.ok (some (r.rotated now)), db.rotate sessionId userId generation now) := by
  by_cases hr : ∃ r, db.refreshSessions.get sessionId = some r ∧ r.rotatable userId generation now = true
  · right
    obtain ⟨r, hr, hrot⟩ := hr
    refine ⟨r, hr, hrot, transaction_commit ?_⟩
    simp [RefreshSessionRepository.rotate, sql, Prog.perform, execStmt, Db.rotate, hr, hrot]
  · left
    have hno : ∀ r, db.refreshSessions.get sessionId = some r → r.rotatable userId generation now = false := by
      intro r hg
      cases hrot : r.rotatable userId generation now with
      | false => rfl
      | true => exact absurd ⟨r, hg, hrot⟩ hr
    have hnone : (db.refreshSessions.get sessionId).filter (RefreshSession.rotatable userId generation now) =
        none := by
      cases hg : db.refreshSessions.get sessionId with
      | none => rfl
      | some r => simp [hno r hg]
    have hsame : db.rotate sessionId userId generation now = db := by
      unfold Db.rotate
      rw [Table.updateWhere_eq_self]
      intro r hmem
      by_cases hid : r.id = sessionId
      · have hget := Table.get_of_mem hmem
        rw [hid] at hget
        simp [hno r hget]
      · simp [hid]
    refine ⟨hno, transaction_commit ?_⟩
    show (Except.ok (Option.map (RefreshSession.rotated now) _), db.rotate sessionId userId generation now) = _
    rw [hnone, hsame]
    rfl

end Transactions

end FastiKit
