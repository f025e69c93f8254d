import FastiKit.Auth.Transactions

/- Everything one operation can do to the world. `execOp_effect` is the only
   place where the operations are looked at one by one: what later modules need
   of an operation they take from its `Effect`, and from the lemmas on the rest
   of the world. -/
namespace FastiKit

open Interleave Relational

/-- The answer ends its request well: nothing is left to do but respond. -/
def Op.concludes : (op : Op) → op.Res → Bool
  | .createSession _ _, .ok _ => true
  | .rotate _ _ _ _, .ok (some _) => true
  | .verifyEmail _ _, .ok _ => true
  | .resetPassword _ _ _ _, .ok _ => true
  | _, _ => false

/-- The requests that end well with such an operation. -/
def Request.concludes : Request → Bool
  | .login _ _ | .refresh _ | .verifyEmail _ | .resetPassword _ _ => true
  | _ => false

/-- The link an operation mails: the user, the column that remembers its jti,
and the email. -/
def Op.mailsLink : Op → Option (Uuid × UserFields × EmailPayload)
  | .startEmailVerification userId jti payload =>
    some (userId, { pendingVerificationJti := some jti }, payload)
  | .startPasswordReset userId jti payload =>
    some (userId, { pendingPasswordResetJti := some jti }, payload)
  | _ => none

/-- What an operation of `w` that answers `r` makes of the database. -/
inductive Effect (w : World) : (op : Op) → op.Res → Db → Prop where
  | same {op : Op} {r : op.Res} (h : op.concludes r = false) : Effect w op r w.db
  | registered {id jti : Uuid} {fullName email : String} {passwordHash : PasswordHash}
      {payload : EmailPayload} {users outboxEvents}
      (hu : w.db.users.insert (newUser id fullName email passwordHash (some jti) w.now) = some users)
      (he : w.db.outboxEvents.insert (emailEvent w payload) = some outboxEvents) :
      Effect w (.register id fullName email passwordHash jti payload)
        (.ok (newUser id fullName email passwordHash (some jti) w.now))
        { w.db with users, outboxEvents }
  | updated {id : Uuid} {fields : UserFields} {u : User} (hu : w.db.users.get id = some u) :
      Effect w (.updateUser id fields) (.ok (some (fields.apply w.now u))) (w.db.setUser id fields w.now)
  | verified {userId : Uuid} {token : TokenPayload} {u : User} {revokedTokens}
      (hu : w.db.users.get userId = some u)
      (ht : w.db.revokedTokens.insert ⟨token.jti, token.expiryDatetime⟩ = some revokedTokens) :
      Effect w (.verifyEmail userId token) (.ok (UserFields.apply { isVerified := some true } w.now u))
        { w.db.setUser userId { isVerified := some true } w.now with revokedTokens }
  | reset {userId : Uuid} {passwordHash : PasswordHash} {token : TokenPayload} {snapshot : Snapshot} {u : User}
      {revokedTokens}
      (hu : w.db.users.get userId = some u)
      (ht : w.db.revokedTokens.insert ⟨token.jti, token.expiryDatetime⟩ = some revokedTokens) :
      Effect w (.resetPassword userId passwordHash token snapshot)
        (.ok (UserFields.apply { passwordHash := some passwordHash } w.now u))
        { (w.db.setUser userId { passwordHash := some passwordHash } w.now).revokeAllForUser userId snapshot
            w.now with revokedTokens }
  | mailed {op : Op} {r : op.Res} {userId : Uuid} {pending : UserFields} {payload : EmailPayload} {u : User}
      {outboxEvents} (hop : op.mailsLink = some (userId, pending, payload))
      (hu : w.db.users.get userId = some u)
      (he : w.db.outboxEvents.insert (emailEvent w payload) = some outboxEvents) :
      Effect w op r { w.db.setUser userId pending w.now with outboxEvents }
  | loggedOut {userId : Uuid} {tokens : List TokenRef} {refreshSessionId : Option Uuid} :
      Effect w (.logout userId tokens refreshSessionId) (.ok ())
        (w.db.logout userId tokens refreshSessionId w.now)
  | closed {userId : Uuid} {tokens : List TokenRef} {snapshot : Snapshot} {u : User}
      (hu : w.db.users.get userId = some u) :
      Effect w (.closeAccount userId tokens snapshot)
        (.ok (some (UserFields.apply { isActive := some false } w.now u)))
        (w.db.closeAccount userId tokens snapshot w.now)
  | opened {user u : User} {expiresAt : Time} {refreshSessions} (hu : w.db.users.get user.id = some u)
      (hs : w.db.refreshSessions.insert (newSession w.uuids user.id expiresAt) = some refreshSessions) :
      Effect w (.createSession user expiresAt) (.ok (newSession w.uuids user.id expiresAt))
        { w.db with refreshSessions }
  | rotated {sessionId userId : Uuid} {generation : Nat} {now : Time} {r : RefreshSession}
      (hr : w.db.refreshSessions.get sessionId = some r) (hrot : r.rotatable userId generation now = true) :
      Effect w (.rotate sessionId userId generation now) (.ok (some (r.rotated now)))
        (w.db.rotate sessionId userId generation now)
  | revoked {sessionId : Uuid} :
      Effect w (.revokeSession sessionId) (.ok ()) (w.db.revokeWhere (fun r => r.id = sessionId) w.now)
  | purgedSessions {now : Time} {r} :
      Effect w (.purgeSessions now) r
        { w.db with refreshSessions := w.db.refreshSessions.deleteWhere (fun r => decide (r.expiresAt ≤ now)) }
  | purgedTokens {now : Time} {r} :
      Effect w (.purgeTokens now) r
        { w.db with revokedTokens := w.db.revokedTokens.deleteWhere (fun t => decide (t.expiresAt ≤ now)) }
  | purgedEvents {cutoff : Time} {r} :
      Effect w (.purgeEvents cutoff) r
        { w.db with outboxEvents := w.db.outboxEvents.deleteWhere (OutboxEvent.dispatchedBefore cutoff) }
  | dispatched {ids : List Uuid} {r} : Effect w (.dispatchEvents ids) r (w.db.dispatch ids w.now)

theorem World.send_frame (w : World) (command : Redis → Redis) :
    (w.send command).2 = { w with redis := (w.send command).2.redis } := by
  unfold send
  split <;> rfl

variable (cfg : Config)

theorem execOp_effect (op : Op) (w : World) : Effect w op (execOp cfg op w).1 (execOp cfg op w).2.db := by
  cases op with
  | clock => exact .same rfl
  | revokeClock seeding tokens => exact .same rfl
  | uuid4 => exact .same rfl
  | gensalt => exact .same rfl
  | getUser id consistent => exact .same rfl
  | getUserByEmail email consistent => exact .same rfl
  | getSession id => exact .same rfl
  | tokenExists jti now => exact .same rfl
  | listActive now => exact .same rfl
  | listUsers params => exact .same rfl
  | snapshot tokens => exact .same rfl
  | mget jti => exact .same rfl
  | register id fullName email passwordHash jti payload =>
    simp only [execOp, World.transact]
    rcases transaction_register cfg (newUser id fullName email passwordHash (some jti) w.now)
      (emailEvent w payload) w.draw.2.db with ⟨e, h⟩ | ⟨users, events, hu, he, h⟩
    · rw [h]; exact .same rfl
    · rw [h]; exact .registered hu he
  | updateUser id fields =>
    simp only [execOp, World.transact]
    rcases transaction_update cfg id fields w.now w.db with ⟨_, h⟩ | ⟨e, h⟩ | ⟨u, hu, _, h⟩
    · rw [h]; exact .same rfl
    · rw [h]; exact .same rfl
    · rw [h]; exact .updated hu
  | verifyEmail userId token =>
    simp only [execOp, World.transact]
    rcases transaction_verifyEmail cfg userId token.jti token.expiryDatetime w.now w.db with
      ⟨e, h⟩ | ⟨u, tokens, hu, ht, h⟩
    · rw [h]; exact .same rfl
    · rw [h]; exact .verified hu ht
  | resetPassword userId passwordHash token snapshot =>
    simp only [execOp, World.transact]
    rcases transaction_resetPassword cfg userId passwordHash token.jti token.expiryDatetime snapshot w.now w.db with
      ⟨e, h⟩ | ⟨u, tokens, hu, ht, h⟩
    · rw [h]; exact .same rfl
    · rw [h]; exact .reset hu ht
  | startEmailVerification userId jti payload =>
    simp only [execOp, World.transact, AccountRepository.startEmailVerification]
    rcases transaction_startLink cfg userId { pendingVerificationJti := some jti } (emailEvent w payload) w.now
      w.draw.2.db with ⟨e, h⟩ | ⟨u, events, hu, he, h⟩
    · rw [h]; exact .same rfl
    · rw [h]; exact .mailed rfl hu he
  | startPasswordReset userId jti payload =>
    simp only [execOp, World.transact, AccountRepository.startPasswordReset]
    rcases transaction_startLink cfg userId { pendingPasswordResetJti := some jti } (emailEvent w payload) w.now
      w.draw.2.db with ⟨e, h⟩ | ⟨u, events, hu, he, h⟩
    · rw [h]; exact .same rfl
    · rw [h]; exact .mailed rfl hu he
  | logout userId tokens refreshSessionId =>
    simp only [execOp, World.transact]
    rw [transaction_logout]
    exact .loggedOut
  | closeAccount userId tokens snapshot =>
    simp only [execOp, World.transact]
    rcases transaction_closeAccount cfg userId tokens snapshot w.now w.db with ⟨_, h⟩ | ⟨e, h⟩ | ⟨u, hu, h⟩
    · rw [h]; exact .same rfl
    · rw [h]; exact .same rfl
    · rw [h]; exact .closed hu
  | createSession user expiresAt =>
    simp only [execOp, World.transact]
    rcases transaction_createSession cfg w.uuids user.id expiresAt w.draw.2.db with
      ⟨e, h⟩ | ⟨u, sessions, hu, hs, h⟩
    · rw [h]; exact .same rfl
    · rw [h]; exact .opened hu hs
  | rotate sessionId userId generation now =>
    simp only [execOp, World.transact]
    rcases transaction_rotate cfg sessionId userId generation now w.db with ⟨_, h⟩ | ⟨r, hr, hrot, h⟩
    · rw [h]; exact .same rfl
    · rw [h]; exact .rotated hr hrot
  | revokeSession sessionId => exact .revoked
  | purgeSessions now => exact .purgedSessions
  | purgeTokens now => exact .purgedTokens
  | purgeEvents cutoff => exact .purgedEvents
  | dispatchEvents ids => exact .dispatched
  | setJti pipe token =>
    simp only [execOp]
    rw [World.send_frame]
    exact .same rfl
  | setSeeding =>
    simp only [execOp]
    split
    · exact .same rfl
    · rw [World.send_frame]
      exact .same rfl
  | setReady =>
    simp only [execOp]
    rw [World.send_frame]
    exact .same rfl

/-- What no operation touches. -/
theorem execOp_frame (op : Op) (w : World) :
    (execOp cfg op w).2.now = w.now ∧ (execOp cfg op w).2.signed = w.signed ∧
      (execOp cfg op w).2.responses = w.responses := by
  cases op
  case setJti => simp only [execOp]; rw [World.send_frame]; exact ⟨rfl, rfl, rfl⟩
  case setReady => simp only [execOp]; rw [World.send_frame]; exact ⟨rfl, rfl, rfl⟩
  case setSeeding =>
    simp only [execOp]
    split
    · exact ⟨rfl, rfl, rfl⟩
    · rw [World.send_frame]; exact ⟨rfl, rfl, rfl⟩
  all_goals exact ⟨rfl, rfl, rfl⟩

/-- Every state of the primary is kept, and a transaction adds the one it leaves. -/
theorem execOp_versions (op : Op) (w : World) :
    (execOp cfg op w).2.replica = w.replica ∧
      ((execOp cfg op w).2.versions = w.versions ∨
        (execOp cfg op w).2.versions = (execOp cfg op w).2.db :: w.versions) := by
  cases op
  case setJti => simp only [execOp]; rw [World.send_frame]; exact ⟨rfl, .inl rfl⟩
  case setReady => simp only [execOp]; rw [World.send_frame]; exact ⟨rfl, .inl rfl⟩
  case setSeeding =>
    simp only [execOp]
    split
    · exact ⟨rfl, .inl rfl⟩
    · rw [World.send_frame]; exact ⟨rfl, .inl rfl⟩
  all_goals first | exact ⟨rfl, .inl rfl⟩ | exact ⟨rfl, .inr rfl⟩

/-- Ids are only given out. -/
theorem execOp_uuids (op : Op) (w : World) : w.uuids ≤ (execOp cfg op w).2.uuids := by
  cases op
  case setJti => simp only [execOp]; rw [World.send_frame]
  case setReady => simp only [execOp]; rw [World.send_frame]
  case setSeeding =>
    simp only [execOp]
    split
    · exact Nat.le_refl _
    · rw [World.send_frame]
  all_goals first | exact Nat.le_refl _ | exact Nat.le_succ _

/-- A new session's id is one of them. -/
theorem createSession_uuids (user : User) (expiresAt : Time) (w : World) :
    w.uuids < (execOp cfg (.createSession user expiresAt) w).2.uuids := Nat.lt_succ_self _

/-! What the operations that conclude leave behind. -/

section Concluding
variable {w : World} {db' : Db}

theorem Effect.of_createSession {user : User} {expiresAt : Time} {session : RefreshSession}
    (h : Effect w (.createSession user expiresAt) (.ok session) db') :
    session = newSession w.uuids user.id expiresAt ∧
      ∃ refreshSessions, w.db.refreshSessions.insert session = some refreshSessions ∧
        db' = { w.db with refreshSessions } := by
  cases h with
  | same hc => cases hc
  | mailed hop _ _ => cases hop
  | opened hu hi => exact ⟨rfl, _, hi, rfl⟩

theorem Effect.of_rotate {sid userId : Uuid} {gen : Nat} {now : Time} {session : RefreshSession}
    (h : Effect w (.rotate sid userId gen now) (.ok (some session)) db') :
    ∃ row, w.db.refreshSessions.get sid = some row ∧ row.rotatable userId gen now = true ∧
      session = row.rotated now ∧ db' = w.db.rotate sid userId gen now := by
  cases h with
  | same hc => cases hc
  | mailed hop _ _ => cases hop
  | rotated hr hrot => exact ⟨_, hr, hrot, rfl, rfl⟩

theorem Effect.of_verifyEmail {userId : Uuid} {token : TokenPayload} {user : User}
    (h : Effect w (.verifyEmail userId token) (.ok user) db') :
    ∃ revokedTokens, w.db.revokedTokens.insert ⟨token.jti, token.expiryDatetime⟩ = some revokedTokens ∧
      db' = { w.db.setUser userId { isVerified := some true } w.now with revokedTokens } := by
  cases h with
  | same hc => cases hc
  | mailed hop _ _ => cases hop
  | verified hu ht => exact ⟨_, ht, rfl⟩

theorem Effect.of_resetPassword {userId : Uuid} {passwordHash : PasswordHash} {token : TokenPayload}
    {snapshot : Snapshot} {user : User}
    (h : Effect w (.resetPassword userId passwordHash token snapshot) (.ok user) db') :
    ∃ revokedTokens, w.db.revokedTokens.insert ⟨token.jti, token.expiryDatetime⟩ = some revokedTokens ∧
      db' = { (w.db.setUser userId { passwordHash := some passwordHash } w.now).revokeAllForUser userId snapshot
        w.now with revokedTokens } := by
  cases h with
  | same hc => cases hc
  | mailed hop _ _ => cases hop
  | reset hu ht => exact ⟨_, ht, rfl⟩

end Concluding

/-! What an operation does to a user's row. -/

/-- The row an operation updates, and the fields it sets there. -/
def Op.sets : Op → Option (Uuid × UserFields)
  | .updateUser id fields => some (id, fields)
  | .verifyEmail userId _ => some (userId, { isVerified := some true })
  | .resetPassword userId passwordHash _ _ => some (userId, { passwordHash := some passwordHash })
  | .startEmailVerification userId jti _ => some (userId, { pendingVerificationJti := some jti })
  | .startPasswordReset userId jti _ => some (userId, { pendingPasswordResetJti := some jti })
  | .closeAccount userId _ _ => some (userId, { isActive := some false })
  | _ => none

theorem Db.user_setUser (db : Db) (id : Uuid) (fields : UserFields) (now : Time) {k : Uuid} {u : User}
    (hu : db.users.get k = some u) :
    (db.setUser id fields now).users.get k = some u ∨
      k = id ∧ (db.setUser id fields now).users.get k = some (fields.apply now u) := by
  rw [Db.get_setUser, hu]
  by_cases hk : k = id
  · right
    exact ⟨hk, by simp [hk]⟩
  · left
    simp [hk]

/-- A user's row stays, with at most the operation's fields set. -/
theorem Effect.user {w : World} {op : Op} {r : op.Res} {db' : Db} (h : Effect w op r db') {k : Uuid}
    {u : User} (hu : w.db.users.get k = some u) :
    db'.users.get k = some u ∨
      ∃ fields, op.sets = some (k, fields) ∧ db'.users.get k = some (fields.apply w.now u) := by
  have hset : ∀ {id fields}, op.sets = some (id, fields) →
      db'.users.get k = (w.db.setUser id fields w.now).users.get k →
      db'.users.get k = some u ∨
        ∃ fields, op.sets = some (k, fields) ∧ db'.users.get k = some (fields.apply w.now u) := by
    intro id fields hop hget
    rw [hget]
    rcases w.db.user_setUser id fields w.now hu with hsame | ⟨rfl, hnew⟩
    · exact .inl hsame
    · exact .inr ⟨fields, hop, hnew⟩
  cases h with
  | same _ => exact .inl hu
  | registered hi he =>
    left
    rw [Table.get_insert hi]
    split
    · next hk =>
      rw [← hk, Table.insert_fresh hi] at hu
      cases hu
    · exact hu
  | updated _ => exact hset rfl rfl
  | verified _ _ => exact hset rfl rfl
  | reset _ _ => exact hset rfl rfl
  | mailed hop _ _ =>
    apply hset ?_ rfl
    cases op <;> cases hop <;> rfl
  | @loggedOut userId tokens sid =>
    left
    have hframe := (Db.addAll_frame tokens w.db).1
    cases sid with
    | none => rw [Db.logout, hframe]; exact hu
    | some sid =>
      show (w.db.addAll tokens).users.get k = some u
      rw [hframe]
      exact hu
  | @closed userId tokens _ _ =>
    apply hset rfl
    show ((w.db.setUser userId _ w.now).addAll tokens).users.get k = _
    rw [(Db.addAll_frame tokens _).1]
  | opened _ _ => exact .inl hu
  | rotated _ _ => exact .inl hu
  | revoked => exact .inl hu
  | purgedSessions => exact .inl hu
  | purgedTokens => exact .inl hu
  | purgedEvents => exact .inl hu
  | dispatched => exact .inl hu

theorem Db.user_setUser_none (db : Db) (id : Uuid) (fields : UserFields) (now : Time) {k : Uuid}
    (hnone : db.users.get k = none) : (db.setUser id fields now).users.get k = none := by
  rw [Db.get_setUser, hnone]
  rfl

/-- A row appears by a registration only. -/
theorem Effect.user_created {w : World} {op : Op} {r : op.Res} {db' : Db} (h : Effect w op r db') {k : Uuid}
    {u : User} (hnone : w.db.users.get k = none) (hu : db'.users.get k = some u) :
    ∃ id fullName email passwordHash jti payload, op = .register id fullName email passwordHash jti payload ∧
      u = newUser id fullName email passwordHash (some jti) w.now := by
  have hold : ∀ {users : Table Uuid User User.id}, users = db'.users → users.get k ≠ none := by
    intro users heq
    rw [heq, hu]
    nofun
  cases h with
  | same _ => exact absurd hnone (hold rfl)
  | @registered id jti fullName email passwordHash payload users events hi he =>
    have hget := Table.get_insert hi k
    rw [hnone] at hget
    split at hget
    · refine ⟨id, fullName, email, passwordHash, jti, payload, rfl, ?_⟩
      exact Option.some.inj (hu.symm.trans hget)
    · exact absurd hget (hold rfl)
  | updated _ => exact absurd (w.db.user_setUser_none _ _ _ hnone) (hold rfl)
  | verified _ _ => exact absurd (w.db.user_setUser_none _ _ _ hnone) (hold rfl)
  | reset _ _ => exact absurd (w.db.user_setUser_none _ _ _ hnone) (hold rfl)
  | mailed _ _ _ => exact absurd (w.db.user_setUser_none _ _ _ hnone) (hold rfl)
  | @loggedOut userId tokens sid =>
    have hframe := (Db.addAll_frame tokens w.db).1
    cases sid with
    | none => exact absurd hnone (hold (by rw [Db.logout, hframe]))
    | some sid => exact absurd hnone (hold hframe.symm)
  | @closed userId tokens _ _ =>
    have hframe := (Db.addAll_frame tokens (w.db.setUser userId { isActive := some false } w.now)).1
    exact absurd (w.db.user_setUser_none _ _ _ hnone) (hold hframe.symm)
  | opened _ _ => exact absurd hnone (hold rfl)
  | rotated _ _ => exact absurd hnone (hold rfl)
  | revoked => exact absurd hnone (hold rfl)
  | purgedSessions => exact absurd hnone (hold rfl)
  | purgedTokens => exact absurd hnone (hold rfl)
  | purgedEvents => exact absurd hnone (hold rfl)
  | dispatched => exact absurd hnone (hold rfl)

/-- Where a user's row comes from: it was there, with at most the operation's fields
set, or it has just been registered. -/
theorem Effect.user_from {w : World} {op : Op} {r : op.Res} {db' : Db} (h : Effect w op r db') {k : Uuid}
    {u' : User} (hu' : db'.users.get k = some u') :
    (∃ u, w.db.users.get k = some u ∧
      (u' = u ∨ ∃ fields, op.sets = some (k, fields) ∧ u' = fields.apply w.now u)) ∨
    ∃ id fullName email passwordHash jti payload, op = .register id fullName email passwordHash jti payload ∧
      u' = newUser id fullName email passwordHash (some jti) w.now := by
  cases hu : w.db.users.get k with
  | none => exact .inr (h.user_created hu hu')
  | some u =>
    left
    refine ⟨u, rfl, ?_⟩
    rcases h.user hu with hsame | ⟨fields, hsets, hset⟩
    · exact .inl (Option.some.inj (hu'.symm.trans hsame))
    · exact .inr ⟨fields, hsets, Option.some.inj (hu'.symm.trans hset)⟩

/-- A closure that finds its user leaves it inactive. -/
theorem closeAccount_closes {userId : Uuid} {tokens : List TokenRef} {snapshot : Snapshot} {user : User} {w : World}
    (h : (execOp cfg (.closeAccount userId tokens snapshot) w).1 = .ok (some user)) :
    (execOp cfg (.closeAccount userId tokens snapshot) w).2.db = w.db.closeAccount userId tokens snapshot w.now ∧
      ∃ u, (w.db.closeAccount userId tokens snapshot w.now).users.get userId = some u ∧ u.isActive = false := by
  have htx := transaction_closeAccount cfg userId tokens snapshot w.now w.db
  simp only [execOp, World.transact] at h ⊢
  rcases htx with ⟨-, htx⟩ | ⟨e, htx⟩ | ⟨u, hu, htx⟩
  · rw [htx] at h; cases h
  · rw [htx] at h; cases h
  · rw [htx]
    refine ⟨rfl, UserFields.apply { isActive := some false } w.now u, ?_, ?_⟩
    · show ((w.db.setUser userId { isActive := some false } w.now).addAll tokens).users.get userId = _
      rw [(Db.addAll_frame tokens _).1, Db.get_setUser, hu]
      simp
    · simp

/-! What an operation does to generations. -/

/-- The operation that opens a session, and the one that rotates it. -/
def Op.generates : (op : Op) → op.Res → Bool
  | .createSession _ _, .ok _ => true
  | .rotate _ _ _ _, .ok (some _) => true
  | _, _ => false

theorem Op.generates_of_concludes {op : Op} {r : op.Res} (h : op.concludes r = false) :
    op.generates r = false := by
  cases op <;> first | rfl | skip
  · cases r <;> first | rfl | cases h
  · rcases r with e | _ | s <;> first | rfl | cases h

theorem Db.generation_revokeWhere {db : Db} {conditions : RefreshSession → Bool} {now : Time} {id : Uuid}
    {row : RefreshSession} (h : (db.revokeWhere conditions now).refreshSessions.get id = some row) :
    ∃ row', db.refreshSessions.get id = some row' ∧ row.generation = row'.generation := by
  rw [Db.get_revokeWhere, Option.map_eq_some_iff] at h
  obtain ⟨row', hrow', rfl⟩ := h
  refine ⟨row', hrow', ?_⟩
  split <;> rfl

/-- Nothing else touches a generation. -/
theorem Effect.generation {w : World} {op : Op} {r : op.Res} {db' : Db} (h : Effect w op r db')
    (hg : op.generates r = false) {id : Uuid} {row : RefreshSession}
    (hrow : db'.refreshSessions.get id = some row) :
    ∃ row', w.db.refreshSessions.get id = some row' ∧ row.generation = row'.generation := by
  cases h with
  | same _ => exact ⟨row, hrow, rfl⟩
  | registered hu he => exact ⟨row, hrow, rfl⟩
  | updated hu => exact ⟨row, hrow, rfl⟩
  | verified hu ht => exact ⟨row, hrow, rfl⟩
  | reset hu ht => exact Db.generation_revokeWhere hrow
  | mailed hop hu he => exact ⟨row, hrow, rfl⟩
  | @loggedOut userId tokens sid =>
    have hframe := (Db.addAll_frame tokens w.db).2.1
    cases sid with
    | none => rw [Db.logout, hframe] at hrow; exact ⟨row, hrow, rfl⟩
    | some sid =>
      obtain ⟨row', hrow', hgen⟩ := Db.generation_revokeWhere hrow
      exact ⟨row', by rw [← hframe]; exact hrow', hgen⟩
  | @closed userId tokens u hu =>
    obtain ⟨row', hrow', hgen⟩ := Db.generation_revokeWhere hrow
    rw [(Db.addAll_frame tokens _).2.1] at hrow'
    exact ⟨row', hrow', hgen⟩
  | opened hu hi => cases hg
  | rotated hr hrot => cases hg
  | revoked => exact Db.generation_revokeWhere hrow
  | purgedSessions =>
    rw [Table.get_deleteWhere, Option.filter_eq_some_iff] at hrow
    exact ⟨row, hrow.1, rfl⟩
  | purgedTokens => exact ⟨row, hrow, rfl⟩
  | purgedEvents => exact ⟨row, hrow, rfl⟩
  | dispatched => exact ⟨row, hrow, rfl⟩

end FastiKit
