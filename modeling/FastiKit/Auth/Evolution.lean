import FastiKit.Auth.Transactions
import FastiKit.Auth.Routes

/- How the world may change, whoever changes it. `Evolves` is a preorder on
   worlds that every operation, response and event stays within: clocks advance,
   accounts stay closed, sessions are never recreated and only rotate forward or
   get revoked, revoked tokens stay until they expire, emails stay on record. A request relies on it
   between two of its own steps. -/
namespace FastiKit

open Interleave Relational

/-! One row. -/

/-- `r'` is a later state of the session `r`. -/
structure RefreshSession.Precedes (r r' : RefreshSession) : Prop where
  userId : r'.userId = r.userId
  expiresAt : r'.expiresAt = r.expiresAt
  generation : r.generation ≤ r'.generation
  rotatedAt : r'.generation = r.generation → r'.rotatedAt = r.rotatedAt
  revokedAt : r.revokedAt.isSome = true → r'.revokedAt = r.revokedAt

theorem RefreshSession.Precedes.refl (r : RefreshSession) : r.Precedes r :=
  ⟨rfl, rfl, Nat.le_refl _, fun _ => rfl, fun _ => rfl⟩

theorem RefreshSession.Precedes.trans {a b c : RefreshSession} (hab : a.Precedes b) (hbc : b.Precedes c) :
    a.Precedes c := by
  refine ⟨hbc.userId.trans hab.userId, hbc.expiresAt.trans hab.expiresAt,
    Nat.le_trans hab.generation hbc.generation, ?_, ?_⟩
  · intro h
    have hb : b.generation = a.generation := by
      have h₁ := hab.generation
      have h₂ := hbc.generation
      omega
    rw [hbc.rotatedAt (by rw [h, hb]), hab.rotatedAt hb]
  · intro h
    have hb := hab.revokedAt h
    rw [hbc.revokedAt (by rw [hb]; exact h), hb]

theorem RefreshSession.precedes_revoked (r : RefreshSession) (now : Time) (h : r.revokedAt.isNone = true) :
    r.Precedes (r.revoked now) := by
  refine ⟨rfl, rfl, Nat.le_refl _, fun _ => rfl, ?_⟩
  intro hs
  rw [Option.isNone_iff_eq_none.mp h] at hs
  cases hs

theorem RefreshSession.precedes_rotated (r : RefreshSession) (now : Time) : r.Precedes (r.rotated now) := by
  refine ⟨rfl, rfl, Nat.le_succ _, ?_, fun _ => rfl⟩
  intro h
  exact absurd h (Nat.succ_ne_self r.generation)

/-! The database. -/

/-- A change of the database by the moment `now`, when the session ids below
`bound` have been given out. -/
structure Db.Evolves (now : Time) (bound : Nat) (db db' : Db) : Prop where
  users : ∀ id u, db.users.get id = some u →
    ∃ u', db'.users.get id = some u' ∧ (u.isActive = false → u'.isActive = false)
  sessions : ∀ id r', id < bound → db'.refreshSessions.get id = some r' →
    ∃ r, db.refreshSessions.get id = some r ∧ r.Precedes r'
  tokens : ∀ jti t, db.revokedTokens.get jti = some t → now < t.expiresAt →
    db'.revokedTokens.get jti = some t

theorem Db.Evolves.trans {now now' : Time} {bound bound' : Nat} {a b c : Db} (hnow : now ≤ now')
    (hbound : bound ≤ bound') (hab : Db.Evolves now bound a b) (hbc : Db.Evolves now' bound' b c) :
    Db.Evolves now' bound a c := by
  refine ⟨?_, ?_, ?_⟩
  · intro id u hu
    obtain ⟨ub, hub, hb⟩ := hab.users id u hu
    obtain ⟨uc, huc, hc⟩ := hbc.users id ub hub
    exact ⟨uc, huc, fun h => hc (hb h)⟩
  · intro id r' hid hr'
    obtain ⟨rb, hrb, hb⟩ := hbc.sessions id r' (Nat.lt_of_lt_of_le hid hbound) hr'
    obtain ⟨ra, hra, ha⟩ := hab.sessions id rb hid hrb
    exact ⟨ra, hra, ha.trans hb⟩
  · intro jti t ht hexp
    exact hbc.tokens jti t (hab.tokens jti t ht (Int.lt_of_le_of_lt hnow hexp)) hexp

section Changes
variable {now : Time} {bound : Nat}

/-- A change that keeps every account's activity and every session. -/
theorem Db.Evolves.of_active {db db' : Db}
    (hu : ∀ id u, db.users.get id = some u → ∃ u', db'.users.get id = some u' ∧ u'.isActive = u.isActive)
    (hs : ∀ id r', id < bound → db'.refreshSessions.get id = some r' →
      ∃ r, db.refreshSessions.get id = some r ∧ r.Precedes r')
    (ht : ∀ jti t, db.revokedTokens.get jti = some t → now < t.expiresAt →
      db'.revokedTokens.get jti = some t) :
    Db.Evolves now bound db db' := by
  refine ⟨?_, hs, ht⟩
  intro id u h
  obtain ⟨u', hu', hact⟩ := hu id u h
  exact ⟨u', hu', fun hi => by rw [hact, hi]⟩

theorem Db.Evolves.refl (db : Db) : Db.Evolves now bound db db := by
  apply Db.Evolves.of_active
  · intro id u h; exact ⟨u, h, rfl⟩
  · intro id r _ h; exact ⟨r, h, .refl r⟩
  · intro jti t h _; exact h

theorem Db.setUser_evolves (db : Db) (id : Uuid) (fields : UserFields) (at_ : Time)
    (h : fields.isActive = none) : Db.Evolves now bound db (db.setUser id fields at_) := by
  apply Db.Evolves.of_active
  · intro k u hu
    rw [Db.get_setUser, hu]
    refine ⟨_, rfl, ?_⟩
    split
    · simp [h]
    · rfl
  · intro k r _ hr; exact ⟨r, hr, .refl r⟩
  · intro jti t ht _; exact ht

theorem Db.revokeWhere_evolves (db : Db) (conditions : RefreshSession → Bool) (at_ : Time) :
    Db.Evolves now bound db (db.revokeWhere conditions at_) := by
  apply Db.Evolves.of_active
  · intro k u hu; exact ⟨u, hu, rfl⟩
  · intro k r' _ hr'
    rw [Db.get_revokeWhere, Option.map_eq_some_iff] at hr'
    obtain ⟨r, hr, rfl⟩ := hr'
    refine ⟨r, hr, ?_⟩
    split
    · next hc =>
      rw [Bool.and_eq_true] at hc
      exact r.precedes_revoked at_ hc.2
    · exact .refl r
  · intro jti t ht _; exact ht

theorem Db.addIfAbsent_evolves (db : Db) (token : TokenRef) :
    Db.Evolves now bound db (db.addIfAbsent token) := by
  apply Db.Evolves.of_active
  · intro k u hu; exact ⟨u, hu, rfl⟩
  · intro k r _ hr; exact ⟨r, hr, .refl r⟩
  · intro jti t ht _
    rw [Db.get_addIfAbsent, ht]
    rfl

theorem Db.addAll_evolves (tokens : List TokenRef) :
    ∀ db : Db, Db.Evolves now bound db (db.addAll tokens) := by
  induction tokens with
  | nil => intro db; exact .refl db
  | cons token tokens ih =>
    intro db
    exact (db.addIfAbsent_evolves token).trans (Int.le_refl _) (Nat.le_refl _) (ih _)

theorem Db.insertToken_evolves {db : Db} {model : RevokedToken} {revokedTokens}
    (h : db.revokedTokens.insert model = some revokedTokens) :
    Db.Evolves now bound db { db with revokedTokens } := by
  apply Db.Evolves.of_active
  · intro k u hu; exact ⟨u, hu, rfl⟩
  · intro k r _ hr; exact ⟨r, hr, .refl r⟩
  · intro jti t ht _
    rw [Table.get_insert h]
    split
    · next hk =>
      rw [← hk, Table.insert_fresh h] at ht
      cases ht
    · exact ht

/-- A change of the outbox only. -/
theorem Db.setEvents_evolves (db : Db) (outboxEvents) : Db.Evolves now bound db { db with outboxEvents } := by
  apply Db.Evolves.of_active
  · intro k u hu; exact ⟨u, hu, rfl⟩
  · intro k r _ hr; exact ⟨r, hr, .refl r⟩
  · intro jti t ht _; exact ht

theorem Db.insertUser_evolves {db : Db} {model : User} {users}
    (h : db.users.insert model = some users) : Db.Evolves now bound db { db with users } := by
  apply Db.Evolves.of_active
  · intro k u hu
    refine ⟨u, ?_, rfl⟩
    rw [Table.get_insert h]
    split
    · next hk =>
      rw [← hk, Table.insert_fresh h] at hu
      cases hu
    · exact hu
  · intro k r _ hr; exact ⟨r, hr, .refl r⟩
  · intro jti t ht _; exact ht

/-- A session under an id that had not been given out. -/
theorem Db.insertSession_evolves {db : Db} {model : RefreshSession} {refreshSessions}
    (h : db.refreshSessions.insert model = some refreshSessions) (hid : bound ≤ model.id) :
    Db.Evolves now bound db { db with refreshSessions } := by
  apply Db.Evolves.of_active
  · intro k u hu; exact ⟨u, hu, rfl⟩
  · intro k r hk hr
    have hne : model.id ≠ k := Nat.ne_of_gt (Nat.lt_of_lt_of_le hk hid)
    rw [Table.get_insert h, if_neg hne] at hr
    exact ⟨r, hr, .refl r⟩
  · intro jti t ht _; exact ht

theorem Db.closeAccount_evolves (db : Db) (userId : Uuid) (tokens : List TokenRef) (snapshot : Snapshot)
    (at_ : Time) : Db.Evolves now bound db (db.closeAccount userId tokens snapshot at_) := by
  have hdeactivate : Db.Evolves now bound db (db.setUser userId { isActive := some false } at_) := by
    refine ⟨?_, fun k r _ hr => ⟨r, hr, .refl r⟩, fun jti t ht _ => ht⟩
    intro id u hu
    refine ⟨_, by rw [Db.get_setUser, hu]; rfl, ?_⟩
    intro hi
    split
    · simp
    · exact hi
  have hadd : Db.Evolves now bound _ _ := Db.addAll_evolves tokens
    (db.setUser userId { isActive := some false } at_)
  exact (hdeactivate.trans (Int.le_refl _) (Nat.le_refl _) hadd).trans (Int.le_refl _) (Nat.le_refl _)
    (Db.revokeWhere_evolves _ _ _)

theorem Db.rotate_evolves {db : Db} {sessionId userId : Uuid} {generation : Nat} {at_ : Time}
    {r : RefreshSession} (hr : db.refreshSessions.get sessionId = some r)
    (hrot : r.rotatable userId generation at_ = true) :
    Db.Evolves now bound db (db.rotate sessionId userId generation at_) := by
  apply Db.Evolves.of_active
  · intro k u h; exact ⟨u, h, rfl⟩
  · intro k r' _ hr'
    rw [Db.get_rotate hr hrot] at hr'
    split at hr'
    · next hk =>
      cases hr'
      exact ⟨r, hk ▸ hr, r.precedes_rotated at_⟩
    · exact ⟨r', hr', .refl r'⟩
  · intro jti t h _; exact h

theorem Db.purgeSessions_evolves (db : Db) (p : RefreshSession → Bool) :
    Db.Evolves now bound db { db with refreshSessions := db.refreshSessions.deleteWhere p } := by
  apply Db.Evolves.of_active
  · intro k u hu; exact ⟨u, hu, rfl⟩
  · intro k r' _ hr'
    rw [Table.get_deleteWhere, Option.filter_eq_some_iff] at hr'
    exact ⟨r', hr'.1, .refl r'⟩
  · intro jti t ht _; exact ht

/-- Only rows that had expired by the reading are purged. -/
theorem Db.purgeTokens_evolves (db : Db) {reading : Time} (h : reading ≤ now) :
    Db.Evolves now bound db
      { db with revokedTokens := db.revokedTokens.deleteWhere (fun t => decide (t.expiresAt ≤ reading)) } := by
  apply Db.Evolves.of_active
  · intro k u hu; exact ⟨u, hu, rfl⟩
  · intro k r _ hr; exact ⟨r, hr, .refl r⟩
  · intro jti t ht hexp
    have hlater : ¬ t.expiresAt ≤ reading := Int.not_le.mpr (Int.lt_of_le_of_lt h hexp)
    rw [Table.get_deleteWhere, ht]
    simp [hlater]

end Changes

end FastiKit
