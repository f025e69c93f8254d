import FastiKit.Auth.Guarantee

/- Keys that hold in every state the service reaches: no two users share an address,
   since every INSERT and UPDATE of a user is refused that would break the unique index,
   and the ids of the events are ids that were drawn. -/
namespace FastiKit

open Interleave Relational

/-- The unique index on `users.email`. -/
def Db.UniqueEmails (db : Db) : Prop := ∀ u ∈ db.users.rows, ∀ v ∈ db.users.rows, u.email = v.email → u.id = v.id

structure World.Keyed (w : World) : Prop where
  emails : w.db.UniqueEmails
  events : ∀ e ∈ w.db.outboxEvents.rows, e.id < w.uuids

theorem Db.UniqueEmails.emailTaken {db : Db} (h : db.UniqueEmails) {u : User} (hu : u ∈ db.users.rows) :
    db.emailTaken u.email u.id = false := by
  simp only [Db.emailTaken, List.any_eq_false, Bool.and_eq_true, decide_eq_true_eq, not_and, not_not]
  intro v hv hemail
  simpa using h v hv u hu hemail

/-! Every statement keeps the index. -/

section Emails
variable (cfg : Config) {db : Db}

theorem Db.not_emailTaken {email : String} {id : Uuid} :
    db.emailTaken email id = false ↔ ∀ u ∈ db.users.rows, u.email = email → u.id = id := by
  simp [Db.emailTaken, List.any_eq_false]

theorem Db.UniqueEmails.insertUser (h : db.UniqueEmails) {model : User} {users}
    (hfree : db.emailTaken model.email model.id = false) (hinsert : db.users.insert model = some users) :
    Db.UniqueEmails { db with users } := by
  rw [Db.not_emailTaken] at hfree
  intro u hu v hv hemail
  have hrows : users.rows = model :: db.users.rows := Table.rows_insert hinsert
  simp only [hrows, List.mem_cons] at hu hv
  rcases hu with rfl | hu
  · rcases hv with rfl | hv
    · rfl
    · exact (hfree v hv hemail.symm).symm
  · rcases hv with rfl | hv
    · exact hfree u hu hemail
    · exact h u hu v hv hemail

theorem Db.UniqueEmails.setUser (h : db.UniqueEmails) {id : Uuid} {fields : UserFields} {now : Time} {user : User}
    (hget : db.users.get id = some user) (hfree : db.emailTaken (fields.set user).email id = false) :
    (db.setUser id fields now).UniqueEmails := by
  rw [Db.not_emailTaken] at hfree
  -- a row is as it was, or it is the one that was updated
  have hrow : ∀ u ∈ (db.setUser id fields now).users.rows,
      (u ∈ db.users.rows ∧ u.id ≠ id) ∨ (u.id = id ∧ u.email = (fields.set user).email) := by
    intro u hu
    have hold := Table.get_of_mem hu
    rw [Db.get_setUser, Option.map_eq_some_iff] at hold
    obtain ⟨old, hold, heq⟩ := hold
    by_cases hid : u.id = id
    · rw [hid, hget] at hold
      cases hold
      rw [if_pos hid] at heq
      exact .inr ⟨hid, by rw [← heq, UserFields.apply_email]; rfl⟩
    · rw [if_neg hid] at heq
      exact .inl ⟨heq ▸ Table.mem_of_get hold, hid⟩
  intro u hu v hv hemail
  rcases hrow u hu with ⟨hu, hne⟩ | ⟨hid, hset⟩
  · rcases hrow v hv with ⟨hv, -⟩ | ⟨hid', hset'⟩
    · exact h u hu v hv hemail
    · exact absurd (hfree u hu (hemail.trans hset')) hne
  · rcases hrow v hv with ⟨hv, hne'⟩ | ⟨hid', -⟩
    · exact absurd (hfree v hv (hemail.symm.trans hset)) hne'
    · exact hid.trans hid'.symm

theorem Db.UniqueEmails.execStmt (h : db.UniqueEmails) (s : Stmt) : (execStmt cfg s db).2.UniqueEmails := by
  cases s with
  | insertUser model =>
    simp only [FastiKit.execStmt]
    cases hfree : db.emailTaken model.email model.id with
    | true => exact h
    | false =>
      cases hinsert : db.users.insert model with
      | none => exact h
      | some users => exact h.insertUser hfree hinsert
  | updateUser id fields now =>
    simp only [FastiKit.execStmt]
    cases hget : db.users.get id with
    | none => exact h
    | some user =>
      cases hnull : fields.nullColumn with
      | some column => exact h
      | none =>
        cases hfree : db.emailTaken (fields.set user).email id with
        | true =>
          simp only [hfree, if_true]
          exact h
        | false =>
          simp only [hfree, Bool.false_eq_true, if_false]
          exact h.setUser hget hfree
  | insertSession model =>
    simp only [FastiKit.execStmt]
    split
    · exact h
    · split <;> exact h
  | insertRevokedToken | insertRevokedTokenOrNothing | insertOutboxEvent =>
    simp only [FastiKit.execStmt]
    split <;> exact h
  | _ => exact h

theorem Db.UniqueEmails.transaction (h : db.UniqueEmails) {α : Type} (tx : Tx α) :
    (transaction cfg tx db).2.UniqueEmails := by
  have hrun := Prog.eval_invariant (J := Db.UniqueEmails) (fun s _ h => h.execStmt cfg s) tx db h
  unfold FastiKit.transaction
  split
  · next heq =>
    rw [heq] at hrun
    exact hrun
  · exact h

theorem execOp_emails (op : Op) {w : World} (h : w.db.UniqueEmails) : (execOp cfg op w).2.db.UniqueEmails := by
  cases op with
  | register | startEmailVerification | startPasswordReset | createSession =>
    have hdrawn : w.draw.2.db.UniqueEmails := h
    exact hdrawn.transaction cfg _
  | updateUser | verifyEmail | resetPassword | logout | closeAccount | rotate | revokeSession | purgeSessions
  | purgeTokens | purgeEvents | dispatchEvents => exact h.transaction cfg _
  | setJti | setReady =>
    simp only [execOp]
    rw [World.send_frame]
    exact h
  | setSeeding =>
    simp only [execOp]
    split
    · exact h
    · rw [World.send_frame]
      exact h
  | _ => exact h

end Emails

/-! Every event takes an id that was drawn for it. -/

theorem Effect.event_id {w : World} {op : Op} {r : op.Res} {db' : Db} (h : Effect w op r db')
    {e : OutboxEvent EmailPayload} (he : e ∈ db'.outboxEvents.rows) :
    (∃ e₀ ∈ w.db.outboxEvents.rows, e₀.Same e) ∨
      (e.id = w.uuids ∧ ∀ cfg : Config, w.uuids < (execOp cfg op w).2.uuids) := by
  rcases h.events with hold | ⟨payload, hinsert, hop⟩
  · obtain ⟨e₀, he₀, hsame⟩ := hold e he
    exact .inl ⟨e₀, he₀, hsame⟩
  · have hdrawn : ∀ cfg : Config, w.uuids < (execOp cfg op w).2.uuids := by
      intro cfg
      rcases hop with ⟨userId, fullName, email, passwordHash, jti, rfl, -⟩ | ⟨userId, pending, hop⟩
      · exact Nat.lt_succ_self _
      · cases op <;> cases hop <;> exact Nat.lt_succ_self _
    rw [Table.rows_insert hinsert, List.mem_cons] at he
    rcases he with rfl | hold
    · exact .inr ⟨rfl, hdrawn⟩
    · exact .inl ⟨e, hold, .refl e⟩

namespace World.Keyed
variable {cfg : Config} {w : World}

theorem init (now : Time) : (World.init now).Keyed := ⟨nofun, nofun⟩

theorem execOp (h : w.Keyed) (op : Op) : (FastiKit.execOp cfg op w).2.Keyed := by
  refine ⟨execOp_emails cfg op h.emails, ?_⟩
  intro e he
  rcases (execOp_effect cfg op w).event_id he with ⟨e₀, he₀, hsame⟩ | ⟨hid, hdrawn⟩
  · rw [hsame.1]
    exact Nat.lt_of_lt_of_le (h.events e₀ he₀) (execOp_uuids cfg op w)
  · rw [hid]
    exact hdrawn cfg

theorem respond (h : w.Keyed) (req : Request) (out : Except Err Response) : (w.respond cfg req out).Keyed := by
  obtain ⟨hdb, -, -, -, huuids⟩ := w.respond_db cfg req out
  constructor
  · rw [hdb]
    exact h.emails
  · rw [hdb]
    exact fun e he => Nat.lt_of_lt_of_le (h.events e he) huuids

theorem event (h : w.Keyed) {e : Event} {w' : World} (he : w.event e = some w') : w'.Keyed := by
  obtain ⟨hdb, huuids, -⟩ := World.event_frame he
  constructor
  · rw [hdb]
    exact h.emails
  · rw [hdb, huuids]
    exact h.events

end World.Keyed

/-- Every state the service reaches is keyed. -/
theorem keyed_of_reaches {cfg : Config} {now : Time} {s : Service}
    (h : Reaches cfg (System.start (World.init now)) s) : s.state.Keyed :=
  h.state_invariant (J := World.Keyed) (fun op _ hw => hw.execOp op) (fun req out _ hw => hw.respond req out)
    (fun _ _ _ hw he => hw.event he) (World.Keyed.init now)

end FastiKit
