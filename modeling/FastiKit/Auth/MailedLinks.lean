import FastiKit.Auth.IssuedTokens

/- A link that is pending was mailed.

   A user's row remembers the jti of the last verification link and of the last reset
   link. The column is written in the transaction that stages the email, so what it
   remembers was in the outbox: in every state the service reaches, a pending jti is that
   of one event ever staged, whose link is for this user and for this column, and whose
   only recipient is an address the user once had. The event is in the table until a
   cleanup deletes it, and a cleanup deletes what was dispatched. -/
namespace FastiKit

open Interleave Relational

/-- The two columns that remember a link. -/
inductive LinkColumn where
  | verification
  | reset

namespace LinkColumn

def pending : LinkColumn → User → Option Uuid
  | verification, u => u.pendingVerificationJti
  | reset, u => u.pendingPasswordResetJti

def assigned : LinkColumn → UserFields → Option Uuid
  | verification, f => f.pendingVerificationJti
  | reset, f => f.pendingPasswordResetJti

def type : LinkColumn → TokenType
  | verification => .emailVerify
  | reset => .passwordReset

def buildEmailPayload : LinkColumn → String → TokenPayload → EmailPayload
  | verification => EmailVerificationService.buildEmailPayload
  | reset => PasswordResetService.buildEmailPayload

/-- The user, the jti and the email of a link the operation would store in the column. -/
def mails : LinkColumn → Op → Option (Uuid × Uuid × EmailPayload)
  | verification, .register id _ _ _ jti payload => some (id, jti, payload)
  | verification, .startEmailVerification userId jti payload => some (userId, jti, payload)
  | reset, .startPasswordReset userId jti payload => some (userId, jti, payload)
  | _, _ => none

end LinkColumn

/-- The email of a link, to an address its user once had. -/
def Carries (w : World) (column : LinkColumn) (userId jti : Uuid) (event : OutboxEvent EmailPayload) : Prop :=
  ∃ exp email, event.payload = column.buildEmailPayload email ⟨userId, column.type, jti, exp, none, []⟩ ∧
    ∃ db ∈ w.versions, ∃ u, db.users.get userId = some u ∧ u.email = email

theorem Carries.evolves {w w' : World} {column : LinkColumn} {userId jti : Uuid} {event : OutboxEvent EmailPayload}
    (h : Carries w column userId jti event) (hev : Evolves w w') : Carries w' column userId jti event := by
  obtain ⟨exp, email, hpayload, db, hdb, u, hu, hemail⟩ := h
  exact ⟨exp, email, hpayload, db, hev.versions db hdb, u, hu, hemail⟩

theorem Carries.same {w : World} {column : LinkColumn} {userId jti : Uuid} {event event' : OutboxEvent EmailPayload}
    (h : Carries w column userId jti event) (hsame : event.Same event') : Carries w column userId jti event' := by
  obtain ⟨exp, email, hpayload, hrest⟩ := h
  exact ⟨exp, email, hsame.2.trans hpayload, hrest⟩

/-- The emails ever staged. -/
def World.mailed (w : World) : List EmailPayload := w.staged.map OutboxEvent.payload

/-! One step. -/

section Step
variable {cfg : Config} {w w' : World} {op : Op}

/-- A statement that sets the column belongs to an operation that mails the link. -/
theorem Calls.assigned {req : Request} (h : Calls req op) (column : LinkColumn) {userId : Uuid} {fields : UserFields}
    (hsets : op.sets = some (userId, fields)) {jti : Uuid} (hassigned : column.assigned fields = some jti) :
    ∃ payload, column.mails op = some (userId, jti, payload) := by
  cases op <;> cases hsets
  case updateUser =>
    cases req with
    | updateUser header data =>
      obtain ⟨-, passwordHash, rfl, -⟩ := h
      cases column <;> cases hassigned
    | _ => cases h
  case verifyEmail => cases column <;> cases hassigned
  case resetPassword => cases column <;> cases hassigned
  case startEmailVerification => cases column <;> cases hassigned; exact ⟨_, rfl⟩
  case startPasswordReset => cases column <;> cases hassigned; exact ⟨_, rfl⟩
  case closeAccount => cases column <;> cases hassigned

/-- The row an operation registers has the address it was registered with. -/
def Op.Registered (op : Op) (db : Db) : Prop :=
  ∀ id fullName email passwordHash jti payload, op = .register id fullName email passwordHash jti payload →
    ∃ u, db.users.get id = some u ∧ u.email = email

/-- The transaction that stores the link stages its email, or does nothing. -/
theorem Effect.staged {r : op.Res} {db' : Db} (h : Effect w op r db') {column : LinkColumn} {userId jti : Uuid}
    {payload : EmailPayload} (hmails : column.mails op = some (userId, jti, payload)) :
    db' = w.db ∨ w.db.outboxEvents.insert (emailEvent w payload) = some db'.outboxEvents ∧ op.Registered db' := by
  cases h with
  | same _ => exact .inl rfl
  | registered hu he =>
    cases column <;> cases hmails
    refine .inr ⟨he, ?_⟩
    intro id' fullName email passwordHash jti' payload' hop
    cases hop
    exact ⟨_, (Table.get_insert hu _).trans (if_pos rfl), rfl⟩
  | mailed hop hu he =>
    right
    cases op <;> cases hop <;> cases column <;> cases hmails <;> refine ⟨he, ?_⟩ <;> rintro _ _ _ _ _ _ ⟨⟩
  | updated _ => cases column <;> cases hmails
  | verified _ _ => cases column <;> cases hmails
  | reset _ _ => cases column <;> cases hmails
  | loggedOut => cases column <;> cases hmails
  | closed _ => cases column <;> cases hmails
  | opened _ _ => cases column <;> cases hmails
  | rotated _ _ => cases column <;> cases hmails
  | revoked => cases column <;> cases hmails
  | purgedSessions => cases column <;> cases hmails
  | purgedTokens => cases column <;> cases hmails
  | purgedEvents => cases column <;> cases hmails
  | dispatched => cases column <;> cases hmails

end Step

/-! Runs. -/

/-- Pending links were staged. -/
def PendingMailed (w : World) : Prop :=
  ∀ column userId u jti, w.db.users.get userId = some u → LinkColumn.pending column u = some jti →
    ∃ event ∈ w.staged, Carries w column userId jti event

theorem PendingMailed.evolves {w w' : World} (h : PendingMailed w) (hev : Evolves w w') {column : LinkColumn}
    {userId jti : Uuid} {u : User} (hu : w.db.users.get userId = some u) (hpending : column.pending u = some jti) :
    ∃ event ∈ w'.staged, Carries w' column userId jti event := by
  obtain ⟨event, hevent, hcarries⟩ := h column userId u jti hu hpending
  obtain ⟨event', hevent', hsame⟩ := hev.staged event hevent
  exact ⟨event', hevent', (hcarries.evolves hev).same hsame⟩

end FastiKit
