import FastiKit.Auth.Effects
import FastiKit.Auth.Evolution
import FastiKit.Interleave.RelyGuarantee

/- What a request relies on and what it guarantees. Between two steps of a
   request the world `Evolves` and stays `Sane`. At a step, a request knows why
   the operation is `Justified`, and if the step was its last, its response
   `Answers` that operation. Both are proved for every route in `Obligations`. -/
namespace FastiKit

open Interleave Relational

/-- The same email; the relay may have stamped its row. -/
def OutboxEvent.Same (e e' : OutboxEvent EmailPayload) : Prop := e'.id = e.id ∧ e'.payload = e.payload

theorem OutboxEvent.Same.refl (e : OutboxEvent EmailPayload) : e.Same e := ⟨rfl, rfl⟩

theorem OutboxEvent.Same.trans {a b c : OutboxEvent EmailPayload} (hab : a.Same b) (hbc : b.Same c) : a.Same c :=
  ⟨hbc.1.trans hab.1, hbc.2.trans hab.2⟩

theorem OutboxEvent.same_dispatched (e : OutboxEvent EmailPayload) (taken : Bool) (now : Time) :
    e.Same (if taken then e.dispatched now else e) := by
  cases taken <;> exact ⟨rfl, rfl⟩

/-- A later world. -/
structure Evolves (w v : World) : Prop where
  now : w.now ≤ v.now
  uuids : w.uuids ≤ v.uuids
  db : Db.Evolves v.now w.uuids w.db v.db
  staged : ∀ e ∈ w.staged, ∃ e' ∈ v.staged, e.Same e'
  signed : ∀ p ∈ w.signed, p ∈ v.signed
  responses : ∀ x ∈ w.responses, x ∈ v.responses
  versions : ∀ db ∈ w.versions, db ∈ v.versions

theorem Evolves.refl (w : World) : Evolves w w :=
  ⟨Int.le_refl _, Nat.le_refl _, .refl _, fun e h => ⟨e, h, .refl e⟩, fun _ h => h, fun _ h => h, fun _ h => h⟩

theorem Evolves.trans {a b c : World} (hab : Evolves a b) (hbc : Evolves b c) : Evolves a c := by
  refine ⟨Int.le_trans hab.now hbc.now, Nat.le_trans hab.uuids hbc.uuids, hab.db.trans hbc.now hab.uuids hbc.db, ?_,
    fun p h => hbc.signed p (hab.signed p h), fun x h => hbc.responses x (hab.responses x h),
    fun db h => hbc.versions db (hab.versions db h)⟩
  intro e he
  obtain ⟨e', he', hsame⟩ := hab.staged e he
  obtain ⟨e'', he'', hsame'⟩ := hbc.staged e' he'
  exact ⟨e'', he'', hsame.trans hsame'⟩

/-- A world that differs in nothing a request relies on. -/
theorem Evolves.of_same {w v : World} (hdb : v.db = w.db) (hnow : w.now ≤ v.now) (huuids : w.uuids ≤ v.uuids)
    (hcleaned : v.cleaned = w.cleaned) (hsigned : v.signed = w.signed) (hresponses : v.responses = w.responses)
    (hversions : ∀ db ∈ w.versions, db ∈ v.versions) : Evolves w v := by
  refine ⟨hnow, huuids, ?_, ?_, ?_, ?_, hversions⟩
  · rw [hdb]; exact .refl _
  · rw [World.staged, World.staged, hdb, hcleaned]; exact fun e he => ⟨e, he, .refl e⟩
  · rw [hsigned]; exact fun _ hp => hp
  · rw [hresponses]; exact fun _ hx => hx

/-- What the tables, the tokens and the responses have to do with each other. -/
structure Sane (w : World) : Prop where
  sessions : ∀ id r, w.db.refreshSessions.get id = some r → id < w.uuids
  stamps : ∀ id r, w.db.refreshSessions.get id = some r → 0 < r.generation →
    ∃ t, r.rotatedAt = some t ∧ t ≤ w.now
  signed : ∀ p ∈ w.signed, (p.type = .access ∨ p.type = .refresh) ∧
    ∀ sid gen, p.session = some (sid, gen) → sid < w.uuids ∧
      ∀ r, w.db.refreshSessions.get sid = some r → r.userId = p.sub ∧ gen ≤ r.generation
  events : ∀ e ∈ w.staged, (e.payload.token.type = .emailVerify ∨ e.payload.token.type = .passwordReset) ∧
    e.payload.token.session = none
  responses : ∀ req u s, (req, .ok (.tokens u s)) ∈ w.responses → s.id < w.uuids ∧ s.userId = u.id ∧
    ∀ r, w.db.refreshSessions.get s.id = some r → s.Precedes r
  replica : w.replica ∈ w.versions

theorem Sane.init (now : Time) : Sane (World.init now) := by
  refine ⟨?_, ?_, ?_, ?_, ?_, List.mem_singleton_self _⟩
  · intro id r h; cases h
  · intro id r h; cases h
  · intro p h; cases h
  · intro e h; cases h
  · intro req u s h; cases h

/-- An issued token that names a session was signed in a response. -/
theorem Sane.signed_of_session {w : World} (h : Sane w) {p : TokenPayload} (hp : w.issued p = true)
    (hs : p.session.isSome = true) : p ∈ w.signed := by
  simp only [World.issued, Bool.or_eq_true, List.contains_iff_mem, List.any_eq_true, decide_eq_true_eq] at hp
  rcases hp with hp | ⟨e, he, rfl⟩
  · exact hp
  · rw [(h.events e he).2] at hs
    cases hs

theorem Evolves.issued {w v : World} (h : Evolves w v) {p : TokenPayload} (hp : w.issued p = true) :
    v.issued p = true := by
  simp only [World.issued, Bool.or_eq_true, List.contains_iff_mem, List.any_eq_true, decide_eq_true_eq] at hp ⊢
  rcases hp with hp | ⟨e, he, hpe⟩
  · exact .inl (h.signed p hp)
  · obtain ⟨e', he', hsame⟩ := h.staged e he
    exact .inr ⟨e', he', by rw [hsame.2]; exact hpe⟩

/-- What a request knows when it runs an operation. -/
def Justified : Op → World → Prop
  | .register id _ email _ jti payload, _ => ∃ exp,
    payload = EmailVerificationService.buildEmailPayload email ⟨id, .emailVerify, jti, exp, none, []⟩
  | .updateUser _ fields, _ => fields.isActive = none ∧ fields.isVerified = none
  | .verifyEmail userId token, w => userId = token.sub ∧ token.type = .emailVerify ∧ w.issued token = true
  | .resetPassword userId _ token _, w =>
    userId = token.sub ∧ token.type = .passwordReset ∧ w.issued token = true
  -- the address is the one the user once had
  | .startEmailVerification userId jti payload, w => ∃ db ∈ w.versions, ∃ u exp,
    db.users.get userId = some u ∧
      payload = EmailVerificationService.buildEmailPayload u.email ⟨userId, .emailVerify, jti, exp, none, []⟩
  | .startPasswordReset userId jti payload, w => ∃ db ∈ w.versions, ∃ u exp,
    db.users.get userId = some u ∧
      payload = PasswordResetService.buildEmailPayload u.email ⟨userId, .passwordReset, jti, exp, none, []⟩
  | .logout _ tokens _, w => ∀ t ∈ tokens, ∃ p, w.issued p = true ∧ p.ref = t
  | .closeAccount _ tokens _, w => ∀ t ∈ tokens, ∃ p, w.issued p = true ∧ p.ref = t
  | .rotate sessionId userId generation now, w => now ≤ w.now ∧
    ∃ p ∈ w.signed, p.session = some (sessionId, generation) ∧ p.sub = userId
  | .purgeSessions now, w => now ≤ w.now
  | .purgeTokens now, w => now ≤ w.now
  | _, _ => True

/-- The response to a request whose last operation was `op`, answered by `r`. -/
inductive Answers : Request → Except Err Response → (op : Op) → op.Res → Prop where
  | login {email password : String} {user : User} {session : RefreshSession} {expiresAt : Time} :
      Answers (.login email password) (.ok (.tokens user session)) (.createSession user expiresAt)
        (.ok session)
  | refresh {cookie : TokenPayload} {user : User} {session : RefreshSession} {sid : Uuid} {gen : Nat}
      {now : Time} (hs : cookie.session = some (sid, gen)) (hu : user.id = cookie.sub) :
      Answers (.refresh cookie) (.ok (.tokens user session)) (.rotate sid cookie.sub gen now)
        (.ok (some session))
  | verifyEmail {token : TokenPayload} {user : User} {text : String} :
      Answers (.verifyEmail token) (.ok (.message text)) (.verifyEmail token.sub token) (.ok user)
  | resetPassword {token : TokenPayload} {password : String} {passwordHash : PasswordHash} {user : User}
      {snapshot : Snapshot} {text : String} :
      Answers (.resetPassword token password) (.ok (.message text))
        (.resetPassword token.sub passwordHash token snapshot) (.ok user)
  | rest {req : Request} {out : Except Err Response} {op : Op} {r : op.Res} (hop : op.concludes r = false)
      (hout : ∀ response, out = .ok response → req.concludes = false ∧ ∀ u s, response ≠ .tokens u s) :
      Answers req out op r

/-- Only `.tokens` hands out tokens. -/
def Response.handsOut : Response → Bool
  | .tokens _ _ => true
  | _ => false

theorem Response.ne_tokens {response : Response} (h : response.handsOut = false) (user : User)
    (session : RefreshSession) : response ≠ .tokens user session := by
  intro heq
  rw [heq] at h
  cases h

/-- The step of an operation: the request goes on without having concluded, or
responds. -/
def Guarantee (cfg : Config) (op : Op) (w w' : World) : Prop :=
  Justified op w ∧
    (w' = (execOp cfg op w).2 ∧ op.concludes (execOp cfg op w).1 = false ∨
      ∃ req out, w' = (execOp cfg op w).2.respond cfg req out ∧ Answers req out op (execOp cfg op w).1)

/-! The guarantee keeps the world sane and within `Evolves`. -/

theorem Effect.evolves {w : World} {op : Op} {r : op.Res} {db' : Db} (hj : Justified op w)
    (h : Effect w op r db') : Db.Evolves w.now w.uuids w.db db' := by
  have trans {a b c : Db} (hab : Db.Evolves w.now w.uuids a b) (hbc : Db.Evolves w.now w.uuids b c) :
      Db.Evolves w.now w.uuids a c := hab.trans (Int.le_refl _) (Nat.le_refl _) hbc
  cases h with
  | same _ => exact .refl _
  | registered hu he => exact trans (Db.insertUser_evolves hu) (Db.setEvents_evolves _ _)
  | updated hu => exact Db.setUser_evolves _ _ _ _ hj.1
  | verified hu ht => exact trans (Db.setUser_evolves _ _ _ _ rfl) (Db.insertToken_evolves ht)
  | reset hu ht =>
    exact trans (trans (Db.setUser_evolves _ _ _ _ rfl) (Db.revokeWhere_evolves _ _ _))
      (Db.insertToken_evolves ht)
  | @mailed op r userId pending payload u events hop hu he =>
    have hpending : pending.isActive = none := by
      cases op <;> cases hop <;> rfl
    exact trans (Db.setUser_evolves _ _ _ _ hpending) (Db.setEvents_evolves _ _)
  | @loggedOut userId tokens sid =>
    cases sid with
    | none => exact Db.addAll_evolves _ _
    | some sid => exact trans (Db.addAll_evolves _ _) (Db.revokeWhere_evolves _ _ _)
  | closed hu => exact Db.closeAccount_evolves _ _ _ _ _
  | opened hu hi => exact Db.insertSession_evolves hi (Nat.le_refl _)
  | rotated hr hrot => exact Db.rotate_evolves hr hrot
  | revoked => exact Db.revokeWhere_evolves _ _ _
  | purgedSessions => exact Db.purgeSessions_evolves _ _
  | purgedTokens => exact Db.purgeTokens_evolves _ hj
  | purgedEvents => exact Db.setEvents_evolves _ _
  | dispatched => exact Db.setEvents_evolves _ _

/-- Every session under an id that was given out before was there before. -/
theorem Effect.session_ids {w : World} {op : Op} {r : op.Res} {db' : Db} (h : Effect w op r db') {id : Uuid}
    {row : RefreshSession} (hrow : db'.refreshSessions.get id = some row) :
    (∃ row', w.db.refreshSessions.get id = some row') ∨
      id = w.uuids ∧ ∃ user expiresAt, op = .createSession user expiresAt := by
  have hrevoke : ∀ (db : Db) conditions now,
      (db.revokeWhere conditions now).refreshSessions.get id = some row →
      ∃ row', db.refreshSessions.get id = some row' := by
    intro db conditions now hr
    rw [Db.get_revokeWhere, Option.map_eq_some_iff] at hr
    obtain ⟨row', hrow', _⟩ := hr
    exact ⟨row', hrow'⟩
  cases h with
  | same _ => exact .inl ⟨row, hrow⟩
  | registered hu he => exact .inl ⟨row, hrow⟩
  | updated hu => exact .inl ⟨row, hrow⟩
  | verified hu ht => exact .inl ⟨row, hrow⟩
  | reset hu ht => exact .inl (hrevoke _ _ _ hrow)
  | mailed hop hu he => exact .inl ⟨row, hrow⟩
  | @loggedOut userId tokens sid =>
    left
    cases sid with
    | none => rw [Db.logout, (Db.addAll_frame tokens w.db).2.1] at hrow; exact ⟨row, hrow⟩
    | some sid =>
      have hr := hrevoke _ _ _ hrow
      rw [(Db.addAll_frame tokens w.db).2.1] at hr
      exact hr
  | @closed userId tokens u hu =>
    left
    have hr := hrevoke _ _ _ hrow
    rw [(Db.addAll_frame tokens _).2.1] at hr
    exact hr
  | opened hu hi =>
    rw [Table.get_insert hi] at hrow
    split at hrow
    · next hid => exact .inr ⟨hid.symm, _, _, rfl⟩
    · exact .inl ⟨row, hrow⟩
  | rotated hr hrot =>
    rw [Db.get_rotate hr hrot] at hrow
    split at hrow
    · next hid => exact .inl ⟨_, hid ▸ hr⟩
    · exact .inl ⟨row, hrow⟩
  | revoked => exact .inl (hrevoke _ _ _ hrow)
  | purgedSessions =>
    rw [Table.get_deleteWhere, Option.filter_eq_some_iff] at hrow
    exact .inl ⟨row, hrow.1⟩
  | purgedTokens => exact .inl ⟨row, hrow⟩
  | purgedEvents => exact .inl ⟨row, hrow⟩
  | dispatched => exact .inl ⟨row, hrow⟩

/-- The emails are among those there were, or the operation mailed one, under the next
id: a registration to its new user, or a link. -/
theorem Effect.events {w : World} {op : Op} {r : op.Res} {db' : Db} (h : Effect w op r db') :
    (∀ e' ∈ db'.outboxEvents.rows, ∃ e ∈ w.db.outboxEvents.rows, e.Same e') ∨
      ∃ payload, w.db.outboxEvents.insert (emailEvent w payload) = some db'.outboxEvents ∧
        ((∃ userId fullName email passwordHash jti,
          op = .register userId fullName email passwordHash jti payload ∧
            db'.users.get userId = some (newUser userId fullName email passwordHash (some jti) w.now)) ∨
        ∃ userId pending, op.mailsLink = some (userId, pending, payload)) := by
  have hsame : ∀ {db' : Db}, db'.outboxEvents = w.db.outboxEvents →
      ∀ e' ∈ db'.outboxEvents.rows, ∃ e ∈ w.db.outboxEvents.rows, e.Same e' := by
    intro db' hevents e' he'
    exact ⟨e', hevents ▸ he', .refl e'⟩
  cases h with
  | same _ => exact .inl (hsame rfl)
  | @registered uid jti fullName email passwordHash payload users events hu hi =>
    refine .inr ⟨payload, hi, .inl ⟨uid, fullName, email, passwordHash, jti, rfl, ?_⟩⟩
    exact (Table.get_insert hu uid).trans (if_pos rfl)
  | updated hu => exact .inl (hsame rfl)
  | verified hu ht => exact .inl (hsame rfl)
  | reset hu ht => exact .inl (hsame rfl)
  | @mailed op r userId pending payload u events hop hu hi => exact .inr ⟨payload, hi, .inr ⟨userId, pending, hop⟩⟩
  | @loggedOut userId tokens sid =>
    cases sid with
    | none => exact .inl (hsame (Db.addAll_frame tokens w.db).2.2)
    | some sid => exact .inl (hsame (Db.addAll_frame tokens w.db).2.2)
  | @closed userId tokens snapshot u hu => exact .inl (hsame (Db.addAll_frame tokens _).2.2)
  | opened hu hi => exact .inl (hsame rfl)
  | rotated hr hrot => exact .inl (hsame rfl)
  | revoked => exact .inl (hsame rfl)
  | purgedSessions => exact .inl (hsame rfl)
  | purgedTokens => exact .inl (hsame rfl)
  | purgedEvents =>
    left
    intro e' he'
    exact ⟨e', (Table.mem_deleteWhere.mp he').1, .refl e'⟩
  | @dispatched ids r =>
    left
    intro e' he'
    have hget := Table.get_of_mem he'
    rw [Db.get_dispatch, Option.map_eq_some_iff] at hget
    obtain ⟨e, he, rfl⟩ := hget
    exact ⟨e, Table.mem_of_get he, e.same_dispatched _ _⟩

/-- An email stays, but for the stamp of its row, unless the operation cleans it up. -/
theorem Effect.event_kept {w : World} {op : Op} {r : op.Res} {db' : Db} (h : Effect w op r db')
    {e : OutboxEvent EmailPayload} (he : e ∈ w.db.outboxEvents.rows) :
    (∃ e' ∈ db'.outboxEvents.rows, e.Same e') ∨
      ∃ cutoff, op = .purgeEvents cutoff ∧ e ∈ w.db.dispatchedBefore cutoff := by
  have hsame : ∀ {db' : Db}, db'.outboxEvents = w.db.outboxEvents → ∃ e' ∈ db'.outboxEvents.rows, e.Same e' := by
    intro db' hevents
    exact ⟨e, hevents ▸ he, .refl e⟩
  have hinsert : ∀ {event : OutboxEvent EmailPayload} {outboxEvents},
      w.db.outboxEvents.insert event = some outboxEvents → ∃ e' ∈ outboxEvents.rows, e.Same e' := by
    intro event outboxEvents hi
    refine ⟨e, ?_, .refl e⟩
    rw [Table.rows_insert hi]
    exact List.mem_cons_of_mem _ he
  cases h with
  | registered hu hi => exact .inl (hinsert hi)
  | mailed hop hu hi => exact .inl (hinsert hi)
  | @loggedOut userId tokens sid =>
    cases sid with
    | none => exact .inl (hsame (Db.addAll_frame tokens w.db).2.2)
    | some sid => exact .inl (hsame (Db.addAll_frame tokens w.db).2.2)
  | @closed userId tokens snapshot u hu => exact .inl (hsame (Db.addAll_frame tokens _).2.2)
  | @purgedEvents cutoff r =>
    cases hdue : e.dispatchedBefore cutoff with
    | true => exact .inr ⟨cutoff, rfl, List.mem_filter.mpr ⟨he, hdue⟩⟩
    | false => exact .inl ⟨e, Table.mem_deleteWhere.mpr ⟨he, hdue⟩, .refl e⟩
  | @dispatched ids r =>
    left
    have hget := Db.get_dispatch w.db ids w.now e.id
    rw [Table.get_of_mem he, Option.map_some] at hget
    exact ⟨_, Table.mem_of_get hget, e.same_dispatched _ _⟩
  | _ => exact .inl (hsame rfl)

/-- Only a cleanup moves emails out of the table. -/
theorem execOp_cleaned (cfg : Config) (op : Op) (w : World) :
    (∀ cutoff, op ≠ .purgeEvents cutoff) ∧ (execOp cfg op w).2.cleaned = w.cleaned ∨
      ∃ cutoff, op = .purgeEvents cutoff ∧
        (execOp cfg op w).2.cleaned = w.db.dispatchedBefore cutoff ++ w.cleaned := by
  cases op
  case purgeEvents cutoff => exact .inr ⟨cutoff, rfl, rfl⟩
  case setJti => simp only [execOp]; rw [World.send_frame]; exact .inl ⟨by rintro _ ⟨⟩, rfl⟩
  case setReady => simp only [execOp]; rw [World.send_frame]; exact .inl ⟨by rintro _ ⟨⟩, rfl⟩
  case setSeeding =>
    simp only [execOp]
    split
    · exact .inl ⟨by rintro _ ⟨⟩, rfl⟩
    · rw [World.send_frame]; exact .inl ⟨by rintro _ ⟨⟩, rfl⟩
  all_goals exact .inl ⟨by rintro _ ⟨⟩, rfl⟩

theorem execOp_staged (cfg : Config) (op : Op) {w : World} {e : OutboxEvent EmailPayload} (he : e ∈ w.staged) :
    ∃ e' ∈ (execOp cfg op w).2.staged, e.Same e' := by
  simp only [World.staged, List.mem_append] at he ⊢
  have hcleaned := execOp_cleaned cfg op w
  rcases he with hrow | hgone
  · rcases (execOp_effect cfg op w).event_kept hrow with ⟨e', he', hsame⟩ | ⟨cutoff, rfl, hdue⟩
    · exact ⟨e', .inl he', hsame⟩
    · exact ⟨e, .inr (List.mem_append_left _ hdue), .refl e⟩
  · refine ⟨e, .inr ?_, .refl e⟩
    rcases hcleaned with ⟨-, hsame⟩ | ⟨cutoff, -, hmore⟩
    · rw [hsame]
      exact hgone
    · rw [hmore]
      exact List.mem_append_right _ hgone

/-- Where an email comes from: it was staged, a registration mailed it to its new user,
or the operation mails a link. -/
theorem execOp_event_from (cfg : Config) (op : Op) {w : World} {e' : OutboxEvent EmailPayload}
    (he' : e' ∈ (execOp cfg op w).2.staged) :
    (∃ e ∈ w.staged, e.Same e') ∨
      (∃ userId fullName email passwordHash jti,
        op = .register userId fullName email passwordHash jti e'.payload ∧ (execOp cfg op w).2.db.users.get userId =
          some (newUser userId fullName email passwordHash (some jti) w.now)) ∨
      ∃ userId pending, op.mailsLink = some (userId, pending, e'.payload) := by
  simp only [World.staged, List.mem_append] at he' ⊢
  rcases he' with hrow | hgone
  · rcases (execOp_effect cfg op w).events with hold | ⟨payload, hinsert, hop⟩
    · obtain ⟨e, he, hsame⟩ := hold e' hrow
      exact .inl ⟨e, .inl he, hsame⟩
    · rw [Table.rows_insert hinsert, List.mem_cons] at hrow
      rcases hrow with rfl | hold
      · exact .inr hop
      · exact .inl ⟨e', .inl hold, .refl e'⟩
  · left
    rcases execOp_cleaned cfg op w with ⟨-, hsame⟩ | ⟨cutoff, -, hmore⟩
    · exact ⟨e', .inr (hsame ▸ hgone), .refl e'⟩
    · rw [hmore, List.mem_append] at hgone
      rcases hgone with hdue | hold
      · exact ⟨e', .inl (List.mem_filter.mp hdue).1, .refl e'⟩
      · exact ⟨e', .inr hold, .refl e'⟩

/-- Every email was there before, or its operation is justified. -/
theorem execOp_event_links (cfg : Config) {op : Op} {w : World} (hj : Justified op w)
    {e' : OutboxEvent EmailPayload} (he' : e' ∈ (execOp cfg op w).2.staged) :
    (∃ e ∈ w.staged, e.Same e') ∨
      ∃ email token, token.session = none ∧ (token.type = .emailVerify ∧
          e'.payload = EmailVerificationService.buildEmailPayload email token ∨
        token.type = .passwordReset ∧ e'.payload = PasswordResetService.buildEmailPayload email token) := by
  rcases execOp_event_from cfg op he' with
    hold | ⟨userId, fullName, email, passwordHash, jti, rfl, -⟩ | ⟨userId, pending, hop⟩
  · exact .inl hold
  · obtain ⟨exp, hp⟩ := hj
    exact .inr ⟨email, _, rfl, .inl ⟨rfl, hp⟩⟩
  · right
    cases op <;> cases hop
    · obtain ⟨-, -, u, exp, -, hp⟩ := hj
      exact ⟨u.email, _, rfl, .inl ⟨rfl, hp⟩⟩
    · obtain ⟨-, -, u, exp, -, hp⟩ := hj
      exact ⟨u.email, _, rfl, .inr ⟨rfl, hp⟩⟩

theorem execOp_evolves (cfg : Config) {w : World} {op : Op} (hj : Justified op w) :
    Evolves w (execOp cfg op w).2 := by
  obtain ⟨hnow, hsigned, hresponses⟩ := execOp_frame cfg op w
  refine ⟨Int.le_of_eq hnow.symm, (execOp_uuids cfg op w), ?_, fun e he => execOp_staged cfg op he, ?_, ?_, ?_⟩
  · rw [hnow]
    exact (execOp_effect cfg op w).evolves hj
  · intro p hp; rw [hsigned]; exact hp
  · intro x hx; rw [hresponses]; exact hx
  · intro db hdb
    obtain ⟨-, hsame | hnew⟩ := execOp_versions cfg op w
    · rw [hsame]; exact hdb
    · rw [hnew]; exact List.mem_cons_of_mem _ hdb

/-- What was said of a session's row stays true of a later one. -/
theorem Evolves.session {w v : World} (h : Evolves w v) {sid : Uuid} {P : RefreshSession → Prop}
    (hsid : sid < w.uuids) (hP : ∀ r r' : RefreshSession, r.Precedes r' → P r → P r')
    (hw : ∀ r, w.db.refreshSessions.get sid = some r → P r) :
    ∀ r, v.db.refreshSessions.get sid = some r → P r := by
  intro r' hr'
  obtain ⟨r, hr, hp⟩ := h.db.sessions sid r' hsid hr'
  exact hP r r' hp (hw r hr)

/-- A row's stamp is that of an earlier row of the same generation, or of the
rotate itself. -/
theorem Effect.stamps {w : World} {op : Op} {r : op.Res} {db' : Db} (hs : Sane w) (hj : Justified op w)
    (h : Effect w op r db') {id : Uuid} {row : RefreshSession}
    (hrow : db'.refreshSessions.get id = some row) (hgen : 0 < row.generation) :
    ∃ t, row.rotatedAt = some t ∧ t ≤ w.now := by
  have hev := h.evolves hj
  cases hg : op.generates r with
  | false =>
    obtain ⟨row', hrow', heq⟩ := h.generation hg hrow
    obtain ⟨row'', hrow'', hp⟩ := hev.sessions id row (hs.sessions id row' hrow') hrow
    rw [hrow'] at hrow''
    cases hrow''
    rw [hp.rotatedAt heq]
    exact hs.stamps id row' hrow' (heq ▸ hgen)
  | true =>
    cases h with
    | opened hu hi =>
      rw [Table.get_insert hi] at hrow
      split at hrow
      · cases hrow
        exact absurd hgen (Nat.lt_irrefl 0)
      · exact hs.stamps id row hrow hgen
    | @rotated sid userId gen now r hr hrot =>
      rw [Db.get_rotate hr hrot] at hrow
      split at hrow
      · cases hrow
        exact ⟨now, rfl, hj.1⟩
      · exact hs.stamps id row hrow hgen
    | same hc =>
      rw [Op.generates_of_concludes hc] at hg
      cases hg
    | mailed hop hu he => cases op <;> cases hop <;> cases hg
    | _ => cases hg

theorem execOp_sane (cfg : Config) {w : World} {op : Op} (hs : Sane w) (hj : Justified op w) :
    Sane (execOp cfg op w).2 := by
  have hev := execOp_evolves cfg hj
  have heff := execOp_effect cfg op w
  obtain ⟨hnow, hsigned, hresponses⟩ := execOp_frame cfg op w
  have huuids := execOp_uuids cfg op w
  refine ⟨?_, ?_, ?_, ?_, ?_, ?_⟩
  · intro id r hr
    rcases heff.session_ids hr with ⟨r', hr'⟩ | ⟨rfl, user, expiresAt, hop⟩
    · exact Nat.lt_of_lt_of_le (hs.sessions id r' hr') huuids
    · rw [hop]
      exact createSession_uuids cfg user expiresAt w
  · intro id r hr hgen
    rw [hnow]
    exact heff.stamps hs hj hr hgen
  · intro p hp
    rw [hsigned] at hp
    obtain ⟨htype, hses⟩ := hs.signed p hp
    refine ⟨htype, ?_⟩
    intro sid gen hp
    obtain ⟨hsid, hrow⟩ := hses sid gen hp
    refine ⟨Nat.lt_of_lt_of_le hsid huuids, hev.session hsid ?_ hrow⟩
    rintro r r' hprec ⟨huser, hgen⟩
    exact ⟨hprec.userId.trans huser, Nat.le_trans hgen hprec.generation⟩
  · intro e he
    rcases execOp_event_links cfg hj he with ⟨e₀, he₀, hsame⟩ | ⟨email, token, hses, ⟨htype, hpay⟩ | ⟨htype, hpay⟩⟩
    · rw [hsame.2]; exact hs.events e₀ he₀
    · rw [hpay]; exact ⟨.inl htype, hses⟩
    · rw [hpay]; exact ⟨.inr htype, hses⟩
  · intro req u s hmem
    rw [hresponses] at hmem
    obtain ⟨hsid, huser, hrow⟩ := hs.responses req u s hmem
    exact ⟨Nat.lt_of_lt_of_le hsid huuids, huser,
      hev.session hsid (fun r r' hprec hr => hr.trans hprec) hrow⟩
  · rw [(execOp_versions cfg op w).1]
    exact hev.versions _ hs.replica

theorem World.respond_db (cfg : Config) (req : Request) (out : Except Err Response) (w : World) :
    (w.respond cfg req out).db = w.db ∧ (w.respond cfg req out).now = w.now ∧
      (w.respond cfg req out).redis = w.redis ∧
      (w.respond cfg req out).responses = (req, out) :: w.responses ∧
      w.uuids ≤ (w.respond cfg req out).uuids := by
  unfold respond
  split
  · exact ⟨rfl, rfl, rfl, rfl, Nat.le_add_right _ 2⟩
  · exact ⟨rfl, rfl, rfl, rfl, Nat.le_refl _⟩

theorem World.respond_versions (cfg : Config) (req : Request) (out : Except Err Response) (w : World) :
    (w.respond cfg req out).versions = w.versions ∧ (w.respond cfg req out).replica = w.replica := by
  unfold respond
  split <;> exact ⟨rfl, rfl⟩

theorem World.respond_staged (cfg : Config) (req : Request) (out : Except Err Response) (w : World) :
    (w.respond cfg req out).cleaned = w.cleaned ∧ (w.respond cfg req out).staged = w.staged := by
  unfold respond
  split <;> exact ⟨rfl, rfl⟩

theorem World.respond_evolves (cfg : Config) (req : Request) (out : Except Err Response) (w : World) :
    Evolves w (w.respond cfg req out) := by
  obtain ⟨hdb, hnow, -, hres, huuids⟩ := w.respond_db cfg req out
  refine ⟨Int.le_of_eq hnow.symm, huuids, ?_, ?_, ?_, ?_, ?_⟩
  · rw [hdb]; exact .refl _
  · rw [(w.respond_staged cfg req out).2]; exact fun e he => ⟨e, he, .refl e⟩
  · intro p hp
    unfold respond
    split
    · exact List.mem_cons_of_mem _ (List.mem_cons_of_mem _ hp)
    · exact hp
  · intro x hx; rw [hres]; exact List.mem_cons_of_mem _ hx
  · rw [(w.respond_versions cfg req out).1]; exact fun _ h => h

/-- A token is signed only in a response with tokens, for its user and session. -/
theorem World.mem_signed_respond {cfg : Config} {req : Request} {out : Except Err Response} {w : World}
    {p : TokenPayload} (hp : p ∈ (w.respond cfg req out).signed) :
    p ∈ w.signed ∨ ∃ user session, out = .ok (.tokens user session) ∧ p.sub = user.id ∧
      (p.type = .access ∧ p.session = none ∨
        p.type = .refresh ∧ p.session = some (session.id, session.generation)) := by
  unfold respond at hp
  split at hp
  · next user session =>
    simp only [sign, List.mem_cons] at hp
    rcases hp with rfl | rfl | hp
    · exact .inr ⟨user, session, rfl, rfl, .inr ⟨rfl, rfl⟩⟩
    · exact .inr ⟨user, session, rfl, rfl, .inl ⟨rfl, rfl⟩⟩
    · exact .inl hp
  · exact .inl hp

/-- The session a response hands out is the one its operation has just stored. -/
theorem Answers.session {w : World} {req : Request} {op : Op} {r : op.Res} {db' : Db} {user : User}
    {session : RefreshSession} (h : Answers req (.ok (.tokens user session)) op r)
    (heff : Effect w op r db') :
    db'.refreshSessions.get session.id = some session ∧ session.userId = user.id := by
  cases h with
  | login =>
    obtain ⟨hnew, sessions, hi, rfl⟩ := heff.of_createSession
    refine ⟨?_, by rw [hnew]; rfl⟩
    rw [Table.get_insert hi]
    exact if_pos rfl
  | refresh hses huser =>
    obtain ⟨row, hr, hrot, rfl, rfl⟩ := heff.of_rotate
    have hid : row.id = _ := Table.get_key hr
    rw [RefreshSession.rotated_id, hid, Db.get_rotate hr hrot, if_pos rfl]
    simp only [RefreshSession.rotatable, Bool.and_eq_true, decide_eq_true_eq] at hrot
    exact ⟨rfl, hrot.1.1.1.trans huser.symm⟩
  | rest hop hout => exact absurd rfl ((hout _ rfl).2 user session)

theorem respond_sane (cfg : Config) {w : World} {op : Op} {req : Request} {out : Except Err Response}
    (hs : Sane w) (hj : Justified op w) (ha : Answers req out op (execOp cfg op w).1) :
    Sane ((execOp cfg op w).2.respond cfg req out) := by
  have hexec := execOp_sane cfg hs hj
  obtain ⟨hdb, hnow, -, hres, huuids⟩ := (execOp cfg op w).2.respond_db cfg req out
  refine ⟨?_, ?_, ?_, ?_, ?_, ?_⟩
  · intro id r hr
    rw [hdb] at hr
    exact Nat.lt_of_lt_of_le (hexec.sessions id r hr) huuids
  · rw [hdb, hnow]
    exact hexec.stamps
  · intro p hp
    rw [hdb]
    rcases World.mem_signed_respond hp with hp | ⟨user, session, rfl, hsub, ⟨htype, hses⟩ | ⟨htype, hses⟩⟩
    · obtain ⟨htype, hses⟩ := hexec.signed p hp
      refine ⟨htype, ?_⟩
      intro sid gen hp
      obtain ⟨hsid, hrow⟩ := hses sid gen hp
      exact ⟨Nat.lt_of_lt_of_le hsid huuids, hrow⟩
    · refine ⟨.inl htype, ?_⟩
      intro sid gen hp
      rw [hses] at hp
      cases hp
    · refine ⟨.inr htype, ?_⟩
      intro sid gen hp
      rw [hses] at hp
      cases hp
      obtain ⟨hrow, huser⟩ := ha.session (execOp_effect cfg op w)
      refine ⟨Nat.lt_of_lt_of_le (hexec.sessions _ _ hrow) huuids, ?_⟩
      intro r hr
      rw [hrow] at hr
      cases hr
      exact ⟨huser.trans hsub.symm, Nat.le_refl _⟩
  · rw [((execOp cfg op w).2.respond_staged cfg req out).2]
    exact hexec.events
  · intro req' u s hmem
    rw [hres, List.mem_cons] at hmem
    rw [hdb]
    rcases hmem with heq | hmem
    · cases heq
      obtain ⟨hrow, huser⟩ := ha.session (execOp_effect cfg op w)
      refine ⟨Nat.lt_of_lt_of_le (hexec.sessions _ _ hrow) huuids, huser, ?_⟩
      intro r hr
      rw [hrow] at hr
      cases hr
      exact .refl _
    · obtain ⟨hsid, huser, hrow⟩ := hexec.responses req' u s hmem
      exact ⟨Nat.lt_of_lt_of_le hsid huuids, huser, hrow⟩
  · obtain ⟨hversions, hreplica⟩ := (execOp cfg op w).2.respond_versions cfg req out
    rw [hversions, hreplica]
    exact hexec.replica

/-- A guaranteed step in terms of its effect. -/
theorem Guarantee.effect {cfg : Config} {op : Op} {w w' : World} (h : Guarantee cfg op w w') :
    ∃ r : op.Res, Effect w op r w'.db ∧ w'.now = w.now ∧ w.uuids ≤ w'.uuids ∧
      (w'.responses = w.responses ∧ op.concludes r = false ∨
        ∃ req out, w'.responses = (req, out) :: w.responses ∧ Answers req out op r) := by
  have heff := execOp_effect cfg op w
  obtain ⟨hnow, -, hresponses⟩ := execOp_frame cfg op w
  have huuids := (execOp_uuids cfg op w)
  obtain ⟨-, ⟨rfl, hc⟩ | ⟨req, out, rfl, ha⟩⟩ := h
  · exact ⟨_, heff, hnow, huuids, .inl ⟨hresponses, hc⟩⟩
  · obtain ⟨hdb, hnow', -, hres, hle⟩ := (execOp cfg op w).2.respond_db cfg req out
    refine ⟨_, hdb ▸ heff, hnow'.trans hnow, Nat.le_trans huuids hle, .inr ⟨req, out, ?_, ha⟩⟩
    rw [hres, hresponses]

/-- The database a guaranteed step leaves is the operation's. -/
theorem Guarantee.db {cfg : Config} {op : Op} {w w' : World} (h : Guarantee cfg op w w') :
    w'.db = (execOp cfg op w).2.db := by
  obtain ⟨-, ⟨rfl, -⟩ | ⟨req, out, rfl, -⟩⟩ := h
  · rfl
  · exact ((execOp cfg op w).2.respond_db cfg req out).1

/-- A response stages nothing and cleans nothing up. -/
theorem Guarantee.outbox {cfg : Config} {op : Op} {w w' : World} (h : Guarantee cfg op w w') :
    w'.cleaned = (execOp cfg op w).2.cleaned ∧ w'.staged = (execOp cfg op w).2.staged := by
  obtain ⟨-, ⟨rfl, -⟩ | ⟨req, out, rfl, -⟩⟩ := h
  · exact ⟨rfl, rfl⟩
  · exact World.respond_staged cfg req out _

/-- So is Redis. -/
theorem Guarantee.redis {cfg : Config} {op : Op} {w w' : World} (h : Guarantee cfg op w w') :
    w'.redis = (execOp cfg op w).2.redis := by
  obtain ⟨-, ⟨rfl, -⟩ | ⟨req, out, rfl, -⟩⟩ := h
  · rfl
  · exact ((execOp cfg op w).2.respond_db cfg req out).2.2.1

/-- The database is kept, if it is a new one. -/
theorem Guarantee.versions {cfg : Config} {op : Op} {w w' : World} (h : Guarantee cfg op w w') :
    w'.versions = w.versions ∨ w'.versions = w'.db :: w.versions := by
  have hversions := (execOp_versions cfg op w).2
  obtain ⟨-, ⟨rfl, -⟩ | ⟨req, out, rfl, -⟩⟩ := h
  · exact hversions
  · rw [((execOp cfg op w).2.respond_versions cfg req out).1, ((execOp cfg op w).2.respond_db cfg req out).1]
    exact hversions

theorem Guarantee.evolves {cfg : Config} {op : Op} {w w' : World} (h : Guarantee cfg op w w') :
    Evolves w w' := by
  obtain ⟨hj, ⟨rfl, -⟩ | ⟨req, out, rfl, ha⟩⟩ := h
  · exact execOp_evolves cfg hj
  · exact (execOp_evolves cfg hj).trans (World.respond_evolves cfg req out _)

theorem Guarantee.sane {cfg : Config} {op : Op} {w w' : World} (hs : Sane w)
    (h : Guarantee cfg op w w') : Sane w' := by
  obtain ⟨hj, ⟨rfl, -⟩ | ⟨req, out, rfl, ha⟩⟩ := h
  · exact execOp_sane cfg hs hj
  · exact respond_sane cfg hs hj ha

/-- A session opens with the login's response, under the next id. -/
theorem Guarantee.opened {cfg : Config} {user : User} {expiresAt : Time} {w w' : World}
    (h : Guarantee cfg (.createSession user expiresAt) w w') :
    w'.db = w.db ∨ ∃ email password session,
      (Request.login email password, Except.ok (Response.tokens user session)) ∈ w'.responses ∧
      session = newSession w.uuids user.id expiresAt ∧ w'.db.users = w.db.users ∧
      ∀ sid, w'.db.refreshSessions.get sid =
        if w.uuids = sid then some session else w.db.refreshSessions.get sid := by
  obtain ⟨r, heff, -, -, hres⟩ := h.effect
  cases r with
  | error e =>
    left
    generalize w'.db = db' at heff
    cases heff with
    | same _ => rfl
    | mailed hop _ _ => cases hop
  | ok session =>
    right
    obtain ⟨hnew, sessions, hi, hdb⟩ := heff.of_createSession
    rcases hres with ⟨-, hc⟩ | ⟨req, out, hres, ha⟩
    · cases hc
    · cases ha with
      | login =>
        refine ⟨_, _, session, by rw [hres]; exact List.mem_cons_self, hnew, by rw [hdb], ?_⟩
        intro sid
        rw [hdb]
        have hid : session.id = w.uuids := by rw [hnew]; rfl
        rw [← hid]
        exact Table.get_insert hi sid
      | rest hc _ => cases hc

/-- An event leaves the primary, the tokens and the responses alone. -/
theorem World.event_frame {e : Event} {w w' : World} (h : w.event e = some w') :
    w'.db = w.db ∧ w'.uuids = w.uuids ∧ w'.signed = w.signed ∧ w'.responses = w.responses ∧
      w.now ≤ w'.now := by
  cases e with
  | tick elapsed =>
    cases h
    exact ⟨rfl, rfl, rfl, rfl, Int.le_add_of_nonneg_right (Int.natCast_nonneg elapsed)⟩
  | replicate version =>
    simp only [event, Option.map_eq_some_iff] at h
    obtain ⟨replica, _, rfl⟩ := h
    exact ⟨rfl, rfl, rfl, rfl, Int.le_refl _⟩
  | redisFault fault => cases h; exact ⟨rfl, rfl, rfl, rfl, Int.le_refl _⟩
  | loseKeys => cases h; exact ⟨rfl, rfl, rfl, rfl, Int.le_refl _⟩

/-- The replica serves a state the primary was in. -/
theorem World.event_versions {e : Event} {w w' : World} (h : w.event e = some w') :
    w'.versions = w.versions ∧ (w.replica ∈ w.versions → w'.replica ∈ w'.versions) := by
  cases e with
  | tick elapsed => cases h; exact ⟨rfl, fun hr => hr⟩
  | replicate version =>
    simp only [event, Option.map_eq_some_iff] at h
    obtain ⟨replica, hget, rfl⟩ := h
    exact ⟨rfl, fun _ => List.mem_of_getElem? hget⟩
  | redisFault fault => cases h; exact ⟨rfl, fun hr => hr⟩
  | loseKeys => cases h; exact ⟨rfl, fun hr => hr⟩

theorem World.event_staged {e : Event} {w w' : World} (h : w.event e = some w') :
    w'.cleaned = w.cleaned ∧ w'.staged = w.staged := by
  cases e with
  | replicate version =>
    simp only [event, Option.map_eq_some_iff] at h
    obtain ⟨replica, _, rfl⟩ := h
    exact ⟨rfl, rfl⟩
  | _ => cases h; exact ⟨rfl, rfl⟩

theorem World.event_evolves {e : Event} {w w' : World} (h : w.event e = some w') : Evolves w w' := by
  obtain ⟨hdb, huuids, hsigned, hresponses, hnow⟩ := event_frame h
  refine .of_same hdb hnow (Nat.le_of_eq huuids.symm) (event_staged h).1 hsigned hresponses ?_
  rw [(event_versions h).1]
  exact fun _ h => h

theorem World.event_sane {e : Event} {w w' : World} (hs : Sane w) (h : w.event e = some w') :
    Sane w' := by
  obtain ⟨hdb, huuids, hsigned, hresponses, hnow⟩ := event_frame h
  refine ⟨?_, ?_, ?_, ?_, ?_, (event_versions h).2 hs.replica⟩
  · rw [hdb, huuids]; exact hs.sessions
  · intro id r hr hgen
    rw [hdb] at hr
    obtain ⟨t, ht, hle⟩ := hs.stamps id r hr hgen
    exact ⟨t, ht, Int.le_trans hle hnow⟩
  · rw [hdb, huuids, hsigned]; exact hs.signed
  · rw [(event_staged h).2]; exact hs.events
  · rw [hdb, huuids, hresponses]; exact hs.responses

end FastiKit
