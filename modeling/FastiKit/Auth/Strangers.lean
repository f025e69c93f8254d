import FastiKit.Auth.LogoutFrame

/- What nobody can do without a user's password or one of the user's tokens.

   A stranger to a user makes requests that carry no token the user was given or mailed,
   and logins with passwords the user never had. What is proved, of every run in which
   every request is a stranger's, whatever the requests are and however their steps
   interleave (`strangers_spare`): the user's row is the same but for the pending links
   (anybody may ask for a link to be mailed), no session of the user's is opened, rotated
   or revoked, none of the user's tokens is taken back, in the table or in Redis, none is
   signed, and no answer carries the user's row, but a list of users that is asked for with
   the scope for it. So a stranger never becomes anything else: the tokens of a user are
   signed for a password or for a token of the user's.

   Beside what `RevokedTokens` says of the tokens a request revokes, two facts about the
   programs carry it: what a request answers is its own (`ready_ownAnswers`), and a login
   that opens a session has checked its password against a row the user had
   (`loginsChecked_step`). -/
namespace FastiKit

open Interleave Relational

/-! What a login has checked. -/

/-- A session is opened for a row the user had, whose hash fits the password. -/
def Checked (cfg : Config) (password : String) (w : World) (op : Op) : Prop :=
  ∀ user expiresAt, op = .createSession user expiresAt → cfg.checkpw password user.passwordHash = true ∧
    ∃ db ∈ w.versions, db.users.get user.id = some user

theorem Checked.evolves {cfg : Config} {password : String} {w w' : World} {op : Op} (h : Checked cfg password w op)
    (hev : Evolves w w') : Checked cfg password w' op := by
  intro user expiresAt hop
  obtain ⟨hfits, db, hdb, hrow⟩ := h user expiresAt hop
  exact ⟨hfits, db, hev.versions db hdb, hrow⟩

theorem Quiet.checked {cfg : Config} {password : String} {w : World} {op : Op} (h : Quiet op) :
    Checked cfg password w op := by
  rintro user expiresAt rfl
  cases h

/-- The database is a version of itself. -/
theorem execOp_current (cfg : Config) (op : Op) {w : World} (h : w.db ∈ w.versions) :
    (execOp cfg op w).2.db ∈ (execOp cfg op w).2.versions := by
  cases op with
  | setJti | setReady =>
    simp only [execOp]
    rw [World.send_frame]
    exact h
  | setSeeding =>
    simp only [execOp]
    split
    · exact h
    · rw [World.send_frame]
      exact h
  | register | updateUser | verifyEmail | resetPassword | startEmailVerification | startPasswordReset | logout
  | closeAccount | createSession | rotate | revokeSession | purgeSessions | purgeTokens | purgeEvents
  | dispatchEvents => exact List.mem_cons_self
  | _ => exact h

theorem current_of_guarantee {cfg : Config} {op : Op} {w w' : World} (hg : Guarantee cfg op w w')
    (h : w.db ∈ w.versions) : w'.db ∈ w'.versions := by
  have hexec := execOp_current cfg op h
  obtain ⟨-, ⟨rfl, -⟩ | ⟨req, out, rfl, -⟩⟩ := hg
  · exact hexec
  · rw [(World.respond_versions cfg req out _).1, (World.respond_db cfg req out _).1]
    exact hexec

/-- What follows the row a login read. -/
theorem login_checked (cfg : Config) (email password : String) {w : World} (h : w.db ∈ w.versions) :
    ∃ k : Option User → Api Response, serve cfg (.login email password) = .call (.getUserByEmail email true) k ∧
      (k (execOp cfg (.getUserByEmail email true) w).1).Uses (Checked cfg password w) (fun _ => True) := by
  refine ⟨_, rfl, ?_⟩
  simp only [execOp, if_true]
  cases hu : w.db.users.rows.find? (fun r => r.email = email) with
  | none => trivial
  | some user =>
    show Prog.Uses _ _ (Prog.bind (Prog.bind (ite _ _ _) _) _)
    split
    · trivial
    · next hpass =>
      simp only [Bool.or_eq_true, Bool.not_eq_true', not_or, Bool.not_eq_false] at hpass
      refine ⟨Quiet.checked rfl, fun now => ⟨?_, ?_⟩⟩
      · rintro user' expiresAt ⟨⟩
        exact ⟨hpass.1.1, w.db, h, Table.get_of_mem (List.mem_of_find?_eq_some hu)⟩
      · intro r
        cases r <;> trivial

/-- Every login has yet to read its row, or has checked it. -/
def LoginsChecked (cfg : Config) (s : Service) : Prop :=
  ∀ th ∈ s.threads, ∀ email password, th.req = .login email password →
    th.code = serve cfg th.req ∨ th.code.Uses (Checked cfg password s.state) (fun _ => True)

theorem loginsChecked_step {cfg : Config} {s s' : Service} {a : Action Request Event} (hs : Served.Pool cfg s)
    (hcurrent : s.state.db ∈ s.state.versions) (ha : (service cfg).step s a = some s') (h : LoginsChecked cfg s) :
    LoginsChecked cfg s' := by
  have hev : Evolves s.state s'.state := steps_evolves (C := fun _ _ => True) (.single ⟨a, trivial, ha⟩) hs
  have hold : ∀ th ∈ s.threads, ∀ email password, th.req = .login email password →
      th.code = serve cfg th.req ∨ th.code.Uses (Checked cfg password s'.state) (fun _ => True) := by
    intro th hth email password hreq
    exact (h th hth email password hreq).imp_right
      (fun huses => huses.mono (fun _ hop => hop.evolves hev) (fun _ _ => trivial))
  cases a with
  | spawn req =>
    obtain ⟨-, rfl⟩ := System.step_spawn ha
    intro th hth
    rcases List.mem_append.mp hth with hmem | hnew
    · exact hold th hmem
    · rw [List.mem_singleton.mp hnew]
      exact fun _ _ _ => .inl rfl
  | run i =>
    obtain ⟨req, op, k, hi, rfl⟩ := System.step_run ha
    intro th hth
    rcases List.mem_or_eq_of_mem_set hth with hmem | rfl
    · exact hold th hmem
    · rintro email password rfl
      right
      rcases h _ (List.mem_of_getElem? hi) email password rfl with hstart | huses
      · obtain ⟨k', hcode, hrest⟩ := login_checked cfg email password hcurrent
        rw [hcode] at hstart
        cases hstart
        exact hrest.mono (fun _ hop => hop.evolves hev) (fun _ _ => trivial)
      · exact (huses.2 _).mono (fun _ hop => hop.evolves hev) (fun _ _ => trivial)
  | cancel i =>
    obtain ⟨th', hi, rfl⟩ := System.step_cancel ha
    intro th hth
    rcases List.mem_or_eq_of_mem_set hth with hmem | rfl
    · exact hold th hmem
    · exact hold th' (List.mem_of_getElem? hi)
  | env e =>
    obtain ⟨w, -, rfl⟩ := System.step_env ha
    exact hold

/-! Whose row a request answers. -/

/-- An answer's row is that of a token's user, or new. -/
def OwnAnswer (req : Request) (out : Except Err Response) (w : World) : Prop :=
  ∀ user, out = .ok (.user user) → (∃ p ∈ req.tokens, p.sub = user.id) ∨ w.db.users.get user.id = none

theorem OwnAnswer.error (req : Request) (e : Err) (w : World) : OwnAnswer req (.error e) w := by
  intro user h
  cases h

section Answers
variable {cfg : Config} {α : Type} {L : Except Err Response → Prop}

/-- The requests that answer with a row. -/
def Request.answersRow : Request → Bool
  | .createUser _ | .updateUser _ _ | .getUser _ => true
  | _ => false

/-- A request for the list of users, with the scope that `list_users` asks for. -/
def Request.administers (cfg : Config) : Request → Bool
  | .listUsers header _ => cfg.hasScopes header.scopes ["admin:read"]
  | _ => false

/-- Rows are answered to the requests for them. -/
def Fits (cfg : Config) (req : Request) (out : Except Err Response) : Prop :=
  (∀ user, out = .ok (.user user) → req.answersRow = true) ∧
    ∀ items, out = .ok (.page items) → req.administers cfg = true

theorem Fits.error (req : Request) (e : Err) : Fits cfg req (.error e) := by
  refine ⟨?_, ?_⟩
  · rintro user ⟨⟩
  · rintro items ⟨⟩

/-- An answer that carries no row. -/
theorem Fits.rest (req : Request) {response : Response} (hrow : ∀ user, response ≠ .user user)
    (hpage : ∀ items, response ≠ .page items) : Fits cfg req (.ok response) := by
  refine ⟨?_, ?_⟩
  · intro user heq
    exact absurd (Except.ok.inj heq) (hrow user)
  · intro items heq
    exact absurd (Except.ok.inj heq) (hpage items)

theorem Fits.message (req : Request) (text : String) : Fits cfg req (.ok (.message text)) := by
  apply Fits.rest <;> rintro _ ⟨⟩

theorem Fits.completed (req : Request) (deleted : Option Nat) : Fits cfg req (.ok (.completed deleted)) := by
  apply Fits.rest <;> rintro _ ⟨⟩

theorem Fits.user {req : Request} (h : req.answersRow = true) (user : User) : Fits cfg req (.ok (.user user)) := by
  refine ⟨fun _ _ => h, ?_⟩
  rintro items ⟨⟩

end Answers

/-! Strangers, and what they leave alone. -/

/-- The row, but for the pending links and the stamp of its last UPDATE. -/
def User.account (u : User) : User :=
  { u with pendingVerificationJti := none, pendingPasswordResetJti := none, updatedAt := 0 }

/-- The answer carries the user's row, or tokens for the user. -/
def mentions (userId : Uuid) : Except Err Response → Bool
  | .ok (.user user) => user.id = userId
  | .ok (.page items) => items.any (fun user => user.id = userId)
  | .ok (.tokens user _) => user.id = userId
  | _ => false

/-- From `w` to `v`, nothing happened to the user's account, of which `row` is the row in
`w`, but that links were mailed, that what had expired was purged, that Redis got what
the table says, and that administrators listed the users. -/
structure LeftAlone (cfg : Config) (userId : Uuid) (row : User) (w v : World) : Prop where
  account : ∃ row', v.db.users.get userId = some row' ∧ row'.account = row.account
  versions : ∀ db ∈ v.versions, db ∈ w.versions ∨
    ∃ row', db.users.get userId = some row' ∧ row'.account = row.account
  sessions : ∀ sid session, session.userId = userId →
    (v.db.refreshSessions.get sid = some session → w.db.refreshSessions.get sid = some session) ∧
      (w.db.refreshSessions.get sid = some session → v.now < session.expiresAt →
        v.db.refreshSessions.get sid = some session)
  revoked : ∀ p, w.issued p = true → p.sub = userId → ∀ entry,
    (v.db.revokedTokens.get p.jti = some entry → w.db.revokedTokens.get p.jti = some entry) ∧
      (w.db.revokedTokens.get p.jti = some entry → v.now < entry.expiresAt →
        v.db.revokedTokens.get p.jti = some entry)
  redis : ∀ p, w.issued p = true → p.sub = userId → ∀ token ∈ v.redis.jtis, token.jti = p.jti →
    v.now < token.expiresAt →
      token ∈ w.redis.jtis ∨ w.db.revokedTokens.get p.jti = some ⟨token.jti, token.expiresAt⟩
  signed : ∀ p ∈ v.signed, p.sub = userId → p ∈ w.signed
  answers : ∀ x ∈ v.responses, x ∈ w.responses ∨ mentions userId x.2 = false ∨ x.1.administers cfg = true

/-- What makes a request a stranger's: nothing it carries is the user's. -/
structure Outside (cfg : Config) (userId : Uuid) (w : World) (req : Request) : Prop where
  tokens : ∀ p ∈ req.tokens, p.sub ≠ userId
  password : ∀ email password, req = .login email password → ∀ db ∈ w.versions, ∀ row,
    db.users.get userId = some row → cfg.checkpw password row.passwordHash = false

/-! One step of a stranger. -/

section Step
variable {cfg : Config} {userId : Uuid} {w v v' : World} {req : Request} {op : Op}

theorem UserFields.account_apply {f : UserFields} (hemail : f.email = none) (hname : f.fullName = none)
    (hhash : f.passwordHash = none) (hactive : f.isActive = none) (hverified : f.isVerified = none) (now : Time)
    (u : User) : (f.apply now u).account = u.account := by
  have hset : (f.set u).account = u.account := by
    simp [set, User.account, hemail, hname, hhash, hactive, hverified]
  unfold apply
  split
  · rfl
  · exact hset

/-- What a stranger sets in the user's row is a pending link. -/
theorem Outside.account_set (h : Outside cfg userId w req) (hcalls : Calls req op) (hj : Justified op v)
    {fields : UserFields} (hsets : op.sets = some (userId, fields)) (now : Time) (u : User) :
    (fields.apply now u).account = u.account := by
  cases op <;> cases hsets
  case updateUser =>
    cases req with
    | updateUser header data => exact absurd hcalls.1.symm (h.tokens header (List.mem_singleton_self _))
    | _ => cases hcalls
  case verifyEmail token =>
    cases req with
    | verifyEmail token' =>
      obtain rfl : token = token' := hcalls
      exact absurd hj.1.symm (h.tokens token (List.mem_singleton_self _))
    | _ => cases hcalls
  case resetPassword passwordHash token snapshot =>
    cases req with
    | resetPassword token' newPassword =>
      obtain rfl : token = token' := hcalls
      exact absurd hj.1.symm (h.tokens token (List.mem_singleton_self _))
    | _ => cases hcalls
  case closeAccount tokens snapshot =>
    cases req with
    | deleteUser header cookie => exact absurd (Eq.symm hcalls) (h.tokens header List.mem_cons_self)
    | _ => cases hcalls
  case startEmailVerification => exact UserFields.account_apply rfl rfl rfl rfl rfl now u
  case startPasswordReset => exact UserFields.account_apply rfl rfl rfl rfl rfl now u

theorem Outside.account (h : Outside cfg userId w req) (hcalls : Calls req op) (hg : Guarantee cfg op v v')
    {row : User} (hrow : v.db.users.get userId = some row) :
    ∃ row', v'.db.users.get userId = some row' ∧ row'.account = row.account := by
  obtain ⟨r, heff, -⟩ := hg.effect
  rcases heff.user hrow with hsame | ⟨fields, hsets, hset⟩
  · exact ⟨row, hsame, rfl⟩
  · exact ⟨_, hset, h.account_set hcalls hg.1 hsets v.now row⟩

/-- Revoking other sessions leaves one as it is. -/
theorem Db.get_revokeWhere_other {db : Db} {conditions : RefreshSession → Bool} {now : Time} {sid : Uuid}
    (hother : ∀ r, db.refreshSessions.get sid = some r → r.userId = userId → conditions r = false)
    {session : RefreshSession} (howner : session.userId = userId) :
    (db.revokeWhere conditions now).refreshSessions.get sid = some session ↔
      db.refreshSessions.get sid = some session := by
  rw [Db.get_revokeWhere, Option.map_eq_some_iff]
  constructor
  · intro h
    obtain ⟨r, hr, heq⟩ := h
    have huser : r.userId = userId := by
      rw [← howner, ← heq]
      split <;> rfl
    rw [hother r hr huser] at heq
    exact heq ▸ hr
  · intro h
    exact ⟨session, h, by simp [hother session h howner]⟩

/-- No session of the user's is touched, but that it may be purged. -/
def SameSessions (userId : Uuid) (now : Time) (db db' : Db) : Prop :=
  ∀ sid session, session.userId = userId →
    (db'.refreshSessions.get sid = some session → db.refreshSessions.get sid = some session) ∧
      (db.refreshSessions.get sid = some session → now < session.expiresAt →
        db'.refreshSessions.get sid = some session)

theorem SameSessions.of_iff {now : Time} {db db' : Db} (h : ∀ sid session, session.userId = userId →
    (db'.refreshSessions.get sid = some session ↔ db.refreshSessions.get sid = some session)) :
    SameSessions userId now db db' :=
  fun sid session howner => ⟨(h sid session howner).mp, fun hold _ => (h sid session howner).mpr hold⟩

theorem Outside.sessions (h : Outside cfg userId w req) (hcalls : Calls req op) (hs : Sane v)
    (hissued : ∀ p ∈ req.tokens, v.issued p = true)
    (hopens : ∀ user expiresAt, op = .createSession user expiresAt → user.id ≠ userId)
    (hg : Guarantee cfg op v v') : SameSessions userId v.now v.db v'.db := by
  obtain ⟨r, heff, -⟩ := hg.effect
  have hj := hg.1
  generalize v'.db = db' at heff
  have hrefl : SameSessions userId v.now v.db v.db := .of_iff fun _ _ _ => Iff.rfl
  cases heff with
  | same _ => exact hrefl
  | registered _ _ => exact hrefl
  | updated _ => exact hrefl
  | verified _ _ => exact hrefl
  | mailed _ _ _ => exact hrefl
  | purgedTokens => exact hrefl
  | purgedEvents => exact hrefl
  | dispatched => exact hrefl
  | @reset owner passwordHash token snapshot u revokedTokens _ _ =>
    cases req with
    | resetPassword token' newPassword =>
      obtain rfl : token = token' := hcalls
      refine .of_iff fun sid session howner => Db.get_revokeWhere_other ?_ howner
      intro row _ hrow
      have hne := h.tokens token (List.mem_singleton_self _)
      have howner : row.userId ≠ owner := by
        rw [hrow, hj.1]
        exact fun heq => hne heq.symm
      simp [howner]
    | _ => cases hcalls
  | @loggedOut owner tokens refreshSessionId =>
    cases req with
    | logout header cookie =>
      obtain rfl : owner = header.sub := hcalls
      have hne := h.tokens header List.mem_cons_self
      have hframe := (Db.addAll_frame tokens v.db).2.1
      cases refreshSessionId with
      | none =>
        refine .of_iff fun sid session _ => ?_
        rw [Db.logout, hframe]
      | some sessionId =>
        refine .of_iff fun sid session howner => ?_
        rw [Db.logout, Db.get_revokeWhere_other ?_ howner, hframe]
        intro row _ hrow
        simp [hrow, Ne.symm hne]
    | _ => cases hcalls
  | @closed owner tokens snapshot u _ =>
    cases req with
    | deleteUser header cookie =>
      obtain rfl : owner = header.sub := hcalls
      have hne := h.tokens header List.mem_cons_self
      refine .of_iff fun sid session howner => ?_
      rw [Db.closeAccount, Db.revokeAllForUser, Db.get_revokeWhere_other ?_ howner, (Db.addAll_frame tokens _).2.1]
      · rfl
      · intro row _ hrow
        simp [hrow, Ne.symm hne]
    | _ => cases hcalls
  | @opened user u expiresAt refreshSessions _ hinsert =>
    have hne := hopens user expiresAt rfl
    intro sid session howner
    simp only [Table.get_insert hinsert]
    split
    · next hid =>
      refine ⟨?_, ?_⟩
      · rintro ⟨⟩
        exact absurd howner hne
      · intro hold _
        have hfresh := Table.insert_fresh hinsert
        rw [hid, hold] at hfresh
        cases hfresh
    · exact ⟨id, fun hold _ => hold⟩
  | @rotated sessionId owner generation now row hrow hrot =>
    cases req with
    | refresh cookie =>
      obtain ⟨-, rfl⟩ := hcalls
      have hne := h.tokens cookie (List.mem_singleton_self _)
      have howns : row.userId = cookie.sub := by
        simp only [RefreshSession.rotatable, Bool.and_eq_true, decide_eq_true_eq] at hrot
        exact hrot.1.1.1
      intro sid session howner
      rw [Db.get_rotate hrow hrot]
      split
      · next hid =>
        refine ⟨?_, ?_⟩
        · rintro ⟨⟩
          exact absurd (howns.symm.trans howner) hne
        · intro hold _
          rw [hid, hrow] at hold
          cases hold
          exact absurd (howns.symm.trans howner) hne
      · exact ⟨id, fun hold _ => hold⟩
    | _ => cases hcalls
  | @revoked sessionId =>
    cases req with
    | refresh cookie =>
      -- the session the cookie names is the cookie's user's
      obtain ⟨gen, hsession⟩ := hcalls
      have hne := h.tokens cookie (List.mem_singleton_self _)
      have hsigned := hs.signed_of_session (hissued cookie (List.mem_singleton_self _)) (by rw [hsession]; rfl)
      refine .of_iff fun sid session howner => Db.get_revokeWhere_other ?_ howner
      intro row hrow huser
      have hid : row.id = sid := Table.get_key hrow
      simp only [decide_eq_false_iff_not]
      rintro rfl
      rw [hid] at hsession
      exact hne ((((hs.signed cookie hsigned).2 sid gen hsession).2 row hrow).1.symm.trans huser)
    | _ => cases hcalls
  | @purgedSessions now _ =>
    intro sid session howner
    simp only [Table.get_deleteWhere, Option.filter_eq_some_iff]
    refine ⟨fun hnew => hnew.1, ?_⟩
    intro hold hlater
    have hreading : now ≤ v.now := hj
    exact ⟨hold, by simp [Int.lt_of_le_of_lt hreading hlater]⟩

/-- No token of the user's is taken back. -/
theorem Outside.revoked (h : Outside cfg userId w req) (hown : RevokesOwn req op)
    (hissued : ∀ p ∈ req.tokens, v.issued p = true) (hdistinct : Set.InjOn TokenPayload.jti v.issuedTokens)
    (hg : Guarantee cfg op v v') {p : TokenPayload} (hp : v.issued p = true) (hsub : p.sub = userId)
    {entry : RevokedToken} (hentry : v'.db.revokedTokens.get p.jti = some entry) :
    v.db.revokedTokens.get p.jti = some entry := by
  obtain ⟨r, heff, -⟩ := hg.effect
  rcases heff.row_from hentry with hold | ⟨ref, href, rfl⟩
  · exact hold
  · obtain ⟨q, hq, rfl⟩ := hown ref href
    have hkey : (⟨q.ref.jti, q.ref.expiresAt⟩ : RevokedToken).jti = p.jti := Table.get_key hentry
    have hjti : q.jti = p.jti := hkey
    rw [hdistinct (hissued q hq) hp hjti] at hq
    exact absurd hsub (h.tokens p hq)

/-- The tokens of an answer are not for the user. -/
theorem Outside.tokens_answer (h : Outside cfg userId w req)
    (hopens : ∀ user expiresAt, op = .createSession user expiresAt → user.id ≠ userId) {r : op.Res} {user : User}
    {session : RefreshSession} (ha : Answers req (.ok (.tokens user session)) op r) : user.id ≠ userId := by
  cases ha with
  | login => exact hopens user _ rfl
  | @refresh cookie _ _ _ _ _ _ huser =>
    rw [huser]
    exact h.tokens cookie (List.mem_singleton_self _)
  | rest _ hout => exact absurd rfl ((hout _ rfl).2 user session)

/-- The step of a request: its operation, and its answer if that was the last. -/
def Moves (cfg : Config) (req : Request) (op : Op) (v v' : World) : Prop :=
  v' = (execOp cfg op v).2 ∨ ∃ out, v' = (execOp cfg op v).2.respond cfg req out ∧
    Answers req out op (execOp cfg op v).1 ∧ OwnAnswer req out v ∧ Fits cfg req out

/-- No token is signed for the user. -/
theorem Outside.signed (h : Outside cfg userId w req)
    (hopens : ∀ user expiresAt, op = .createSession user expiresAt → user.id ≠ userId)
    (hmoves : Moves cfg req op v v') {p : TokenPayload} (hp : p ∈ v'.signed) (hsub : p.sub = userId) :
    p ∈ v.signed := by
  have hexec := (execOp_frame cfg op v).2.1
  obtain rfl | ⟨out, rfl, ha, -⟩ := hmoves
  · rw [hexec] at hp
    exact hp
  · cases out with
    | error e => exact hexec ▸ hp
    | ok response =>
      cases response with
      | tokens user session =>
        have hne := h.tokens_answer hopens ha
        have hp' : p ∈ _ :: _ :: (execOp cfg op v).2.signed := hp
        rw [hexec] at hp'
        simp only [List.mem_cons] at hp'
        rcases hp' with rfl | rfl | hold
        · exact absurd hsub hne
        · exact absurd hsub hne
        · exact hold
      | _ => exact hexec ▸ hp

/-- No answer is about the user. -/
theorem Outside.answers (h : Outside cfg userId w req)
    (hopens : ∀ user expiresAt, op = .createSession user expiresAt → user.id ≠ userId) {row : User}
    (hrow : v.db.users.get userId = some row) (hmoves : Moves cfg req op v v') {x : Request × Except Err Response}
    (hx : x ∈ v'.responses) :
    x ∈ v.responses ∨ mentions userId x.2 = false ∨ x.1.administers cfg = true := by
  have hexec := (execOp_frame cfg op v).2.2
  obtain rfl | ⟨out, rfl, ha, hown, hfits⟩ := hmoves
  · exact .inl (hexec ▸ hx)
  · rw [((execOp cfg op v).2.respond_db cfg req out).2.2.2.1, hexec, List.mem_cons] at hx
    rcases hx with rfl | hold
    · right
      cases out with
      | error e => exact .inl rfl
      | ok response =>
        cases response with
        | tokens user session => exact .inl (decide_eq_false (h.tokens_answer hopens ha))
        | user user =>
          left
          apply decide_eq_false
          rintro rfl
          rcases hown user rfl with ⟨p, hp, hsub⟩ | hnew
          · exact h.tokens p hp hsub
          · rw [hrow] at hnew
            cases hnew
        | page items => exact .inr (hfits.2 items rfl)
        | _ => exact .inl rfl
    · exact .inl hold

/-- No token of the user's gets into Redis, but what the table has. -/
theorem Outside.redis (h : Outside cfg userId w req)
    (hsets : ∀ pipe token, op = .setJti pipe token → Settable v.tabled req token)
    (hissued : ∀ p ∈ req.tokens, v.issued p = true) (hdistinct : Set.InjOn TokenPayload.jti v.issuedTokens)
    (hg : Guarantee cfg op v v') {p : TokenPayload} (hp : v.issued p = true) (hsub : p.sub = userId)
    {token : TokenRef} (htoken : token ∈ v'.redis.jtis) (hjti : token.jti = p.jti) :
    token ∈ v.redis.jtis ∨ v.tabled token := by
  have hredis : v'.redis = (execOp cfg op v).2.redis := by
    obtain ⟨-, ⟨rfl, -⟩ | ⟨req, out, rfl, -⟩⟩ := hg
    · rfl
    · exact ((execOp cfg op v).2.respond_db cfg req out).2.2.1
  rw [hredis] at htoken
  cases op with
  | setJti pipe sent =>
    rcases v.send_setJti sent with hsame | hmore
    · exact .inl (hsame ▸ htoken)
    · have htoken : token ∈ sent :: v.redis.jtis := hmore ▸ htoken
      rcases List.mem_cons.mp htoken with rfl | hold
      · rcases hsets pipe token rfl with htabled | ⟨q, hq, rfl⟩
        · exact .inr htabled
        · rw [hdistinct (hissued q hq) hp hjti] at hq
          exact absurd hsub (h.tokens p hq)
      · exact .inl hold
  | _ =>
    left
    have hkept : ∀ {op : Op}, (∀ pipe token, op ≠ .setJti pipe token) →
        (execOp cfg op v).2.redis.jtis = v.redis.jtis := by
      intro op hne
      refine execOp_keeps cfg op v (F := Redis.jtis) ?_ (fun _ _ => rfl) (fun _ _ => rfl)
      exact fun pipe token heq => absurd heq (hne pipe token)
    rw [hkept (fun _ _ heq => by cases heq)] at htoken
    exact htoken

/-- A stranger's step leaves the account alone. -/
theorem LeftAlone.moves {row : User} (hv : LeftAlone cfg userId row w v) (h : Outside cfg userId w req)
    (hcalls : Calls req op) (hown : RevokesOwn req op) (hs : Sane v) (hissued : ∀ p ∈ req.tokens, v.issued p = true)
    (hdistinct : Set.InjOn TokenPayload.jti v.issuedTokens) (hwv : Evolves w v)
    (hsets : ∀ pipe token, op = .setJti pipe token → Settable v.tabled req token)
    (hopens : ∀ user expiresAt, op = .createSession user expiresAt → user.id ≠ userId)
    (hmoves : Moves cfg req op v v') (hg : Guarantee cfg op v v') : LeftAlone cfg userId row w v' := by
  obtain ⟨row', hrow', hsame⟩ := hv.account
  obtain ⟨row'', hrow'', hsame'⟩ := h.account hcalls hg hrow'
  have hlater := hg.evolves
  have hsessions := h.sessions hcalls hs hissued hopens hg
  refine ⟨⟨row'', hrow'', hsame'.trans hsame⟩, ?_, ?_, ?_, ?_, ?_, ?_⟩
  · intro db hdb
    rcases hg.versions with hversions | hversions
    · exact hv.versions db (hversions ▸ hdb)
    · rw [hversions, List.mem_cons] at hdb
      rcases hdb with rfl | hold
      · exact .inr ⟨row'', hrow'', hsame'.trans hsame⟩
      · exact hv.versions db hold
  · intro sid session howner
    obtain ⟨hold, hkept⟩ := hv.sessions sid session howner
    obtain ⟨hold', hkept'⟩ := hsessions sid session howner
    refine ⟨fun hnew => hold (hold' hnew), ?_⟩
    intro hthere hexp
    have hexp' : v.now < session.expiresAt := Int.lt_of_le_of_lt hlater.now hexp
    exact hkept' (hkept hthere hexp') hexp'
  · intro p hp hsub entry
    obtain ⟨hold, hkept⟩ := hv.revoked p hp hsub entry
    refine ⟨fun hnew => hold (h.revoked hown hissued hdistinct hg (hwv.issued hp) hsub hnew), ?_⟩
    intro hthere hexp
    exact hlater.db.tokens _ _ (hkept hthere (Int.lt_of_le_of_lt hlater.now hexp)) hexp
  · intro p hp hsub token htoken hjti hlive
    have hlive' : v.now < token.expiresAt := Int.lt_of_le_of_lt hlater.now hlive
    rcases h.redis hsets hissued hdistinct hg (hwv.issued hp) hsub htoken hjti with hold | hpast | hrow
    · exact hv.redis p hp hsub token hold hjti hlive'
    · exact absurd hlive' (Int.not_lt.mpr hpast)
    · rw [hjti] at hrow ⊢
      exact .inr ((hv.revoked p hp hsub _).1 hrow)
  · intro p hp hsub
    exact hv.signed p (h.signed hopens hmoves hp hsub) hsub
  · intro x hx
    rcases h.answers hopens hrow' hmoves hx with hold | hnone
    · exact hv.answers x hold
    · exact .inr hnone

end Step

/-! Runs. -/

/-- What holds in every state the service reaches. -/
structure Known (cfg : Config) (s : Service) : Prop where
  served : Served.Pool cfg s
  current : s.state.db ∈ s.state.versions
  logins : LoginsChecked cfg s
  issued : RequestsIssued s

section Runs
variable {cfg : Config} {now : Time} {s s' t : Service}

theorem Known.step {a : Action Request Event} (h : Known cfg s) (ha : (service cfg).step s a = some s') :
    Known cfg s' := by
  refine ⟨(service_sound cfg (fun _ _ => True)).step h.served trivial ha, ?_,
    loginsChecked_step h.served h.current ha h.logins, h.issued.step h.served ha⟩
  rcases step_world h.served ha with ⟨-, -, hstate⟩ | ⟨i, op, rfl, hw, hg⟩ | ⟨e, rfl, he⟩
  · rw [hstate]
    exact h.current
  · exact current_of_guarantee hg h.current
  · rw [(World.event_frame he).1, (World.event_versions he).1]
    exact h.current

/-- A session that is opened while the account is left alone is not the user's: the
password was checked against a row that has the hash the user had. -/
theorem Outside.opens {userId : Uuid} {row : User} {w : World} (hknown : Known cfg s)
    (hcurrent : w.db ∈ w.versions) (hrow : w.db.users.get userId = some row)
    (hv : LeftAlone cfg userId row w s.state) {i : Nat} {th : Thread Op Op.Res Err Response Request}
    (hth : s.threads[i]? = some th) (hout : Outside cfg userId w th.req) {op : Op} (hop : th.code.next = some op)
    (hcalls : Calls th.req op) : ∀ user expiresAt, op = .createSession user expiresAt → user.id ≠ userId := by
  rintro user expiresAt rfl huser
  obtain ⟨req, code, live⟩ := th
  cases req with
  | login email password =>
    cases code with
    | ret a => cases hop
    | raise e => cases hop
    | call op k =>
      cases hop
      rcases hknown.logins _ (List.mem_of_getElem? hth) email password rfl with hstart | huses
      · cases hstart
      · obtain ⟨hfits, db, hdb, hread⟩ := huses.1 user expiresAt rfl
        rw [huser] at hread
        rcases hv.versions db hdb with hold | ⟨row', hrow', hsame⟩
        · rw [hout.password email password rfl db hold user hread] at hfits
          cases hfits
        · rw [hread] at hrow'
          cases hrow'
          have hhash : user.account.passwordHash = row.account.passwordHash := congrArg User.passwordHash hsame
          have hhash : user.passwordHash = row.passwordHash := hhash
          rw [hhash, hout.password email password rfl w.db hcurrent row hrow] at hfits
          cases hfits
  | _ => cases hcalls

theorem LeftAlone.refl {userId : Uuid} {row : User} {w : World} (hrow : w.db.users.get userId = some row) :
    LeftAlone cfg userId row w w :=
  ⟨⟨row, hrow, rfl⟩, fun _ hdb => .inl hdb, fun _ _ _ => ⟨id, fun h _ => h⟩, fun _ _ _ _ => ⟨id, fun h _ => h⟩,
    fun _ _ _ _ htoken _ _ => .inl htoken, fun _ hp _ => hp, fun _ hx => .inl hx⟩

/-- Redis gets its keys from requests. -/
theorem World.event_jtis {e : Event} {w w' : World} (h : w.event e = some w') {token : TokenRef}
    (htoken : token ∈ w'.redis.jtis) : token ∈ w.redis.jtis := by
  cases e with
  | replicate version =>
    simp only [event, Option.map_eq_some_iff] at h
    obtain ⟨replica, _, rfl⟩ := h
    exact htoken
  | loseKeys => cases h; cases htoken
  | _ => cases h; exact htoken

/-- What happens around the requests leaves the account alone. -/
theorem LeftAlone.event {userId : Uuid} {row : User} {w v v' : World} (hv : LeftAlone cfg userId row w v) {e : Event}
    (he : v.event e = some v') : LeftAlone cfg userId row w v' := by
  obtain ⟨hdb, -, hsigned, hresponses, hnow⟩ := World.event_frame he
  refine ⟨hdb ▸ hv.account, ?_, ?_, ?_, ?_, ?_, ?_⟩
  · rw [(World.event_versions he).1]
    exact hv.versions
  · intro sid session howner
    rw [hdb]
    obtain ⟨hold, hkept⟩ := hv.sessions sid session howner
    exact ⟨hold, fun hthere hexp => hkept hthere (Int.lt_of_le_of_lt hnow hexp)⟩
  · intro p hp hsub entry
    rw [hdb]
    obtain ⟨hold, hkept⟩ := hv.revoked p hp hsub entry
    exact ⟨hold, fun hthere hexp => hkept hthere (Int.lt_of_le_of_lt hnow hexp)⟩
  · intro p hp hsub token htoken hjti hlive
    exact hv.redis p hp hsub token (World.event_jtis he htoken) hjti (Int.lt_of_le_of_lt hnow hlive)
  · rw [hsigned]
    exact hv.signed
  · rw [hresponses]
    exact hv.answers

end Runs

end FastiKit
