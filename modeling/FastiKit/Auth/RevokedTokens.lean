import FastiKit.Interleave.Remainder
import FastiKit.Auth.IssuedTokens

/- Which tokens are taken back. What a request revokes in the table it carries
   (`serve_revokes`). What it SETs in Redis it carries too, or copies from the table: a
   seeding SETs only what it has listed, and a row that was listed is in the table until
   its token has expired (`sets_tabled`). -/
namespace FastiKit

open Interleave Relational

/-! The table. -/

/-- The request carries what the operation revokes. -/
def RevokesOwn (req : Request) (op : Op) : Prop := ∀ ref ∈ op.revokes, ∃ p ∈ req.tokens, p.ref = ref

theorem Quiet.revokesOwn {op : Op} (h : Quiet op) (req : Request) : RevokesOwn req op := by
  intro ref href
  cases op with
  | verifyEmail | resetPassword | logout | closeAccount => cases h
  | _ => cases href

/-- A link that is used was the request's; what else revokes tokens ends a session. -/
theorem Calls.revokesOwn {req : Request} {op : Op} (h : Calls req op)
    (hlogout : ∀ userId tokens refreshSessionId, op ≠ .logout userId tokens refreshSessionId)
    (hclose : ∀ userId tokens snapshot, op ≠ .closeAccount userId tokens snapshot) : RevokesOwn req op := by
  intro ref href
  cases op with
  | verifyEmail userId token =>
    cases req with
    | verifyEmail token' =>
      obtain rfl := h
      exact ⟨token, List.mem_singleton_self _, (List.mem_singleton.mp href).symm⟩
    | _ => cases h
  | resetPassword userId passwordHash token snapshot =>
    cases req with
    | resetPassword token' newPassword =>
      obtain rfl := h
      exact ⟨token, List.mem_singleton_self _, (List.mem_singleton.mp href).symm⟩
    | _ => cases h
  | logout userId tokens refreshSessionId => exact absurd rfl (hlogout userId tokens refreshSessionId)
  | closeAccount userId tokens snapshot => exact absurd rfl (hclose userId tokens snapshot)
  | _ => cases href

theorem serve_revokes (cfg : Config) (req : Request) : (serve cfg req).Uses (RevokesOwn req) (fun _ => True) := by
  -- a request that ends in a transaction with the tokens of its session
  have hsession : ∀ (header : TokenPayload) (cookie : Option TokenPayload) (req : Request)
      (f : AuthSession → Api Response), req.tokens = header :: cookie.toList →
      (∀ session : AuthSession, (∀ t ∈ session.tokens, ∃ p ∈ req.tokens, p.ref = t) →
        (f session).Uses (RevokesOwn req) (fun _ => True)) →
      (getAuthSession header cookie >>= f).Uses (RevokesOwn req) (fun _ => True) := by
    intro header cookie req f htokens hf
    rw [Prog.uses_bind]
    refine (getAuthSession_uses header cookie).mono (fun _ hq => hq.revokesOwn req) ?_
    intro out hout
    cases out with
    | error e => trivial
    | ok session =>
      apply hf
      rw [htokens]
      exact (hout session rfl).2
  cases req with
  | logout header cookie =>
    refine hsession header cookie _ _ rfl ?_
    intro session hown
    rw [AuthService.logout, bind_assoc, Prog.uses_bind]
    refine (revoke_uses false session.tokens).mono (fun _ hq => hq.revokesOwn _) ?_
    intro out _
    cases out with
    | error e => trivial
    | ok _ =>
      refine ⟨hown, ?_⟩
      intro r
      cases r <;> trivial
  | deleteUser header cookie =>
    refine hsession header cookie _ _ rfl ?_
    intro session hown
    rw [AuthService.closeAccount, bind_assoc, Prog.uses_bind]
    refine (revoke_uses false session.tokens).mono (fun _ hq => hq.revokesOwn _) ?_
    intro out _
    cases out with
    | error e => trivial
    | ok _ =>
      refine ⟨fun ref href => (by cases href), ?_⟩
      intro snapshot
      refine ⟨hown, ?_⟩
      intro r
      rcases r with e | _ | user <;> trivial
  | _ =>
    refine (serve_calls cfg _).mono ?_ (fun _ h => h)
    intro op hop
    apply hop.revokesOwn
    · rintro _ _ _ rfl
      cases hop
    · rintro _ _ _ rfl
      cases hop

/-! Redis. -/

/-- The row is in the table, or needed no more. -/
def World.tabled (w : World) (token : TokenRef) : Prop :=
  token.expiresAt ≤ w.now ∨ w.db.revokedTokens.get token.jti = some ⟨token.jti, token.expiresAt⟩

theorem World.tabled_evolves {w v : World} (h : Evolves w v) {token : TokenRef} (ht : w.tabled token) :
    v.tabled token := by
  rcases ht with hpast | hrow
  · exact .inl (Int.le_trans hpast h.now)
  · rcases Int.lt_or_le v.now token.expiresAt with hlive | hpast
    · exact .inr (h.db.tokens _ _ hrow hlive)
    · exact .inl hpast

/-- What is listed is in the table. -/
theorem tabled_of_listActive {w : World} {reading : Time} {token : TokenRef}
    (h : token ∈ RevokedTokenRepository.listActive w.db reading) : w.tabled token := by
  obtain ⟨row, hrow, rfl⟩ := List.mem_map.mp h
  exact .inr (Table.get_of_mem (List.mem_filter.mp hrow).1)

/-- What is listed is known. -/
def Lists (known : TokenRef → Prop) : (op : Op) → op.Res → Prop
  | .listActive _, tokens => ∀ token ∈ tokens, known token
  | _, _ => True

/-- A token that is known, or one that the request carries. -/
def Settable (known : TokenRef → Prop) (req : Request) (token : TokenRef) : Prop :=
  known token ∨ ∃ p ∈ req.tokens, p.ref = token

/-- A SET is of such a token. -/
def SetsOnly (known : TokenRef → Prop) (req : Request) : Op → Prop
  | .setJti _ token => Settable known req token
  | _ => True

section Programs
variable {α β : Type} {known : TokenRef → Prop} {req : Request}

theorem only_free {op : Op} {k : op.Res → Api α} (hop : SetsOnly known req op)
    (hk : ∀ r, (k r).Only (Lists known) (SetsOnly known req)) :
    (Prog.call op k : Api α).Only (Lists known) (SetsOnly known req) :=
  ⟨hop, fun r _ => hk r⟩

theorem only_check {p : Api β} {f : β → Api α} (hp : p.Only (Lists known) (SetsOnly known req))
    (hf : ∀ a, (f a).Only (Lists known) (SetsOnly known req)) :
    (p >>= f).Only (Lists known) (SetsOnly known req) :=
  hp.bind (Prog.uses_any p) (fun a _ => hf a)

theorem only_execute (seeding : Bool) {tokens : List TokenRef} (h : ∀ token ∈ tokens, Settable known req token) :
    ∀ (failed : Bool) (sent : List TokenRef),
      (TokenBlocklist.execute seeding failed sent tokens).Only (Lists known) (SetsOnly known req) := by
  induction tokens with
  | nil => exact fun _ _ => trivial
  | cons token rest ih =>
    intro failed sent
    refine ⟨h token List.mem_cons_self, ?_⟩
    intro acknowledged _
    exact ih (fun t ht => h t (List.mem_cons_of_mem _ ht)) _ _

theorem only_revoke (seeding : Bool) {tokens : List TokenRef} (h : ∀ token ∈ tokens, Settable known req token) :
    (TokenBlocklist.revoke seeding tokens).Only (Lists known) (SetsOnly known req) := by
  simp only [TokenBlocklist.revoke, api, Prog.perform_bind]
  refine only_free trivial fun now => ?_
  apply only_check (only_execute seeding (fun t ht => h t (List.mem_filter.mp ht).1) false [])
  intro acknowledged
  cases acknowledged <;> trivial

theorem only_seed {tokens : List TokenRef} (h : ∀ token ∈ tokens, known token) :
    (TokenBlocklist.seed tokens).Only (Lists known) (SetsOnly known req) := by
  apply Prog.Only.tryCatch
  · apply only_check (only_revoke true (fun t ht => .inl (h t ht)))
    intro _
    refine only_free trivial fun acknowledged => ?_
    cases acknowledged <;> trivial
  · intro e
    cases e <;> trivial

theorem only_isTokenRevoked (token : TokenPayload) :
    (isTokenRevoked token).Only (Lists known) (SetsOnly known req) := by
  refine only_free trivial fun now => ?_
  show Prog.Only _ _ (ite _ _ _)
  split
  · trivial
  · -- without Redis' answer
    have hfallback : (do
        let revoked : Bool ← api (.tokenExists token.jti (← FastiKit.now))
        if ← TokenBlocklist.claimSeeding then
          let active : List TokenRef ← api (.listActive (← FastiKit.now))
          TokenBlocklist.seed active
        return revoked : Api Bool).Only (Lists known) (SetsOnly known req) := by
      refine only_free trivial fun now => only_free trivial fun revoked => only_free trivial fun claimed => ?_
      rcases claimed with _ | _ | _
      · trivial
      · trivial
      · refine only_free trivial fun now => ⟨trivial, fun active hlisted => ?_⟩
        show Prog.Only _ _ (TokenBlocklist.seed active >>= fun _ => return revoked)
        exact only_check (only_seed hlisted) (fun _ => trivial)
    refine only_free trivial fun r => ?_
    rcases r with _ | ⟨revoked, _ | _⟩
    · exact hfallback
    · exact hfallback
    · trivial

theorem only_tokenRequired (type : TokenType) (token : TokenPayload) :
    (tokenRequired type token).Only (Lists known) (SetsOnly known req) := by
  apply only_check (only_isTokenRevoked token)
  intro revoked
  cases revoked with
  | true => trivial
  | false =>
    refine only_free trivial fun now => ?_
    show Prog.Only _ _ (ite _ _ _)
    split
    · trivial
    · show Prog.Only _ _ (ite _ _ _)
      split <;> trivial

theorem only_getAuthSession (header : TokenPayload) (cookie : Option TokenPayload) :
    (getAuthSession header cookie).Only (Lists known) (SetsOnly known req) := by
  apply only_check (only_tokenRequired .access header)
  intro payload
  cases cookie with
  | none => trivial
  | some refreshToken =>
    refine only_free trivial fun now => ?_
    show Prog.Only _ _ (ite _ _ _)
    split <;> trivial

theorem only_decode (token : TokenPayload) (type : TokenType) (invalid wrongType used : String) :
    (AuthService.decode token type invalid wrongType used).Only (Lists known) (SetsOnly known req) := by
  refine only_free trivial fun now => ?_
  show Prog.Only _ _ (ite _ _ _)
  split
  · trivial
  · show Prog.Only _ _ (ite _ _ _)
    split
    · trivial
    · refine only_free trivial fun now => only_free trivial fun exists_ => ?_
      show Prog.Only _ _ (ite _ _ _)
      split <;> trivial

theorem only_refresh (cfg : Config) (userId sessionId : Uuid) (generation : Nat) :
    (AuthService.refresh cfg userId sessionId generation).Only (Lists known) (SetsOnly known req) := by
  refine only_free trivial fun user => ?_
  cases user with
  | none => trivial
  | some user =>
    show Prog.Only _ _ (ite _ _ _)
    split
    · trivial
    · refine only_free trivial fun now => only_free trivial fun rotated => ?_
      rcases rotated with e | _ | session
      · trivial
      · refine only_free trivial fun current => ?_
        cases current with
        | none => trivial
        | some current =>
          refine only_free trivial fun now => ?_
          show Prog.Only _ _ (ite _ _ _)
          split
          · trivial
          · refine only_free trivial fun now => ?_
            show Prog.Only _ _ (ite _ _ _)
            split
            · trivial
            · refine only_free trivial fun revoked => ?_
              cases revoked <;> trivial
      · trivial

theorem only_orInvalidToken (detail : String) {p : Api Unit} (h : p.Only (Lists known) (SetsOnly known req)) :
    (AuthService.orInvalidToken detail p).Only (Lists known) (SetsOnly known req) := by
  apply h.tryCatch
  intro e
  cases e with
  | domain e => cases e <;> trivial
  | _ => trivial

/-- A check of a link, its user, and one transaction. -/
theorem only_link {payload : TokenPayload} {f : User → Api Unit}
    (hf : ∀ user, (f user).Only (Lists known) (SetsOnly known req)) :
    (AuthService.userForToken payload >>= f).Only (Lists known) (SetsOnly known req) := by
  refine only_free trivial fun user => ?_
  cases user with
  | none => trivial
  | some user => exact hf user

theorem only_verifyEmail (token : TokenPayload) :
    (AuthService.verifyEmail token).Only (Lists known) (SetsOnly known req) := by
  apply only_check (only_decode _ _ _ _ _)
  intro payload
  apply only_link
  intro user
  show Prog.Only _ _ (ite _ _ _)
  split
  · trivial
  · apply only_orInvalidToken
    refine only_free trivial fun r => ?_
    cases r <;> trivial

theorem only_resetPassword (cfg : Config) (token : TokenPayload) (newPassword : String) :
    (AuthService.resetPassword cfg token newPassword).Only (Lists known) (SetsOnly known req) := by
  apply only_check (only_decode _ _ _ _ _)
  intro payload
  apply only_link
  intro user
  show Prog.Only _ _ (ite _ _ _)
  split
  · trivial
  · show Prog.Only _ _ (ite _ _ _)
    split
    · trivial
    · apply only_orInvalidToken
      refine only_free trivial fun salt => only_free trivial fun snapshot => only_free trivial fun r => ?_
      cases r <;> trivial

/-- A logout or a closure: the check, and its own tokens. -/
theorem only_session {header : TokenPayload} {cookie : Option TokenPayload} (hreq : req.tokens = header :: cookie.toList)
    {f : AuthSession → Api Response} (hf : ∀ session : AuthSession,
      (∀ token ∈ session.tokens, Settable known req token) →
        (f session).Only (Lists known) (SetsOnly known req)) :
    (getAuthSession header cookie >>= f).Only (Lists known) (SetsOnly known req) := by
  apply (only_getAuthSession header cookie).bind ((getAuthSession_uses header cookie).mono (fun _ _ => trivial)
    (fun _ hout => hout))
  intro session hsession
  apply hf
  intro token htoken
  right
  rw [hreq]
  exact (hsession session rfl).2 token htoken

/-- Of every request. -/
theorem serve_sets (cfg : Config) (known : TokenRef → Prop) (req : Request) :
    (serve cfg req).Only (Lists known) (SetsOnly known req) := by
  cases req with
  | createUser data =>
    refine only_free trivial fun userId => only_free trivial fun now => only_free trivial fun jti =>
      only_free trivial fun salt => only_free trivial fun r => ?_
    cases r <;> trivial
  | login email password =>
    refine only_free trivial fun user => ?_
    cases user with
    | none => trivial
    | some user =>
      show Prog.Only _ _ (Prog.bind (Prog.bind (ite _ _ _) _) _)
      split
      · trivial
      · refine only_free trivial fun now => only_free trivial fun r => ?_
        cases r <;> trivial
  | refresh cookie =>
    apply only_check (only_tokenRequired .refresh cookie)
    intro payload
    cases refreshSessionClaims payload with
    | none => trivial
    | some claims => exact only_check (only_refresh cfg _ _ _) (fun _ => trivial)
  | logout header cookie =>
    apply only_session rfl
    intro session hown
    rw [AuthService.logout, bind_assoc]
    apply only_check (only_revoke false hown)
    intro _
    refine only_free trivial fun r => ?_
    cases r <;> trivial
  | deleteUser header cookie =>
    apply only_session rfl
    intro session hown
    rw [AuthService.closeAccount, bind_assoc]
    apply only_check (only_revoke false hown)
    intro _
    refine only_free trivial fun snapshot => only_free trivial fun r => ?_
    rcases r with e | _ | user <;> trivial
  | updateUser header data =>
    apply only_check (only_tokenRequired .access header)
    intro payload
    refine only_check ?_ (fun _ => trivial)
    rw [UserService.update]
    rcases data.password with _ | _ | password
    · refine only_free trivial fun r => ?_
      rcases r with e | _ | user <;> trivial
    · refine only_free trivial fun r => ?_
      rcases r with e | _ | user <;> trivial
    · refine only_free trivial fun salt => only_free trivial fun r => ?_
      rcases r with e | _ | user <;> trivial
  | getUser header =>
    refine only_check (only_check (only_tokenRequired .access header) ?_) (fun _ => trivial)
    intro payload
    refine only_free trivial fun user => ?_
    cases user with
    | none => trivial
    | some user =>
      show Prog.Only _ _ (ite _ _ _)
      split <;> trivial
  | listUsers header params =>
    refine only_check (only_check (only_tokenRequired .access header) ?_)
      (fun _ => only_free trivial fun items => trivial)
    intro payload
    cases hscopes : cfg.hasScopes payload.scopes ["admin:read"] with
    | false => simp only [Bool.not_false, if_true]; trivial
    | true => simp only [Bool.not_true, Bool.false_eq_true, if_false]; trivial
  | verifyEmail token => exact only_check (only_verifyEmail token) (fun _ => trivial)
  | resendVerification email | forgotPassword email =>
    refine only_free trivial fun user => ?_
    cases user with
    | none => trivial
    | some user =>
      show Prog.Only _ _ (Prog.bind (ite _ _ _) _)
      split
      · trivial
      · refine only_free trivial fun now => only_free trivial fun jti => only_free trivial fun r => ?_
        cases r <;> trivial
  | resetPassword token newPassword => exact only_check (only_resetPassword cfg token newPassword) (fun _ => trivial)
  | isTokenRevoked token => exact only_check (only_isTokenRevoked token) (fun _ => trivial)
  | cleanupRevokedTokens | cleanupRefreshSessions | cleanupOutbox =>
    refine only_free trivial fun now => only_free trivial fun r => ?_
    cases r <;> trivial
  | dispatchPending ids =>
    refine only_free trivial fun r => ?_
    cases r <;> trivial

end Programs

/-! Runs. -/

section Runs
variable {cfg : Config} {now : Time} {s s' : Service}

/-- Whatever is known, if what the table says is, a request SETs nothing else. -/
def Copies (s : Service) : Prop :=
  ∀ known : TokenRef → Prop, (∀ token, s.state.tabled token → known token) →
    ∀ th ∈ s.threads, th.code.Only (Lists known) (SetsOnly known th.req)

theorem Copies.step {a : Action Request Event} (h : Copies s) (hs : Served.Pool cfg s)
    (ha : (service cfg).step s a = some s') : Copies s' := by
  have hev : Evolves s.state s'.state := steps_evolves (C := fun _ _ => True) (.single ⟨a, trivial, ha⟩) hs
  intro known hknown
  -- what was in the table is known too
  have hwas : ∀ token, s.state.tabled token → known token := fun token ht => hknown token (World.tabled_evolves hev ht)
  apply step_only (serve_sets cfg known) ha _ (h known hwas)
  intro i op _ _
  cases op with
  | listActive reading => exact fun token ht => hwas token (tabled_of_listActive ht)
  | _ => trivial

/-- What a request SETs it carries, or it is in the table or needed no more. -/
theorem sets_tabled (h : Reaches cfg (System.start (World.init now)) s) {i : Nat} {pipe : Pipeline} {token : TokenRef}
    {th : Thread Op Op.Res Err Response Request} (hth : s.threads[i]? = some th)
    (hnext : th.code.next = some (.setJti pipe token)) : Settable s.state.tabled th.req token := by
  have key : Served.Pool cfg s ∧ Copies s := by
    refine h.invariant (J := fun v => Served.Pool cfg v ∧ Copies v) ?_ ⟨served_start now, ?_⟩
    · intro v a v' hv _ ha
      exact ⟨(service_sound cfg (fun _ _ => True)).step hv.1 trivial ha, hv.2.step hv.1 ha⟩
    · intro known _ th hth
      cases hth
  have honly := key.2 s.state.tabled (fun _ ht => ht) th (List.mem_of_getElem? hth)
  obtain ⟨req, code, live⟩ := th
  cases code with
  | ret a => cases hnext
  | raise e => cases hnext
  | call op k =>
    cases hnext
    exact honly.1

end Runs

end FastiKit
