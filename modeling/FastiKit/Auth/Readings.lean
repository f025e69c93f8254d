import FastiKit.Auth.IssuedTokens

/- What a request does with the clock. It takes a reading in one step and uses it in a
   later one; a token it lets through was good at some reading. `Unhurried cutoff` says
   that a program which is started after `cutoff` uses no reading of before it, and no
   token that had expired by then, in any transaction or query. That holds of every
   request but the two cleanup tasks (`unhurried_serve`): each decodes the token it is
   given before it uses it. The session row of a refresh is the one thing that is looked
   up whether or not it has expired (`Tolerates`). -/
namespace FastiKit

open Interleave

/-- The requests of the scheduler that delete expired rows. -/
def Request.purges : Request → Bool
  | .cleanupRevokedTokens | .cleanupRefreshSessions => true
  | _ => false

/-! What a request does with time. -/

section Programs
variable {α β : Type} {cutoff : Time}

/-- The operation uses no reading of the clock before `cutoff` and no token that had
expired by then. -/
def Op.Fits (cutoff : Time) : Op → Prop
  | .tokenExists _ now => cutoff ≤ now
  | .listActive now => cutoff ≤ now
  | .verifyEmail _ token => cutoff < token.expiryDatetime
  | .resetPassword _ _ token _ => cutoff < token.expiryDatetime
  | .logout _ tokens _ => ∀ t ∈ tokens, cutoff < t.expiresAt
  | .closeAccount _ tokens _ => ∀ t ∈ tokens, cutoff < t.expiresAt
  | .rotate _ _ _ now => cutoff ≤ now
  | .purgeSessions _ => False
  | .purgeTokens _ => False
  | _ => True

/-- The answers that can come: the clock is past `cutoff`. -/
def Op.Reads (cutoff : Time) : (op : Op) → op.Res → Prop
  | .clock, now => cutoff ≤ now
  | _, _ => True

/-- An expired session is turned away like a missing one, after a reading of the clock. -/
def Tolerates (cutoff : Time) : (op : Op) → (op.Res → Api α) → Prop
  | .getSession _, k => ∀ r : RefreshSession, r.expiresAt ≤ cutoff → ∃ e kk,
    k none = .raise e ∧ k (some r) = .call .clock kk ∧ ∀ now : Time, cutoff ≤ now → kk now = .raise e
  | _, _ => True

/-- Started after `cutoff`, the program uses no older reading; it returns what
satisfies `L`. -/
def Unhurried (cutoff : Time) (L : α → Prop) : Api α → Prop
  | .ret a => L a
  | .raise _ => True
  | .call op k => op.Fits cutoff ∧ Tolerates cutoff op k ∧ ∀ r, op.Reads cutoff r → Unhurried cutoff L (k r)

theorem Tolerates.bind {op : Op} {k : op.Res → Api α} (h : Tolerates cutoff op k) (f : α → Api β) :
    Tolerates cutoff op (fun r => k r >>= f) := by
  cases op <;> try trivial
  intro r hr
  obtain ⟨e, kk, hnone, hsome, hkk⟩ := h r hr
  refine ⟨e, fun now => kk now >>= f, ?_, ?_, ?_⟩
  · simp only [hnone, Prog.raise_bind]
  · simp only [hsome, Prog.call_bind]
  · intro now hnow
    simp only [hkk now hnow, Prog.raise_bind]

theorem Unhurried.bind {L : α → Prop} {M : β → Prop} {p : Api α} {f : α → Api β} (hp : Unhurried cutoff L p)
    (hf : ∀ a, L a → Unhurried cutoff M (f a)) : Unhurried cutoff M (p >>= f) := by
  induction p with
  | ret a => exact hf a hp
  | raise e => trivial
  | call op k ih => exact ⟨hp.1, hp.2.1.bind f, fun r hr => ih r (hp.2.2 r hr)⟩

/-- What follows needs nothing of the answer. -/
theorem Unhurried.before {M : β → Prop} {p : Api α} {f : α → Api β} (hp : Unhurried cutoff (fun _ => True) p)
    (hf : ∀ a, Unhurried cutoff M (f a)) : Unhurried cutoff M (p >>= f) := hp.bind fun a _ => hf a

/-- Operations that have nothing to do with time. -/
def Op.timeless : Op → Bool
  | .revokeClock _ _ | .uuid4 | .gensalt | .getUser _ _ | .getUserByEmail _ _ | .setJti _ _ | .mget _
  | .setSeeding | .setReady => true
  | _ => false

theorem unhurried_of_timeless {L : Except Err α → Prop} {p : Api α}
    (h : p.Uses (fun op => op.timeless = true) L) : Unhurried cutoff (fun _ => True) p := by
  induction p with
  | ret a => trivial
  | raise e => trivial
  | call op k ih =>
    refine ⟨?_, ?_, fun r _ => ih r (h.2 r)⟩
    · cases op <;> first | trivial | cases h.1
    · cases op <;> first | trivial | cases h.1

/-- An operation whose answer ends the program. -/
theorem unhurried_last {op : Op} {k : op.Res → Api α} {M : α → Prop} (hop : op.Fits cutoff)
    (hne : ∀ sid, op ≠ .getSession sid) (hk : ∀ r, Unhurried cutoff M (k r)) :
    Unhurried cutoff M (.call op k) := by
  refine ⟨hop, ?_, fun r _ => hk r⟩
  cases op <;> first | trivial | exact absurd rfl (hne _)

theorem unhurried_clock {k : Time → Api α} {M : α → Prop} (h : ∀ now, cutoff ≤ now → Unhurried cutoff M (k now)) :
    Unhurried cutoff M (.call .clock k) := ⟨trivial, trivial, h⟩

theorem execute_timeless (seeding : Bool) (tokens : List TokenRef) : ∀ failed sent,
    (TokenBlocklist.execute seeding failed sent tokens).Uses (fun op => op.timeless = true)
      (fun out => ∃ b, out = .ok b) := by
  induction tokens with
  | nil => exact fun failed sent => ⟨_, rfl⟩
  | cons token rest ih => exact fun failed sent => ⟨rfl, fun acknowledged => ih _ _⟩

theorem revoke_timeless (seeding : Bool) (tokens : List TokenRef) :
    (TokenBlocklist.revoke seeding tokens).Uses (fun op => op.timeless = true) (fun _ => True) := by
  simp only [TokenBlocklist.revoke, api, Prog.perform_bind, Prog.uses_call]
  refine ⟨rfl, fun now => ?_⟩
  rw [Prog.uses_bind]
  refine (execute_timeless seeding _ false []).mono (fun _ h => h) ?_
  intro out hout
  obtain ⟨acknowledged, rfl⟩ := hout
  cases acknowledged <;> trivial

theorem seed_timeless (tokens : List TokenRef) :
    (TokenBlocklist.seed tokens).Uses (fun op => op.timeless = true) (fun _ => True) := by
  rw [TokenBlocklist.seed, Prog.uses_tryCatch, Prog.uses_bind]
  refine (revoke_timeless true tokens).mono (fun _ h => h) ?_
  intro out _
  cases out with
  | error e => cases e <;> trivial
  | ok a =>
    refine ⟨rfl, ?_⟩
    intro acknowledged
    cases acknowledged <;> trivial

theorem claimSeeding_timeless :
    TokenBlocklist.claimSeeding.Uses (fun op => op.timeless = true) (fun _ => True) := by
  refine ⟨rfl, ?_⟩
  intro r
  rcases r with _ | claimed <;> trivial

theorem lookup_timeless (jti : Uuid) :
    (TokenBlocklist.lookup jti).Uses (fun op => op.timeless = true) (fun _ => True) := by
  refine ⟨rfl, ?_⟩
  intro r
  rcases r with _ | ⟨revoked, ready⟩
  · trivial
  · cases ready <;> trivial

/-- What is decoded has not expired by `cutoff`. -/
theorem jwtDecode_later {token : TokenPayload} {now : Time} (hnow : cutoff ≤ now) (h : jwtDecode token now = true) :
    cutoff < token.expiryDatetime :=
  lt_of_le_of_lt hnow (of_decide_eq_true h)

theorem unhurried_isTokenRevoked (token : TokenPayload) :
    Unhurried cutoff (fun _ => cutoff < token.expiryDatetime) (isTokenRevoked token) := by
  simp only [isTokenRevoked, now, api, Prog.perform_bind]
  apply unhurried_clock
  intro now hnow
  split
  · trivial
  · next hdecode =>
    have hlater := jwtDecode_later hnow (by simpa using hdecode)
    apply Unhurried.before (unhurried_of_timeless (lookup_timeless token.jti))
    intro cached
    cases cached with
    | some cached => exact hlater
    | none =>
      apply unhurried_clock
      intro now hnow
      refine unhurried_last hnow (fun _ h => by cases h) fun revoked => ?_
      apply Unhurried.before (unhurried_of_timeless claimSeeding_timeless)
      intro claimed
      cases claimed with
      | false => exact hlater
      | true =>
        -- this request fills the blocklist from the rows that still count
        apply unhurried_clock
        intro now hnow
        refine unhurried_last hnow (fun _ h => by cases h) fun active => ?_
        exact Unhurried.before (unhurried_of_timeless (seed_timeless active)) fun _ => hlater

theorem unhurried_tokenRequired (type : TokenType) (token : TokenPayload) :
    Unhurried cutoff (fun payload => payload = token ∧ cutoff < token.expiryDatetime)
      (tokenRequired type token) := by
  refine Unhurried.bind (unhurried_isTokenRevoked token) ?_
  intro revoked hlater
  cases revoked with
  | true => trivial
  | false =>
    refine unhurried_clock fun now _ => ?_
    show Unhurried _ _ (ite (_ = true) _ _)
    split
    · trivial
    · show Unhurried _ _ (ite _ _ _)
      split
      · exact ⟨rfl, hlater⟩
      · trivial

theorem unhurried_getAuthSession (header : TokenPayload) (cookie : Option TokenPayload) :
    Unhurried cutoff (fun session => ∀ t ∈ session.tokens, cutoff < t.expiresAt) (getAuthSession header cookie) := by
  refine Unhurried.bind (unhurried_tokenRequired .access header) ?_
  rintro payload ⟨rfl, hlater⟩
  cases cookie with
  | none =>
    intro t ht
    rw [List.mem_singleton.mp ht]
    exact hlater
  | some refreshToken =>
    refine unhurried_clock fun now hnow => ?_
    show Unhurried _ _ (ite _ _ _)
    split
    · next hdecode =>
      intro t ht
      rcases List.mem_cons.mp ht with rfl | hrest
      · exact hlater
      · rw [List.mem_singleton.mp hrest]
        exact jwtDecode_later hnow hdecode
    · intro t ht
      rw [List.mem_singleton.mp ht]
      exact hlater

theorem unhurried_getCurrentUser (header : TokenPayload) :
    Unhurried cutoff (fun _ => True) (getCurrentUser header) := by
  refine Unhurried.bind (unhurried_tokenRequired .access header) ?_
  intro payload _
  refine unhurried_last trivial (fun _ h => by cases h) fun user => ?_
  cases user with
  | none => trivial
  | some user =>
    show Unhurried _ _ (ite _ _ _)
    split <;> trivial

theorem unhurried_requireScopes (cfg : Config) (required : List String) (header : TokenPayload) :
    Unhurried cutoff (fun _ => True) (requireScopes cfg required header) := by
  refine Unhurried.bind (unhurried_tokenRequired .access header) ?_
  intro payload _
  show Unhurried _ _ (ite _ _ _)
  split <;> trivial

theorem unhurried_decode (token : TokenPayload) (type : TokenType) (invalid wrongType used : String) :
    Unhurried cutoff (fun payload => payload = token ∧ cutoff < token.expiryDatetime)
      (AuthService.decode token type invalid wrongType used) := by
  refine unhurried_clock fun now hnow => ?_
  show Unhurried _ _ (ite (_ = true) _ _)
  split
  · trivial
  · next hdecode =>
    have hlater := jwtDecode_later hnow (by simpa using hdecode)
    show Unhurried _ _ (ite _ _ _)
    split
    · trivial
    · refine unhurried_clock fun now hnow => unhurried_last hnow (fun _ h => by cases h) fun used => ?_
      show Unhurried _ _ (ite _ _ _)
      split
      · trivial
      · exact ⟨rfl, hlater⟩

/-- What a transaction answered, as the token service puts it. -/
theorem unhurried_invalidToken (detail : String) (r : Except Err β) {M : Unit → Prop} (hM : M ()) :
    Unhurried cutoff M (AuthService.orInvalidToken detail (do let _ ← orRaise r; return () : Api Unit)) := by
  cases r with
  | ok b => exact hM
  | error e =>
    cases e with
    | domain d => cases d <;> trivial
    | _ => trivial

/-- The last transaction of a route, and its answer. -/
theorem unhurried_commit {op : Op} {k : op.Res → Api α} {M : α → Prop} (hop : op.Fits cutoff)
    (hne : ∀ sid, op ≠ .getSession sid) (hk : ∀ r, ∃ out, (k r).outcome = some out) (hM : ∀ a, M a) :
    Unhurried cutoff M (.call op k) := by
  refine unhurried_last hop hne fun r => ?_
  obtain ⟨out, hout⟩ := hk r
  cases hr : k r with
  | ret a => exact hM a
  | raise e => trivial
  | call op' k' => rw [hr] at hout; cases hout

theorem unhurried_refresh (cfg : Config) (userId sessionId : Uuid) (generation : Nat) :
    Unhurried cutoff (fun _ => True) (AuthService.refresh cfg userId sessionId generation) := by
  refine unhurried_last trivial (fun _ h => by cases h) fun user => ?_
  cases user with
  | none => trivial
  | some user =>
    show Unhurried _ _ (ite _ _ _)
    split
    · trivial
    · apply unhurried_clock
      intro now hnow
      refine unhurried_last hnow (fun _ h => by cases h) fun rotated => ?_
      rcases rotated with e | _ | rotated
      · trivial
      · refine ⟨trivial, ?_, ?_⟩
        · -- a session that is there and expired: one clock reading more, the same answer
          intro r hr
          refine ⟨.domain .invalidRefreshToken, _, rfl, rfl, ?_⟩
          intro now hnow
          have hdead : AuthService.isLive r userId now = false := by
            have hlate : ¬ now < r.expiresAt := not_lt.mpr (le_trans hr hnow)
            simp [AuthService.isLive, hlate]
          show ite _ _ _ = _
          rw [if_pos (by rw [hdead]; rfl)]
          rfl
        · intro current _
          cases current with
          | none => trivial
          | some current =>
            apply unhurried_clock
            intro now hnow
            show Unhurried _ _ (ite _ _ _)
            split
            · trivial
            · apply unhurried_clock
              intro now hnow
              show Unhurried _ _ (ite _ _ _)
              split
              · trivial
              · refine unhurried_last trivial (fun _ h => by cases h) fun revoked => ?_
                cases revoked <;> trivial
      · trivial

theorem unhurried_update (cfg : Config) (userId : Uuid) (data : UpdateUserRequest) :
    Unhurried cutoff (fun _ => True) (UserService.update cfg userId data) := by
  rcases hpassword : data.password with _ | _ | password <;> simp only [UserService.update, hpassword]
  -- a new password is hashed first, under a salt of its own
  on_goal 3 => refine unhurried_last trivial (fun _ h => by cases h) fun salt => ?_
  all_goals
    refine unhurried_commit trivial (fun _ h => by cases h) (fun r => ?_) fun _ => trivial
    rcases r with e | _ | user <;> exact ⟨_, rfl⟩

/-- What the routes and the token check do with time. -/
theorem unhurried_serve (cfg : Config) {req : Request} (hreq : req.purges = false) :
    Unhurried cutoff (fun _ => True) (serve cfg req) := by
  have hdone : ∀ {γ : Type} (r : Except Err γ) (f : γ → Response),
      ∃ out, (orRaise r >>= fun a => (.ret (f a) : Api Response)).outcome = some out := by
    intro γ r f
    cases r <;> exact ⟨_, rfl⟩
  cases req with
  | createUser data =>
    refine unhurried_last trivial (fun _ h => by cases h) fun userId => ?_
    refine unhurried_last trivial (fun _ h => by cases h) fun now => ?_
    refine unhurried_last trivial (fun _ h => by cases h) fun jti => ?_
    refine unhurried_last trivial (fun _ h => by cases h) fun salt => ?_
    refine unhurried_commit trivial (fun _ h => by cases h) (fun r => ?_) fun _ => trivial
    exact hdone r _
  | login email password =>
    refine unhurried_last trivial (fun _ h => by cases h) fun user => ?_
    cases user with
    | none => trivial
    | some user =>
      show Unhurried _ _ (Prog.bind (Prog.bind (ite _ _ _) _) _)
      split
      · trivial
      · refine unhurried_last trivial (fun _ h => by cases h) fun now => ?_
        refine unhurried_commit trivial (fun _ h => by cases h) (fun r => ?_) fun _ => trivial
        cases r <;> exact ⟨_, rfl⟩
  | refresh cookie =>
    apply Unhurried.bind (unhurried_tokenRequired .refresh cookie)
    intro payload _
    cases hses : payload.session with
    | none => simp only [refreshSessionClaims, hses]; trivial
    | some claims =>
      simp only [refreshSessionClaims, hses]
      exact Unhurried.before (unhurried_refresh cfg payload.sub claims.1 claims.2) fun _ => trivial
  | logout header cookie =>
    apply Unhurried.bind (unhurried_getAuthSession header cookie)
    intro session hlater
    refine Unhurried.before ?_ fun _ => trivial
    apply Unhurried.before (unhurried_of_timeless (revoke_timeless false session.tokens))
    intro _
    refine unhurried_commit hlater (fun _ h => by cases h) (fun r => ?_) fun _ => trivial
    cases r <;> exact ⟨_, rfl⟩
  | deleteUser header cookie =>
    apply Unhurried.bind (unhurried_getAuthSession header cookie)
    intro session hlater
    refine Unhurried.before ?_ fun _ => trivial
    apply Unhurried.before (unhurried_of_timeless (revoke_timeless false session.tokens))
    intro _
    refine unhurried_last trivial (fun _ h => by cases h) fun snapshot => ?_
    refine unhurried_commit hlater (fun _ h => by cases h) (fun r => ?_) fun _ => trivial
    rcases r with e | _ | user <;> exact ⟨_, rfl⟩
  | updateUser header data =>
    apply Unhurried.bind (unhurried_tokenRequired .access header)
    intro payload _
    exact Unhurried.before (unhurried_update cfg payload.sub data) fun _ => trivial
  | getUser header =>
    exact Unhurried.before (unhurried_getCurrentUser header) fun _ => trivial
  | listUsers header params =>
    apply Unhurried.before (unhurried_requireScopes cfg _ header)
    intro payload
    refine unhurried_last trivial (fun _ h => by cases h) fun users => ?_
    trivial
  | verifyEmail token =>
    refine Unhurried.before ?_ fun _ => trivial
    apply Unhurried.bind (unhurried_decode token _ _ _ _)
    rintro payload ⟨rfl, hlater⟩
    refine unhurried_last trivial (fun _ h => by cases h) fun user => ?_
    cases user with
    | none => trivial
    | some user =>
      show Unhurried _ _ (ite _ _ _)
      split
      · trivial
      · exact unhurried_last hlater (fun _ h => by cases h) fun r => unhurried_invalidToken _ r trivial
  | resendVerification email =>
    refine unhurried_last trivial (fun _ h => by cases h) fun user => ?_
    cases user with
    | none => trivial
    | some user =>
      show Unhurried _ _ (Prog.bind (ite _ _ _) _)
      split
      · trivial
      · refine unhurried_last trivial (fun _ h => by cases h) fun now => ?_
        refine unhurried_last trivial (fun _ h => by cases h) fun jti => ?_
        refine unhurried_commit trivial (fun _ h => by cases h) (fun r => ?_) fun _ => trivial
        exact hdone r _
  | forgotPassword email =>
    refine unhurried_last trivial (fun _ h => by cases h) fun user => ?_
    cases user with
    | none => trivial
    | some user =>
      show Unhurried _ _ (Prog.bind (ite _ _ _) _)
      split
      · trivial
      · refine unhurried_last trivial (fun _ h => by cases h) fun now => ?_
        refine unhurried_last trivial (fun _ h => by cases h) fun jti => ?_
        refine unhurried_commit trivial (fun _ h => by cases h) (fun r => ?_) fun _ => trivial
        exact hdone r _
  | resetPassword token newPassword =>
    refine Unhurried.before ?_ fun _ => trivial
    apply Unhurried.bind (unhurried_decode token _ _ _ _)
    rintro payload ⟨rfl, hlater⟩
    refine unhurried_last trivial (fun _ h => by cases h) fun user => ?_
    cases user with
    | none => trivial
    | some user =>
      show Unhurried _ _ (ite _ _ _)
      split
      · trivial
      · show Unhurried _ _ (ite _ _ _)
        split
        · trivial
        · refine unhurried_last trivial (fun _ h => by cases h) fun salt => ?_
          refine unhurried_last trivial (fun _ h => by cases h) fun snapshot => ?_
          exact unhurried_last hlater (fun _ h => by cases h) fun r => unhurried_invalidToken _ r trivial
  | isTokenRevoked token =>
    exact Unhurried.bind (unhurried_isTokenRevoked token) fun _ _ => trivial
  | cleanupRevokedTokens => cases hreq
  | cleanupRefreshSessions => cases hreq
  | cleanupOutbox =>
    refine unhurried_last trivial (fun _ h => by cases h) fun now => ?_
    refine unhurried_commit trivial (fun _ h => by cases h) (fun r => ?_) fun _ => trivial
    cases r <;> exact ⟨_, rfl⟩
  | dispatchPending ids =>
    refine unhurried_commit trivial (fun _ h => by cases h) (fun r => ?_) fun _ => trivial
    exact hdone r _

end Programs

end FastiKit
