import FastiKit.Auth.Guarantee

/- Every route meets the guarantee. The parts of a request that only read, or
   only talk to Redis, are handled at once (`ready_quiet`); each route then shows
   why its own operations are justified and what its response answers.
   `serve_sound` puts the routes together, and `Reaches.invariant` is the rule
   later modules use: what every guaranteed step keeps, every run keeps. -/
namespace FastiKit

open Interleave Relational

/-- The regime of the whole service. -/
def regime (cfg : Config) : Regime Op World where
  cond := fun _ _ => True
  rely := fun _ w v => Evolves w v ∧ Sane v
  guar := Guarantee cfg

/-- The operations that only read, or only talk to Redis: they need no
justification and conclude nothing. -/
def Op.quiet : Op → Bool
  | .clock | .revokeClock _ _ | .uuid4 | .gensalt | .getUser _ _ | .getUserByEmail _ _ | .listUsers _
  | .getSession _ | .tokenExists _ _ | .listActive _ | .snapshot _ | .setJti _ _ | .mget _ | .setSeeding
  | .setReady => true
  | _ => false

abbrev Quiet (op : Op) : Prop := op.quiet = true

theorem Quiet.justified {op : Op} (h : Quiet op) (w : World) : Justified op w := by
  cases op <;> first | exact trivial | cases h

theorem Quiet.concludes {op : Op} (h : Quiet op) (r : op.Res) : op.concludes r = false := by
  cases op <;> first | rfl | cases h

theorem Quiet.db {op : Op} (h : Quiet op) (cfg : Config) (w : World) : (execOp cfg op w).2.db = w.db := by
  cases op with
  | setJti pipe token =>
    simp only [execOp]
    rw [World.send_frame]
  | setReady =>
    simp only [execOp]
    rw [World.send_frame]
  | setSeeding =>
    simp only [execOp]
    split
    · rfl
    · rw [World.send_frame]
  | _ => first | rfl | cases h

section Rules
variable {cfg : Config} {α β : Type}

theorem Quiet.guarantee {op : Op} (h : Quiet op) (w : World) : Guarantee cfg op w (execOp cfg op w).2 :=
  ⟨h.justified w, .inl ⟨rfl, h.concludes _⟩⟩

theorem Quiet.evolves {op : Op} (h : Quiet op) {w : World} : Evolves w (execOp cfg op w).2 :=
  execOp_evolves cfg (h.justified w)

theorem Quiet.sane {op : Op} (h : Quiet op) {w : World} (hs : Sane w) : Sane (execOp cfg op w).2 :=
  execOp_sane cfg hs (h.justified w)

/-- A regime in which the rest of the pool does what the service does, and which
asks nothing of a quiet operation. -/
structure Serves (cfg : Config) (g : Regime Op World) : Prop where
  rely : ∀ op w v, g.rely op w v → Evolves w v ∧ Sane v
  quiet : ∀ op w, Quiet op → g.guar op w (execOp cfg op w).2

theorem serves_regime : Serves cfg (regime cfg) := ⟨fun _ _ _ h => h, fun _ w hq => hq.guarantee w⟩

theorem serves_watch {G : Op → World → World → Prop} (h : ∀ op w, Quiet op → G op w (execOp cfg op w).2) :
    Serves cfg ((regime cfg).watch G) :=
  ⟨fun _ _ _ h => h, h⟩

section Quiet
variable {g : Regime Op World}

/-- A program of quiet operations. -/
theorem ready_quiet (hg : Serves cfg g) {K : Except Err α → Op → World → World → Prop}
    {L : Except Err α → Prop} {p : Api α} {w : World} (hp : p.outcome = none) (hu : p.Uses Quiet L)
    (hs : Sane w)
    (hK : ∀ out op v, Quiet op → L out → Evolves w v → Sane v → K out op v (execOp cfg op v).2) :
    Ready g (execOp cfg) K p w := by
  refine ready_of_uses (P := fun v => Evolves w v ∧ Sane v) ?_ ?_ ?_ hp hu ⟨.refl w, hs⟩
  · intro op s v hq hws hsv _
    obtain ⟨hsv, hv⟩ := hg.rely op s v hsv
    exact ⟨(hws.1.trans hsv).trans hq.evolves, hq.sane hv⟩
  · intro op s v hq _ _ _
    exact hg.quiet op v hq
  · intro out op s v hq hL hws hsv _
    obtain ⟨hsv, hv⟩ := hg.rely op s v hsv
    exact hK out op v hq hL (hws.1.trans hsv) hv

/-- Quiet operations first, then a program that calls at least one more. -/
theorem ready_quiet_bind (hg : Serves cfg g) {K : Except Err β → Op → World → World → Prop}
    {L : Except Err α → Prop} {p : Api α} {f : α → Api β} {w : World} (hp : p.outcome = none)
    (hu : p.Uses Quiet L) (hs : Sane w)
    (hok : ∀ a v, L (.ok a) → Evolves w v → Sane v → Ready g (execOp cfg) K (f a) v)
    (herr : ∀ e op v, L (.error e) → Quiet op → Evolves w v → Sane v →
      K (.error e) op v (execOp cfg op v).2) :
    Ready g (execOp cfg) K (p >>= f) w := by
  apply ready_bind
  apply ready_quiet hg hp hu hs
  intro out op v hq hL hwv hv
  cases out with
  | ok a => exact after_of_ready (hg.quiet op v hq) (hok a _ hL (hwv.trans hq.evolves) (hq.sane hv))
  | error e => exact herr e op v hL hq hwv hv

end Quiet

/-- The end of a request: its response meets the guarantee. -/
abbrev Served (cfg : Config) (req : Request) : Except Err Response → Op → World → World → Prop :=
  Finish (service cfg) (regime cfg) (fun _ _ => True) req

theorem served {req : Request} {out : Except Err Response} {op : Op} {w : World} (hj : Justified op w)
    (ha : Answers req out op (execOp cfg op w).1) : Served cfg req out op w (execOp cfg op w).2 :=
  ⟨⟨hj, .inr ⟨req, out, rfl, ha⟩⟩, trivial⟩

theorem served_error {req : Request} {e : Err} {op : Op} {w : World} (hj : Justified op w)
    (hop : op.concludes (execOp cfg op w).1 = false) :
    Served cfg req (.error e) op w (execOp cfg op w).2 :=
  served hj (.rest hop nofun)

theorem Quiet.served_error {req : Request} {e : Err} {op : Op} (h : Quiet op) (w : World) :
    Served cfg req (.error e) op w (execOp cfg op w).2 :=
  FastiKit.served_error (h.justified w) (h.concludes _)

end Rules

/-! What the quiet parts of a request call, and what they return. -/

theorem execute_uses (seeding : Bool) (tokens : List TokenRef) :
    ∀ failed sent, (TokenBlocklist.execute seeding failed sent tokens).Uses Quiet
      (fun out => ∃ b, out = .ok b) := by
  induction tokens with
  | nil => intro failed sent; exact ⟨_, rfl⟩
  | cons token rest ih =>
    intro failed sent
    exact ⟨rfl, fun acknowledged => ih _ _⟩

/-- `revoke` raises nothing but a `RedisError`. -/
theorem revoke_uses (seeding : Bool) (tokens : List TokenRef) :
    (TokenBlocklist.revoke seeding tokens).Uses Quiet (fun out => ∀ e, out = .error e → e = .redis) := by
  simp only [TokenBlocklist.revoke, api, Prog.perform_bind, Prog.uses_call]
  refine ⟨rfl, ?_⟩
  intro now
  rw [Prog.uses_bind]
  refine (execute_uses seeding _ false []).mono (fun _ h => h) ?_
  intro out hout
  obtain ⟨acknowledged, rfl⟩ := hout
  cases acknowledged with
  | true => intro e he; cases he
  | false => intro e he; cases he; rfl

/-- `seed` raises nothing. -/
theorem seed_uses (tokens : List TokenRef) :
    (TokenBlocklist.seed tokens).Uses Quiet (fun out => out = .ok ()) := by
  rw [TokenBlocklist.seed, Prog.uses_tryCatch, Prog.uses_bind]
  refine (revoke_uses true tokens).mono (fun _ h => h) ?_
  intro out hout
  cases out with
  | error e =>
    rw [hout e rfl]
    rfl
  | ok a =>
    simp only [TokenBlocklist.setReady, api, Prog.perform_bind, Prog.uses_call]
    refine ⟨rfl, ?_⟩
    intro acknowledged
    cases acknowledged with
    | true => trivial
    | false => rfl

theorem lookup_uses (jti : Uuid) :
    (TokenBlocklist.lookup jti).Uses Quiet (fun out => ∃ cached, out = .ok cached) := by
  simp only [TokenBlocklist.lookup, api, Prog.perform_bind, Prog.uses_call]
  refine ⟨rfl, ?_⟩
  intro r
  rcases r with _ | ⟨revoked, ready⟩
  · exact ⟨_, rfl⟩
  · cases ready <;> exact ⟨_, rfl⟩

theorem claimSeeding_uses :
    TokenBlocklist.claimSeeding.Uses Quiet (fun out => ∃ claimed, out = .ok claimed) := by
  simp only [TokenBlocklist.claimSeeding, api, Prog.perform_bind, Prog.uses_call]
  refine ⟨rfl, ?_⟩
  intro r
  rcases r with _ | claimed <;> exact ⟨_, rfl⟩

/-- The check raises nothing but what `authx` turns into a refusal. -/
theorem isTokenRevoked_uses (token : TokenPayload) :
    (isTokenRevoked token).Uses Quiet (fun out => ∀ e, out = .error e → ∃ detail, e = .authx detail) := by
  simp only [isTokenRevoked, now, api, Prog.perform_bind, Prog.uses_call]
  refine ⟨rfl, ?_⟩
  intro now
  split
  · intro e he; cases he; exact ⟨_, rfl⟩
  · rw [Prog.uses_bind]
    refine (lookup_uses token.jti).mono (fun _ h => h) ?_
    intro out hout
    obtain ⟨cached, rfl⟩ := hout
    cases cached with
    | some cached => intro e he; cases he
    | none =>
      simp only [Prog.uses_call]
      refine ⟨rfl, fun now => ⟨rfl, fun revoked => ?_⟩⟩
      rw [Prog.uses_bind]
      refine claimSeeding_uses.mono (fun _ h => h) ?_
      intro out hout
      obtain ⟨claimed, rfl⟩ := hout
      cases claimed with
      | false => intro e he; cases he
      | true =>
        simp only [if_true, Prog.uses_call]
        refine ⟨rfl, fun now => ⟨rfl, fun active => ?_⟩⟩
        simp only [Prog.uses_bind]
        refine (seed_uses active).mono (fun _ h => h) ?_
        intro out hout
        subst hout
        intro e he
        cases he

/-- `token_required` lets a token through as it is, and only of its type. -/
theorem tokenRequired_uses (type : TokenType) (token : TokenPayload) :
    (tokenRequired type token).Uses Quiet
      (fun out => (∀ payload, out = .ok payload → payload = token ∧ token.type = type) ∧
        ∀ e, out = .error e → ∃ detail, e = .authx detail) := by
  rw [tokenRequired, Prog.uses_bind]
  refine (isTokenRevoked_uses token).mono (fun _ h => h) ?_
  intro out hout
  cases out with
  | error e => exact ⟨fun payload hp => (by cases hp), fun e' he' => by cases he'; exact hout e rfl⟩
  | ok revoked =>
    cases revoked with
    | true => exact ⟨fun payload hp => (by cases hp), fun e he => by cases he; exact ⟨_, rfl⟩⟩
    | false =>
      simp only [Bool.false_eq_true, if_false, now, api, Prog.perform_bind, Prog.uses_call]
      refine ⟨rfl, ?_⟩
      intro now
      split
      · exact ⟨fun payload hp => (by cases hp), fun e he => by cases he; exact ⟨_, rfl⟩⟩
      · split
        · next htype => exact ⟨fun payload hp => by cases hp; exact ⟨rfl, htype⟩, fun e he => by cases he⟩
        · exact ⟨fun payload hp => (by cases hp), fun e he => by cases he; exact ⟨_, rfl⟩⟩

/-- The tokens of a session are the request's own. -/
theorem getAuthSession_uses (header : TokenPayload) (cookie : Option TokenPayload) :
    (getAuthSession header cookie).Uses Quiet
      (fun out => ∀ session, out = .ok session →
        session.userId = header.sub ∧ ∀ t ∈ session.tokens, ∃ p ∈ header :: cookie.toList, p.ref = t) := by
  rw [getAuthSession, Prog.uses_bind]
  refine (tokenRequired_uses .access header).mono (fun _ h => h) ?_
  rintro (e | payload) hout
  · exact nofun
  · obtain ⟨rfl, -⟩ := hout.1 payload rfl
    cases cookie with
    | none =>
      rintro session ⟨⟩
      exact ⟨rfl, by simp⟩
    | some refreshToken =>
      simp only [now, api, Prog.perform_bind, Prog.uses_call]
      refine ⟨rfl, ?_⟩
      intro now
      split
      · rintro session ⟨⟩
        exact ⟨rfl, by simp⟩
      · rintro session ⟨⟩
        exact ⟨rfl, by simp⟩

/-- `require_scopes` lets a token through as it is, and only with the scopes. -/
theorem requireScopes_uses (cfg : Config) (required : List String) (header : TokenPayload) :
    (requireScopes cfg required header).Uses Quiet (fun out => ∀ payload, out = .ok payload →
      payload = header ∧ cfg.hasScopes header.scopes required = true) := by
  rw [requireScopes, Prog.uses_bind]
  refine (tokenRequired_uses .access header).mono (fun _ h => h) ?_
  rintro (e | payload) hout
  · rintro payload ⟨⟩
  · obtain ⟨rfl, -⟩ := hout.1 payload rfl
    cases hscopes : cfg.hasScopes payload.scopes required with
    | false =>
      simp only [hscopes, Bool.not_false, if_true]
      rintro payload' ⟨⟩
    | true =>
      simp only [hscopes, Bool.not_true, Bool.false_eq_true, if_false]
      rintro payload' ⟨⟩
      exact ⟨rfl, trivial⟩

theorem getCurrentUser_uses (header : TokenPayload) :
    (getCurrentUser header).Uses Quiet (fun _ => True) := by
  rw [getCurrentUser, Prog.uses_bind]
  refine (tokenRequired_uses .access header).mono (fun _ h => h) ?_
  rintro (e | payload) _
  · trivial
  · simp only [api, Prog.perform_bind, Prog.uses_call]
    refine ⟨rfl, ?_⟩
    rintro (_ | user)
    · trivial
    · dsimp only
      split <;> trivial

/-- `_decode` lets a token through as it is, and only of the expected type. -/
theorem decode_uses (token : TokenPayload) (type : TokenType) (invalid wrongType used : String) :
    (AuthService.decode token type invalid wrongType used).Uses Quiet
      (fun out => ∀ payload, out = .ok payload → payload = token ∧ token.type = type) := by
  simp only [AuthService.decode, now, api, Prog.perform_bind, Prog.uses_call]
  refine ⟨rfl, ?_⟩
  intro now
  split
  · rintro payload ⟨⟩
  · split
    · rintro payload ⟨⟩
    · next htype =>
      simp only [Prog.uses_call]
      refine ⟨rfl, fun now => ⟨rfl, fun used => ?_⟩⟩
      split
      · rintro payload ⟨⟩
      · rintro payload ⟨⟩
        exact ⟨rfl, not_not.mp htype⟩

/-! The routes. -/

section Routes
variable {cfg : Config} {w : World}

theorem orInvalidToken_raise (detail : String) (e : Err) :
    ∃ e', (AuthService.orInvalidToken detail (.raise e) : Api Unit) = .raise e' := by
  cases e with
  | domain d => cases d <;> exact ⟨_, rfl⟩
  | _ => exact ⟨_, rfl⟩

/-- A response with nothing but a text, a user or an answer in it. -/
theorem served_rest {req : Request} {response : Response} {op : Op} (hj : Justified op w)
    (hop : op.concludes (execOp cfg op w).1 = false) (hreq : req.concludes = false)
    (hres : ∀ u s, response ≠ .tokens u s) :
    Served cfg req (.ok response) op w (execOp cfg op w).2 := by
  refine served hj (.rest hop ?_)
  rintro _ ⟨⟩
  exact ⟨hreq, hres⟩

/-- The last operation of a request that concludes nothing: the request raises
or responds. -/
theorem served_last {req : Request} {op : Op} {p : Api Response} {v : World} (hj : Justified op v)
    (hop : op.concludes (execOp cfg op v).1 = false) (hreq : req.concludes = false)
    (hp : (∃ e, p = .raise e) ∨ ∃ response, p = .ret response ∧ ∀ u s, response ≠ .tokens u s) :
    After (regime cfg) (execOp cfg) (Served cfg req) p op v (execOp cfg op v).2 := by
  rcases hp with ⟨e, rfl⟩ | ⟨response, rfl, hres⟩
  · exact served_error hj hop
  · exact served_rest hj hop hreq hres

theorem ready_createUser {data : CreateUserRequest} :
    Ready (regime cfg) (execOp cfg) (Served cfg (.createUser data)) (serve cfg (.createUser data)) w := by
  -- the id, the clock, the jti and the salt come before the one transaction
  rintro v - -
  apply after_of_ready (Quiet.guarantee rfl v)
  rintro v' - -
  apply after_of_ready (Quiet.guarantee rfl v')
  rintro v'' - -
  apply after_of_ready (Quiet.guarantee rfl v'')
  rintro s - -
  apply after_of_ready (Quiet.guarantee rfl s)
  rintro t - -
  refine served_last ?_ rfl rfl ?_
  · exact ⟨_, rfl⟩
  · generalize (execOp cfg (.register _ _ _ _ _ _) t).1 = r
    cases r with
    | error e => exact .inl ⟨e, rfl⟩
    | ok user => exact .inr ⟨_, rfl, Response.ne_tokens rfl⟩

theorem ready_login {email password : String} :
    Ready (regime cfg) (execOp cfg) (Served cfg (.login email password)) (serve cfg (.login email password))
      w := by
  rintro v - -
  simp only [execOp, if_true]
  cases hu : v.db.users.rows.find? (fun r => r.email = email) with
  | none => exact Quiet.served_error rfl v
  | some user =>
    show After _ _ _ (Prog.bind (Prog.bind (ite _ _ _) _) _) _ _ _
    split
    · exact Quiet.served_error rfl v
    · apply after_of_ready (Quiet.guarantee rfl v)
      rintro s - -
      apply after_of_ready (Quiet.guarantee rfl s)
      rintro t - -
      generalize (execOp cfg .clock s).1 + cfg.sessionTtl = expiresAt
      cases hr : (execOp cfg (.createSession user expiresAt) t).1 with
      | error e => exact served_error trivial (by rw [hr]; rfl)
      | ok session => exact served trivial (by rw [hr]; exact .login)

theorem ready_verifyEmail {token : TokenPayload} (hs : Sane w) (ha : w.issued token = true) :
    Ready (regime cfg) (execOp cfg) (Served cfg (.verifyEmail token)) (serve cfg (.verifyEmail token)) w := by
  rw [serve]
  apply ready_bind
  apply ready_quiet_bind serves_regime rfl (decode_uses _ _ _ _ _) hs
  · intro payload v hp hwv hv
    obtain ⟨rfl, htype⟩ := hp _ rfl
    rw [AuthService.userForToken]
    rintro s ⟨hvs, hs⟩ -
    simp only [execOp, if_true]
    cases hu : s.db.users.get payload.sub with
    | none => exact Quiet.served_error rfl s
    | some user =>
      have hid : user.id = payload.sub := Table.get_key hu
      show After _ _ _ (ite _ _ _) _ _ _
      split
      · exact Quiet.served_error rfl s
      · apply after_of_ready (Quiet.guarantee rfl s)
        rw [hid]
        rintro t ⟨hst, ht⟩ -
        have hj : Justified (.verifyEmail payload.sub payload) t :=
          ⟨rfl, htype, ((hwv.trans hvs).trans hst).issued ha⟩
        cases hr : (execOp cfg (.verifyEmail payload.sub payload) t).1 with
        | error e =>
          obtain ⟨e', he'⟩ := orInvalidToken_raise "Verification link already used" e
          show After _ _ _ (AuthService.orInvalidToken _ (.raise e)) _ _ _
          rw [he']
          exact served_error hj (by rw [hr]; rfl)
        | ok user => exact served hj (by rw [hr]; exact .verifyEmail)
  · intro e op v _ hq _ _
    exact hq.served_error v

theorem ready_resetPassword {token : TokenPayload} {newPassword : String} (hs : Sane w)
    (ha : w.issued token = true) :
    Ready (regime cfg) (execOp cfg) (Served cfg (.resetPassword token newPassword))
      (serve cfg (.resetPassword token newPassword)) w := by
  rw [serve]
  apply ready_bind
  apply ready_quiet_bind serves_regime rfl (decode_uses _ _ _ _ _) hs
  · intro payload v hp hwv hv
    obtain ⟨rfl, htype⟩ := hp _ rfl
    rw [AuthService.userForToken]
    rintro s ⟨hvs, hs⟩ -
    simp only [execOp, if_true]
    cases hu : s.db.users.get payload.sub with
    | none => exact Quiet.served_error rfl s
    | some user =>
      have hid : user.id = payload.sub := Table.get_key hu
      show After _ _ _ (ite _ _ _) _ _ _
      split
      · exact Quiet.served_error rfl s
      · show After _ _ _ (ite _ _ _) _ _ _
        split
        · exact Quiet.served_error rfl s
        · apply after_of_ready (Quiet.guarantee rfl s)
          rw [hid]
          rintro s' ⟨hss', hs'⟩ -
          apply after_of_ready (Quiet.guarantee rfl s')
          rintro s'' ⟨hss'', -⟩ -
          apply after_of_ready (Quiet.guarantee rfl s'')
          rintro t ⟨hst, -⟩ -
          have hss'' : Evolves s s'' := (hss'.trans (Quiet.evolves rfl)).trans hss''
          have hst : Evolves s t := (hss''.trans (Quiet.evolves rfl)).trans hst
          generalize cfg.hashpw newPassword (execOp cfg .gensalt s').1 = passwordHash
          generalize (execOp cfg (.snapshot []) s'').1 = snapshot
          have hj : Justified (.resetPassword payload.sub passwordHash payload snapshot) t :=
            ⟨rfl, htype, ((hwv.trans hvs).trans hst).issued ha⟩
          cases hr : (execOp cfg (.resetPassword payload.sub passwordHash payload snapshot) t).1 with
          | error e =>
            obtain ⟨e', he'⟩ := orInvalidToken_raise "Reset link already used" e
            show After _ _ _ (AuthService.orInvalidToken _ (.raise e)) _ _ _
            rw [he']
            exact served_error hj (by rw [hr]; rfl)
          | ok user => exact served hj (by rw [hr]; exact .resetPassword)
  · intro e op v _ hq _ _
    exact hq.served_error v

theorem ready_refresh {cookie : TokenPayload} (hs : Sane w) (ha : w.issued cookie = true) :
    Ready (regime cfg) (execOp cfg) (Served cfg (.refresh cookie)) (serve cfg (.refresh cookie)) w := by
  rw [serve]
  apply ready_bind
  apply ready_quiet serves_regime rfl (tokenRequired_uses .refresh cookie) hs
  rintro (e | payload) op v hq hout hwv hv
  · exact hq.served_error v
  obtain ⟨rfl, -⟩ := hout.1 payload rfl
  dsimp only [refreshSessionClaims]
  cases hses : payload.session with
  | none => exact hq.served_error v
  | some claims =>
    obtain ⟨sid, gen⟩ := claims
    apply after_of_ready (hq.guarantee v)
    have hv' : Sane (execOp cfg op v).2 := hq.sane hv
    have hwv' : Evolves w (execOp cfg op v).2 := hwv.trans hq.evolves
    generalize (execOp cfg op v).2 = v' at hv' hwv'
    have hsigned : payload ∈ v'.signed := hv'.signed_of_session (hwv'.issued ha) (by rw [hses]; rfl)
    -- the user check
    rintro s ⟨hvs, hs⟩ -
    simp only [execOp, if_true]
    cases hu : s.db.users.get payload.sub with
    | none => exact Quiet.served_error rfl s
    | some user =>
      have hid : user.id = payload.sub := Table.get_key hu
      show After _ _ _ (Prog.bind (ite _ _ _) _) _ _ _
      split
      · exact Quiet.served_error rfl s
      · apply after_of_ready (Quiet.guarantee rfl s)
        rintro s' ⟨hss', hs'⟩ -
        apply after_of_ready (Quiet.guarantee rfl s')
        -- the rotate
        rintro t ⟨hst, ht⟩ -
        have hnow : (execOp cfg .clock s').1 ≤ t.now := hst.now
        generalize (execOp cfg .clock s').1 = now at hnow
        have hst : Evolves s t := hss'.trans hst
        have hj : Justified (.rotate sid payload.sub gen now) t :=
          ⟨hnow, payload, (hvs.trans hst).signed _ hsigned, hses, rfl⟩
        cases hr : (execOp cfg (.rotate sid payload.sub gen now) t).1 with
        | error e => exact served_error hj (by rw [hr]; rfl)
        | ok rotated =>
          cases rotated with
          | some session => exact served hj (by rw [hr]; exact .refresh hses hid)
          | none =>
            have hguar : Guarantee cfg (.rotate sid payload.sub gen now) t
                (execOp cfg (.rotate sid payload.sub gen now) t).2 := ⟨hj, .inl ⟨rfl, by rw [hr]; rfl⟩⟩
            apply after_of_ready hguar
            rintro u - -
            simp only [execOp]
            cases hcur : u.db.refreshSessions.get sid with
            | none => exact Quiet.served_error rfl u
            | some current =>
              -- the two checks, and the revoke of a session that passes them
              have hquiet : Quiet (.getSession sid) := rfl
              apply after_of_ready (hquiet.guarantee u)
              rintro u' - -
              show After _ _ _ (Prog.bind (ite _ _ _) _) _ _ _
              split
              · exact Quiet.served_error rfl u'
              · apply after_of_ready (Quiet.guarantee rfl u')
                rintro u'' - -
                show After _ _ _ (Prog.bind (ite _ _ _) _) _ _ _
                split
                · exact Quiet.served_error rfl u''
                · apply after_of_ready (Quiet.guarantee rfl u'')
                  rintro v - -
                  have hj : Justified (.revokeSession sid) v := trivial
                  exact served_error hj rfl

theorem ready_logout {header : TokenPayload} {cookie : Option TokenPayload} (hs : Sane w)
    (ha : ∀ p ∈ header :: cookie.toList, w.issued p = true) :
    Ready (regime cfg) (execOp cfg) (Served cfg (.logout header cookie)) (serve cfg (.logout header cookie))
      w := by
  rw [serve]
  apply ready_quiet_bind serves_regime rfl (getAuthSession_uses header cookie) hs
  · intro session v hsession hwv hv
    obtain ⟨-, htokens⟩ := hsession session rfl
    apply ready_bind
    apply ready_quiet_bind serves_regime rfl (revoke_uses false session.tokens) hv
    · rintro - s - hvs -
      rintro t ⟨hst, -⟩ -
      have hj : Justified (.logout session.userId session.tokens session.refreshSessionId) t := by
        intro token htoken
        obtain ⟨p, hp, href⟩ := htokens token htoken
        exact ⟨p, ((hwv.trans hvs).trans hst).issued (ha p hp), href⟩
      generalize (execOp cfg (.logout _ _ _) t).1 = r
      cases r with
      | error e => exact served_error hj rfl
      | ok _ => exact served_rest hj rfl rfl (Response.ne_tokens rfl)
    · intro e op v _ hq _ _
      exact hq.served_error v
  · intro e op v _ hq _ _
    exact hq.served_error v

theorem ready_deleteUser {header : TokenPayload} {cookie : Option TokenPayload} (hs : Sane w)
    (ha : ∀ p ∈ header :: cookie.toList, w.issued p = true) :
    Ready (regime cfg) (execOp cfg) (Served cfg (.deleteUser header cookie))
      (serve cfg (.deleteUser header cookie)) w := by
  rw [serve]
  apply ready_quiet_bind serves_regime rfl (getAuthSession_uses header cookie) hs
  · intro session v hsession hwv hv
    obtain ⟨-, htokens⟩ := hsession session rfl
    apply ready_bind
    apply ready_quiet_bind serves_regime rfl (revoke_uses false session.tokens) hv
    · rintro - s - hvs -
      rintro s' ⟨hss', -⟩ -
      apply after_of_ready (Quiet.guarantee rfl s')
      rintro t ⟨hst, -⟩ -
      have hst : Evolves s t := (hss'.trans (Quiet.evolves rfl)).trans hst
      generalize (execOp cfg (.snapshot session.tokens) s').1 = snapshot
      have hj : Justified (.closeAccount session.userId session.tokens snapshot) t := by
        intro token htoken
        obtain ⟨p, hp, href⟩ := htokens token htoken
        exact ⟨p, ((hwv.trans hvs).trans hst).issued (ha p hp), href⟩
      generalize (execOp cfg (.closeAccount _ _ _) t).1 = r
      rcases r with e | _ | user
      · exact served_error hj rfl
      · exact served_error hj rfl
      · exact served_rest hj rfl rfl (Response.ne_tokens rfl)
    · intro e op v _ hq _ _
      exact hq.served_error v
  · intro e op v _ hq _ _
    exact hq.served_error v

theorem ready_updateUser {header : TokenPayload} {data : UpdateUserRequest} (hs : Sane w) :
    Ready (regime cfg) (execOp cfg) (Served cfg (.updateUser header data))
      (serve cfg (.updateUser header data)) w := by
  have hlast : ∀ (fields : UserFields) (k : Except Err (Option User) → Api Response) (t : World),
      fields.isActive = none → fields.isVerified = none →
      (∀ r, (∃ e, k r = .raise e) ∨ ∃ user, k r = .ret (.user user)) →
      Ready (regime cfg) (execOp cfg) (Served cfg (.updateUser header data))
        (.call (.updateUser header.sub fields) k) t := by
    rintro fields k t hact hver hk v - -
    refine served_last ⟨hact, hver⟩ rfl rfl ?_
    rcases hk (execOp cfg (.updateUser header.sub fields) v).1 with ⟨e, he⟩ | ⟨user, huser⟩
    · exact .inl ⟨e, he⟩
    · exact .inr ⟨_, huser, Response.ne_tokens rfl⟩
  rw [serve]
  apply ready_quiet_bind serves_regime rfl (tokenRequired_uses .access header) hs
  · intro payload v hp hwv hv
    obtain ⟨rfl, -⟩ := hp.1 _ rfl
    rw [UserService.update]
    rcases data.password with _ | _ | password
    · refine hlast _ _ v rfl rfl ?_
      rintro (e | _ | user)
      exacts [.inl ⟨e, rfl⟩, .inl ⟨_, rfl⟩, .inr ⟨_, rfl⟩]
    · refine hlast _ _ v rfl rfl ?_
      rintro (e | _ | user)
      exacts [.inl ⟨e, rfl⟩, .inl ⟨_, rfl⟩, .inr ⟨_, rfl⟩]
    · rintro s - -
      apply after_of_ready (Quiet.guarantee rfl s)
      refine hlast _ _ _ rfl rfl ?_
      rintro (e | _ | user)
      exacts [.inl ⟨e, rfl⟩, .inl ⟨_, rfl⟩, .inr ⟨_, rfl⟩]
  · intro e op v _ hq _ _
    exact hq.served_error v

theorem ready_getUser {header : TokenPayload} (hs : Sane w) :
    Ready (regime cfg) (execOp cfg) (Served cfg (.getUser header)) (serve cfg (.getUser header)) w := by
  rw [serve]
  apply ready_bind
  apply ready_quiet serves_regime rfl (getCurrentUser_uses header) hs
  rintro (e | user) op v hq - - -
  · exact hq.served_error v
  · exact served_rest (hq.justified v) (hq.concludes _) rfl (Response.ne_tokens rfl)

theorem ready_listUsers {header : TokenPayload} {params : CursorParams} (hs : Sane w) :
    Ready (regime cfg) (execOp cfg) (Served cfg (.listUsers header params)) (serve cfg (.listUsers header params))
      w := by
  rw [serve]
  apply ready_quiet_bind serves_regime rfl (requireScopes_uses cfg _ header) hs
  · rintro payload v - - - t - -
    exact served_rest trivial rfl rfl (Response.ne_tokens rfl)
  · intro e op v _ hq _ _
    exact hq.served_error v

theorem ready_isTokenRevoked {token : TokenPayload} (hs : Sane w) :
    Ready (regime cfg) (execOp cfg) (Served cfg (.isTokenRevoked token)) (serve cfg (.isTokenRevoked token))
      w := by
  rw [serve]
  apply ready_bind
  apply ready_quiet serves_regime rfl (isTokenRevoked_uses token) hs
  rintro (e | answer) op v hq - - -
  · exact hq.served_error v
  · exact served_rest (hq.justified v) (hq.concludes _) rfl (Response.ne_tokens rfl)

theorem ready_resendVerification {email : String} :
    Ready (regime cfg) (execOp cfg) (Served cfg (.resendVerification email))
      (serve cfg (.resendVerification email)) w := by
  intro v hv _
  cases hu : (execOp cfg (.getUserByEmail email false) v).1 with
  | none => exact served_rest trivial rfl rfl (Response.ne_tokens rfl)
  | some user =>
    -- the replica's row is one the primary once had
    have hfind : v.replica.users.rows.find? (fun r => r.email = email) = some user := hu
    have hrow : v.replica.users.get user.id = some user :=
      Table.get_of_mem (List.mem_of_find?_eq_some hfind)
    have hemail : user.email = email := by simpa using List.find?_some hfind
    show After _ _ _ (Prog.bind (ite _ _ _) _) _ _ _
    split
    · exact served_rest trivial rfl rfl (Response.ne_tokens rfl)
    · apply after_of_ready (Quiet.guarantee rfl v)
      intro s hs _
      apply after_of_ready (Quiet.guarantee rfl s)
      intro s' hs' _
      apply after_of_ready (Quiet.guarantee rfl s')
      intro t ht _
      have hdraw : Evolves s' (execOp cfg .uuid4 s').2 := Quiet.evolves rfl
      have hvt : Evolves v t := (hs.1.trans hs'.1).trans (hdraw.trans ht.1)
      refine served_last ?_ rfl rfl ?_
      · exact ⟨v.replica, hvt.versions _ hv.2.replica, user, _, hrow, by rw [hemail]⟩
      · generalize (execOp cfg (.startEmailVerification _ _ _) t).1 = r
        cases r with
        | error e => exact .inl ⟨e, rfl⟩
        | ok _ => exact .inr ⟨_, rfl, Response.ne_tokens rfl⟩

theorem ready_forgotPassword {email : String} :
    Ready (regime cfg) (execOp cfg) (Served cfg (.forgotPassword email))
      (serve cfg (.forgotPassword email)) w := by
  intro v hv _
  cases hu : (execOp cfg (.getUserByEmail email false) v).1 with
  | none => exact served_rest trivial rfl rfl (Response.ne_tokens rfl)
  | some user =>
    -- the replica's row is one the primary once had
    have hfind : v.replica.users.rows.find? (fun r => r.email = email) = some user := hu
    have hrow : v.replica.users.get user.id = some user :=
      Table.get_of_mem (List.mem_of_find?_eq_some hfind)
    have hemail : user.email = email := by simpa using List.find?_some hfind
    show After _ _ _ (Prog.bind (ite _ _ _) _) _ _ _
    split
    · exact served_rest trivial rfl rfl (Response.ne_tokens rfl)
    · apply after_of_ready (Quiet.guarantee rfl v)
      intro s hs _
      apply after_of_ready (Quiet.guarantee rfl s)
      intro s' hs' _
      apply after_of_ready (Quiet.guarantee rfl s')
      intro t ht _
      have hdraw : Evolves s' (execOp cfg .uuid4 s').2 := Quiet.evolves rfl
      have hvt : Evolves v t := (hs.1.trans hs'.1).trans (hdraw.trans ht.1)
      refine served_last ?_ rfl rfl ?_
      · exact ⟨v.replica, hvt.versions _ hv.2.replica, user, _, hrow, by rw [hemail]⟩
      · generalize (execOp cfg (.startPasswordReset _ _ _) t).1 = r
        cases r with
        | error e => exact .inl ⟨e, rfl⟩
        | ok _ => exact .inr ⟨_, rfl, Response.ne_tokens rfl⟩

theorem ready_cleanupRevokedTokens :
    Ready (regime cfg) (execOp cfg) (Served cfg .cleanupRevokedTokens) (serve cfg .cleanupRevokedTokens)
      w := by
  rintro v - -
  apply after_of_ready (Quiet.guarantee rfl v)
  rintro t ⟨hvt, -⟩ -
  refine served_last ?_ rfl rfl ?_
  · exact hvt.now
  · generalize (execOp cfg (.purgeTokens _) t).1 = r
    cases r with
    | error e => exact .inl ⟨e, rfl⟩
    | ok deleted => exact .inr ⟨_, rfl, Response.ne_tokens rfl⟩

theorem ready_cleanupRefreshSessions :
    Ready (regime cfg) (execOp cfg) (Served cfg .cleanupRefreshSessions) (serve cfg .cleanupRefreshSessions)
      w := by
  rintro v - -
  apply after_of_ready (Quiet.guarantee rfl v)
  rintro t ⟨hvt, -⟩ -
  refine served_last ?_ rfl rfl ?_
  · exact hvt.now
  · generalize (execOp cfg (.purgeSessions _) t).1 = r
    cases r with
    | error e => exact .inl ⟨e, rfl⟩
    | ok deleted => exact .inr ⟨_, rfl, Response.ne_tokens rfl⟩

theorem ready_cleanupOutbox :
    Ready (regime cfg) (execOp cfg) (Served cfg .cleanupOutbox) (serve cfg .cleanupOutbox) w := by
  rintro v - -
  apply after_of_ready (Quiet.guarantee rfl v)
  rintro t - -
  refine served_last trivial rfl rfl ?_
  generalize (execOp cfg (.purgeEvents _) t).1 = r
  cases r with
  | error e => exact .inl ⟨e, rfl⟩
  | ok deleted => exact .inr ⟨_, rfl, Response.ne_tokens rfl⟩

theorem ready_dispatchPending {ids : List Uuid} :
    Ready (regime cfg) (execOp cfg) (Served cfg (.dispatchPending ids)) (serve cfg (.dispatchPending ids)) w := by
  rintro t - -
  refine served_last trivial rfl rfl ?_
  generalize (execOp cfg (.dispatchEvents _) t).1 = r
  cases r with
  | error e => exact .inl ⟨e, rfl⟩
  | ok _ => exact .inr ⟨_, rfl, Response.ne_tokens rfl⟩

end Routes

/-- Every route is ready where it is accepted. -/
theorem ready_serve (cfg : Config) (req : Request) {w : World} (hs : Sane w) (ha : w.accepts req = true) :
    Ready (regime cfg) (execOp cfg) (Served cfg req) (serve cfg req) w := by
  have htokens : ∀ p ∈ req.tokens, w.issued p = true := by
    simpa only [World.accepts, List.all_eq_true] using ha
  cases req with
  | createUser data => exact ready_createUser
  | login email password => exact ready_login
  | refresh cookie => exact ready_refresh hs (htokens _ (List.mem_singleton_self _))
  | logout header cookie => exact ready_logout hs htokens
  | deleteUser header cookie => exact ready_deleteUser hs htokens
  | updateUser header data => exact ready_updateUser hs
  | getUser header => exact ready_getUser hs
  | listUsers header params => exact ready_listUsers hs
  | verifyEmail token => exact ready_verifyEmail hs (htokens _ (List.mem_singleton_self _))
  | resendVerification email => exact ready_resendVerification
  | forgotPassword email => exact ready_forgotPassword
  | resetPassword token newPassword => exact ready_resetPassword hs (htokens _ (List.mem_singleton_self _))
  | isTokenRevoked token => exact ready_isTokenRevoked hs
  | cleanupRevokedTokens => exact ready_cleanupRevokedTokens
  | cleanupRefreshSessions => exact ready_cleanupRefreshSessions
  | cleanupOutbox => exact ready_cleanupOutbox
  | dispatchPending ids => exact ready_dispatchPending

/-! Runs of the service. -/

/-- The service verified, under any condition on its runs. -/
theorem service_sound (cfg : Config) (C : Service → Action Request Event → Prop) :
    Sound (service cfg) (regime cfg) C (fun _ => True) Sane (fun _ _ _ => True) where
  refl _ w hs := ⟨.refl w, hs⟩
  pool _ _ _ _ _ _ := trivial
  spawn _ req _ hs _ ha := ready_serve cfg req hs ha
  cond _ _ _ _ _ _ _ := trivial
  guar _ _ _ hs hg := hg.sane hs
  stable _ _ _ _ _ hs _ _ hg _ _ _ _ _ hr := ⟨hr.1.trans hg.evolves, hg.sane hs⟩
  env _ _ _ _ hs _ he :=
    ⟨World.event_sane hs he, fun _ _ _ _ hr => ⟨hr.1.trans (World.event_evolves he), World.event_sane hs he⟩⟩

/-- Every thread of the pool meets its obligations. -/
abbrev Served.Pool (cfg : Config) (s : Service) : Prop :=
  PoolOk (service cfg) (regime cfg) (fun _ => True) Sane (fun _ _ _ => True) s

section Runs
variable {cfg : Config} {C : Service → Action Request Event → Prop} {s s' : Service}

theorem served_start (now : Time) : Served.Pool cfg (System.start (World.init now)) :=
  PoolOk.start trivial (Sane.init now)

theorem served_steps (h : (service cfg).Steps C s s') (hs : Served.Pool cfg s) : Served.Pool cfg s' :=
  (service_sound cfg C).steps h hs

/-- What one step does to the world. -/
theorem step_world {a : Action Request Event} (hs : Served.Pool cfg s)
    (ha : (service cfg).step s a = some s') :
    ((∀ i, a ≠ .run i) ∧ (∀ e, a ≠ .env e) ∧ s'.state = s.state) ∨
      (∃ i op, a = .run i ∧ s.Waits i op ∧ Guarantee cfg op s.state s'.state) ∨
      ∃ e, a = .env e ∧ s.state.event e = some s'.state := by
  cases a with
  | spawn req =>
    left
    obtain ⟨hacc, rfl⟩ := System.step_spawn ha
    have hready : Ready (regime cfg) (service cfg).exec (Served cfg req) ((service cfg).program req) s.state :=
      ready_serve cfg req hs.2.1 hacc
    exact ⟨nofun, nofun, settle_of_none (ready_next hready)⟩
  | run i =>
    right; left
    obtain ⟨req, op, k, hi, -⟩ := System.step_run ha
    have hw : s.Waits i op := ⟨_, hi, rfl, rfl⟩
    exact ⟨i, op, rfl, hw, (service_sound cfg (fun _ _ => True)).fires hs trivial ha hw⟩
  | cancel i =>
    left
    obtain ⟨th, -, rfl⟩ := System.step_cancel ha
    exact ⟨nofun, nofun, rfl⟩
  | env e =>
    right; right
    obtain ⟨w', he, rfl⟩ := System.step_env ha
    exact ⟨e, rfl, he⟩

/-- An operation that fires is guaranteed. -/
theorem run_guarantee {i : Nat} {op : Op} (hs : Served.Pool cfg s) (hw : s.Waits i op)
    (ha : (service cfg).step s (.run i) = some s') : Guarantee cfg op s.state s'.state :=
  (service_sound cfg (fun _ _ => True)).fires hs trivial ha hw

theorem waits_guarantee {i : Nat} {op : Op} (hs : Served.Pool cfg s) (hw : s.Waits i op) :
    ∃ s', (service cfg).step s (.run i) = some s' ∧ Guarantee cfg op s.state s'.state := by
  have hstep : ∃ s', (service cfg).step s (.run i) = some s' := System.step_of_waits hw
  obtain ⟨s', ha⟩ := hstep
  exact ⟨s', ha, run_guarantee hs hw ha⟩

/-- What every guaranteed operation and every event keeps, every run keeps. -/
theorem run_invariant {P : World → Prop}
    (hop : ∀ (v : Service) i op w', Sane v.state → P v.state → C v (.run i) → v.Waits i op →
      Guarantee cfg op v.state w' → P w')
    (henv : ∀ (v : Service) e w', Sane v.state → P v.state → C v (.env e) → v.state.event e = some w' → P w')
    (h : (service cfg).Steps C s s') (hs : Served.Pool cfg s) (hP : P s.state) : P s'.state := by
  have key : Served.Pool cfg s' ∧ P s'.state := by
    refine h.invariant (J := fun v => Served.Pool cfg v ∧ P v.state) ?_ ⟨hs, hP⟩
    rintro v a v' ⟨hv, hPv⟩ hC ha
    refine ⟨(service_sound cfg C).step hv hC ha, ?_⟩
    rcases step_world hv ha with ⟨-, -, hstate⟩ | ⟨i, op, rfl, hw, hg⟩ | ⟨e, rfl, he⟩
    · rw [hstate]; exact hPv
    · exact hop v i op _ hv.2.1 hPv hC hw hg
    · exact henv v e _ hv.2.1 hPv hC he
  exact key.2

theorem steps_evolves (h : (service cfg).Steps C s s') (hs : Served.Pool cfg s) :
    Evolves s.state s'.state := by
  refine run_invariant (P := fun w => Evolves s.state w) ?_ ?_ h hs (.refl _)
  · intro v i op w' hv hP _ _ hg
    exact hP.trans hg.evolves
  · intro v e w' _ hP _ he
    exact hP.trans (World.event_evolves he)

end Runs

end FastiKit
