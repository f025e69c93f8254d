import FastiKit.Auth.TokenCheck
import FastiKit.Auth.RevokedTokens

/- What a logout does to everyone else.

   The access token names the user; the refresh cookie is decoded on its own, and its
   token is revoked whoever it was issued to. Only the session's row is looked up with
   the user's id (`stage_revoke`). So a logout with another user's refresh token in
   the cookie ends that user's refreshes (`logout_with_foreign_cookie`). A logout
   whose cookie is the user's own or has expired leaves everyone else's sessions,
   tokens and refreshes as they were, step by step and whatever runs beside it
   (`logout_spares_others`), if its token check, where it fills the blocklist from the
   table, tells no check to come anything new. -/
namespace FastiKit

open Interleave Relational

/-- The tokens that a logout may revoke. -/
def ownTokens (header : TokenPayload) (cookie : Option TokenPayload) : List TokenRef :=
  (header :: cookie.toList).map TokenPayload.ref

/-- An operation of a logout: a SET of one of its tokens or of one in the table, the
transaction with its own user and tokens, or one that writes nothing. -/
def LogoutStep (header : TokenPayload) (cookie : Option TokenPayload) (op : Op) (w : World) : Prop :=
  match op with
  | .setJti _ token => token ∈ ownTokens header cookie ∨ w.tabled token
  | .logout userId tokens _ => userId = header.sub ∧ ∀ token ∈ tokens, token ∈ ownTokens header cookie
  | op => Quiet op

/-- The table and Redis name the same tokens, but for expired ones. -/
def World.storesAgree (w : World) : Bool :=
  w.db.revokedTokens.rows.all (fun row =>
    decide (row.expiresAt ≤ w.now) || w.redis.jtis.contains ⟨row.jti, row.expiresAt⟩) &&
  w.redis.jtis.all (fun token =>
    decide (token.expiresAt ≤ w.now) || RevokedTokenRepository.exists_ w.db token.jti w.now)

/-- A check asks Redis and not the table. -/
def World.asksRedis (w : World) : Bool := decide (w.redis.fault = .up) && w.redis.ready

/-- What the operation copies from the table into Redis changes no answer: no check asks
Redis yet, or Redis has it already. -/
def Op.silent (header : TokenPayload) (cookie : Option TokenPayload) (w : World) : Op → Bool
  | .setJti _ token => (ownTokens header cookie).contains token || !w.asksRedis ||
      decide (token.expiresAt ≤ w.now) || w.redis.holds token.jti w.now
  | .setReady => decide (w.redis.fault ≠ .up) || w.redis.ready || w.storesAgree
  | _ => true

/-- The cookie of a logout is the user's own or has expired; and what the token check of
a logout copies into Redis changes no answer. -/
def sparing (s : Service) : Action Request Event → Bool
  | .spawn (.logout header (some cookie)) => cookie.sub = header.sub || !jwtDecode cookie s.state.now
  | .run i => (s.threads[i]?).all (fun th => match th.req with
    | .logout header cookie => th.code.next.all (Op.silent header cookie s.state)
    | _ => true)
  | _ => true

/-- The user's sessions, what is known of the user's tokens, and how a check of any of them
and a refresh with it are answered are the same in both worlds. Redis may know more of
what the table says. -/
structure Untouched (cfg : Config) (userId : Uuid) (w w' : World) : Prop where
  sessions : ∀ sid row, row.userId = userId →
    (w'.db.refreshSessions.get sid = some row ↔ w.db.refreshSessions.get sid = some row)
  rows : ∀ p, w.issued p = true → p.sub = userId → w.now < p.expiryDatetime →
    w'.db.revokedTokens.get p.jti = w.db.revokedTokens.get p.jti
  keys : ∀ p, w.issued p = true → p.sub = userId → w.now < p.expiryDatetime →
    (w.redis.holds p.jti w.now = true → w'.redis.holds p.jti w.now = true) ∧
      (w'.redis.holds p.jti w.now = true →
        w.redis.holds p.jti w.now = true ∨ RevokedTokenRepository.exists_ w.db p.jti w.now = true)
  checks : ∀ p, w.issued p = true → p.sub = userId →
    ((isTokenRevoked p).eval (execOp cfg) w').1 = ((isTokenRevoked p).eval (execOp cfg) w).1
  refresh : ∀ p, w.issued p = true → p.sub = userId →
    ((serve cfg (.refresh p)).eval (execOp cfg) w').1 = ((serve cfg (.refresh p)).eval (execOp cfg) w).1

/-! One step. -/

theorem exists_iff {db : Db} {jti : Uuid} {reading : Time} :
    RevokedTokenRepository.exists_ db jti reading = true ↔
      ∃ row, db.revokedTokens.get jti = some row ∧ reading < row.expiresAt := by
  simp only [RevokedTokenRepository.exists_, List.any_eq_true, Bool.and_eq_true, decide_eq_true_eq]
  refine ⟨?_, ?_⟩
  · intro h
    obtain ⟨row, hmem, rfl, hlive⟩ := h
    exact ⟨row, Table.get_of_mem hmem, hlive⟩
  · intro h
    obtain ⟨row, hget, hlive⟩ := h
    have hkey : row.jti = jti := Table.get_key hget
    exact ⟨row, Table.mem_of_get hget, hkey, hlive⟩

theorem Redis.holds_iff {r : Redis} {jti : Uuid} {reading : Time} :
    r.holds jti reading = true ↔ ∃ token ∈ r.jtis, token.jti = jti ∧ reading < token.expiresAt := by
  simp [holds]

/-- Where the stores agree, it does not matter which is asked. -/
theorem World.storesAgree_holds {w : World} (h : w.storesAgree = true) (jti : Uuid) :
    w.redis.holds jti w.now = RevokedTokenRepository.exists_ w.db jti w.now := by
  simp only [storesAgree, Bool.and_eq_true, List.all_eq_true, Bool.or_eq_true, decide_eq_true_eq,
    List.contains_iff_mem] at h
  obtain ⟨hrows, hjtis⟩ := h
  rw [Bool.eq_iff_iff, Redis.holds_iff, exists_iff]
  refine ⟨?_, ?_⟩
  · intro hheld
    obtain ⟨token, hmem, rfl, hlive⟩ := hheld
    rcases hjtis token hmem with hpast | hfound
    · exact absurd hlive (Int.not_lt.mpr hpast)
    · exact exists_iff.mp hfound
  · intro hfound
    obtain ⟨row, hget, hlive⟩ := hfound
    rcases hrows row (Table.mem_of_get hget) with hpast | hmem
    · exact absurd hlive (Int.not_lt.mpr hpast)
    · have hkey : row.jti = jti := Table.get_key hget
      exact ⟨⟨row.jti, row.expiresAt⟩, hmem, hkey, hlive⟩

theorem World.send_keeps {β : Type} (w : World) (command : Redis → Redis) {F : Redis → β}
    (h : ∀ r, F (command r) = F r) : F (w.send command).2.redis = F w.redis := by
  unfold send
  split
  · exact h _
  · rfl
  · exact h _

/-- What of Redis no operation but a SET can change. -/
theorem execOp_keeps {β : Type} (cfg : Config) (op : Op) (w : World) {F : Redis → β}
    (hjti : ∀ pipe token, op = .setJti pipe token → ∀ r : Redis, F { r with jtis := token :: r.jtis } = F r)
    (hseeding : ∀ (r : Redis) until_, F { r with seedingUntil := until_ } = F r)
    (hready : op = .setReady → ∀ r : Redis, F { r with ready := true } = F r) :
    F (execOp cfg op w).2.redis = F w.redis := by
  cases op with
  | setJti pipe token => exact w.send_keeps _ (hjti pipe token rfl)
  | setReady => exact w.send_keeps _ (hready rfl)
  | setSeeding =>
    simp only [execOp]
    split
    · rfl
    · exact w.send_keeps _ (fun r => hseeding r _)
  | _ => rfl

/-- What a SET leaves of the jtis: they are as they were, or one more. -/
theorem World.send_setJti (w : World) (token : TokenRef) :
    (w.send (fun r => { r with jtis := token :: r.jtis })).2.redis.jtis = w.redis.jtis ∨
      (w.send (fun r => { r with jtis := token :: r.jtis })).2.redis.jtis = token :: w.redis.jtis := by
  unfold send
  split
  · exact .inr rfl
  · exact .inl rfl
  · exact .inr rfl

/-- One key more. -/
theorem Redis.holds_cons {r r' : Redis} {token : TokenRef} (jti : Uuid) (reading : Time)
    (h : r'.jtis = r.jtis ∨ r'.jtis = token :: r.jtis) : (r.holds jti reading = true → r'.holds jti reading = true) ∧
      (r'.holds jti reading = true →
        r.holds jti reading = true ∨ token.jti = jti ∧ reading < token.expiresAt) := by
  rcases h with hsame | hmore
  · simp only [holds, hsame]
    exact ⟨fun hheld => hheld, fun hheld => .inl hheld⟩
  · simp only [holds, hmore, List.any_cons, Bool.or_eq_true, Bool.and_eq_true, decide_eq_true_eq]
    tauto

section Step
variable {cfg : Config} {header : TokenPayload} {cookie : Option TokenPayload} {op : Op} {w : World}

/-- None of the logout's own tokens has the jti. -/
def Foreign (header : TokenPayload) (cookie : Option TokenPayload) (jti : Uuid) : Prop :=
  ∀ token ∈ ownTokens header cookie, token.jti ≠ jti

/-- The table's row of another token. -/
theorem LogoutStep.row (h : LogoutStep header cookie op w) {jti : Uuid} (hjti : Foreign header cookie jti) :
    (execOp cfg op w).2.db.revokedTokens.get jti = w.db.revokedTokens.get jti := by
  cases op with
  | logout userId tokens sid =>
    have hadd : (w.db.addAll tokens).revokedTokens.get jti = w.db.revokedTokens.get jti := by
      have hnone : tokens.find? (fun token => token.jti = jti) = none := by
        rw [List.find?_eq_none]
        intro token hmem hkey
        exact hjti token (h.2 token hmem) (of_decide_eq_true hkey)
      rw [Db.get_addAll, hnone]
      exact Option.or_none
    simp only [execOp, World.transact, transaction_logout]
    cases sid with
    | none => exact hadd
    | some sid => exact hadd
  | setJti pipe token => rw [Quiet.db rfl cfg w]
  | _ => rw [Quiet.db h cfg w]

variable (cfg) in
/-- Redis' key of another token: it stays, and a new one is a copy of a row. -/
theorem LogoutStep.held (h : LogoutStep header cookie op w) {p : TokenPayload} (hp : Foreign header cookie p.jti) :
    (w.redis.holds p.jti w.now = true → (execOp cfg op w).2.redis.holds p.jti w.now = true) ∧
      ((execOp cfg op w).2.redis.holds p.jti w.now = true → w.redis.holds p.jti w.now = true ∨
        RevokedTokenRepository.exists_ w.db p.jti w.now = true ∧ ∃ pipe token, op = .setJti pipe token ∧
          token.jti = p.jti ∧ token ∉ ownTokens header cookie ∧ w.now < token.expiresAt) := by
  cases op with
  | setJti pipe token =>
    obtain ⟨hkept, hnew⟩ := Redis.holds_cons p.jti w.now (w.send_setJti token)
    refine ⟨hkept, ?_⟩
    intro hheld
    rcases hnew hheld with hold | ⟨hkey, hlive⟩
    · exact .inl hold
    · right
      have hforeign : token ∉ ownTokens header cookie := fun hmem => hp token hmem hkey
      refine ⟨?_, pipe, token, rfl, hkey, hforeign, hlive⟩
      rcases h with hmem | hpast | hrow
      · exact absurd hmem hforeign
      · exact absurd hlive (Int.not_lt.mpr hpast)
      · rw [← hkey]
        exact exists_iff.mpr ⟨_, hrow, hlive⟩
  | _ =>
    have hsame : ∀ {op : Op}, (∀ pipe token, op ≠ .setJti pipe token) →
        (execOp cfg op w).2.redis.holds p.jti w.now = w.redis.holds p.jti w.now := by
      intro op hne
      refine execOp_keeps cfg op w (F := fun r => r.holds p.jti w.now) ?_ (fun _ _ => rfl) (fun _ _ => rfl)
      exact fun pipe token heq => absurd heq (hne pipe token)
    rw [hsame (fun _ _ heq => by cases heq)]
    exact ⟨fun hheld => hheld, fun hheld => .inl hheld⟩

/-- So the check of another token answers as before. -/
theorem LogoutStep.revocation (h : LogoutStep header cookie op w) (hc : op.silent header cookie w = true)
    {p : TokenPayload} (hp : Foreign header cookie p.jti) :
    (execOp cfg op w).2.revocation p.jti = w.revocation p.jti := by
  have hnow := (execOp_frame cfg op w).1
  have hfault : (execOp cfg op w).2.redis.fault = w.redis.fault :=
    execOp_keeps cfg op w (F := Redis.fault) (fun _ _ _ _ => rfl) (fun _ _ => rfl) (fun _ _ => rfl)
  have hfound : RevokedTokenRepository.exists_ (execOp cfg op w).2.db p.jti w.now =
      RevokedTokenRepository.exists_ w.db p.jti w.now := by
    rw [Bool.eq_iff_iff, exists_iff, exists_iff, h.row hp]
  rw [World.revocation, World.revocation, hnow, hfault, hfound]
  by_cases hop : op = .setReady
  · subst hop
    have hheld : (execOp cfg .setReady w).2.redis.holds p.jti w.now = w.redis.holds p.jti w.now :=
      execOp_keeps cfg .setReady w (F := fun r => r.holds p.jti w.now) (fun _ _ heq => by cases heq)
        (fun _ _ => rfl) (fun _ _ => rfl)
    rw [hheld]
    simp only [Op.silent, Bool.or_eq_true, decide_eq_true_eq] at hc
    rcases hc with (hdown | hready) | hagree
    · rw [if_neg (fun hup => hdown hup.1), if_neg (fun hup => hdown hup.1)]
    · -- READY was there
      have hready' : (execOp cfg .setReady w).2.redis.ready = true := by
        simp only [execOp, World.send]
        split
        · rfl
        · exact hready
        · rfl
      rw [hready, hready']
    · rw [World.storesAgree_holds hagree]
      split <;> split <;> rfl
  · have hready : (execOp cfg op w).2.redis.ready = w.redis.ready :=
      execOp_keeps cfg op w (F := Redis.ready) (fun _ _ _ _ => rfl) (fun _ _ => rfl) (fun heq => absurd heq hop)
    rw [hready]
    split
    · next hasked =>
      -- Redis is asked, and has what is copied
      obtain ⟨hkept, hnew⟩ := h.held cfg hp
      rw [Bool.eq_iff_iff]
      refine ⟨?_, hkept⟩
      intro hheld
      rcases hnew hheld with hold | ⟨-, pipe, token, rfl, hkey, hforeign, hlive⟩
      · exact hold
      · have hasks : w.asksRedis = true := by simp [World.asksRedis, hasked]
        simpa [Op.silent, hforeign, hasks, Int.not_le.mpr hlive, hkey] using hc
    · rfl

theorem LogoutStep.users (h : LogoutStep header cookie op w) : (execOp cfg op w).2.db.users = w.db.users := by
  cases op with
  | logout userId tokens sid =>
    simp only [execOp, World.transact, transaction_logout]
    cases sid with
    | none => exact (Db.addAll_frame tokens w.db).1
    | some sid => exact (Db.addAll_frame tokens w.db).1
  | setJti pipe token => rw [Quiet.db rfl cfg w]
  | _ => rw [Quiet.db h cfg w]

/-- A session of another user is not revoked. -/
theorem LogoutStep.session (h : LogoutStep header cookie op w) {sid : Uuid} {row : RefreshSession}
    (hne : row.userId ≠ header.sub) :
    (execOp cfg op w).2.db.refreshSessions.get sid = some row ↔ w.db.refreshSessions.get sid = some row := by
  cases op with
  | logout userId tokens refreshSessionId =>
    obtain ⟨rfl, -⟩ := h
    simp only [execOp, World.transact, transaction_logout]
    cases refreshSessionId with
    | none => rw [Db.logout, (Db.addAll_frame tokens w.db).2.1]
    | some id =>
      rw [Db.logout, Db.get_revokeWhere, (Db.addAll_frame tokens w.db).2.1]
      refine ⟨?_, ?_⟩
      · intro hget
        obtain ⟨r, hr, hrow⟩ := Option.map_eq_some_iff.mp hget
        rw [hr]
        split at hrow
        · next hcond =>
          -- `stage_revoke` asks for the user's own id
          simp only [Bool.and_eq_true, decide_eq_true_eq] at hcond
          rw [← hrow] at hne
          exact absurd hcond.1.2 hne
        · rw [hrow]
      · intro hget
        rw [hget, Option.map_some, if_neg]
        simp [hne]
  | setJti pipe token => rw [Quiet.db rfl cfg w]
  | _ => rw [Quiet.db h cfg w]

theorem LogoutStep.untouched {w' : World} {userId : Uuid} (hs : Sane w) (hg : Guarantee cfg op w w')
    (h : LogoutStep header cookie op w) (hc : op.silent header cookie w = true) (hne : userId ≠ header.sub)
    (hforeign : ∀ p, w.issued p = true → p.sub = userId → w.now < p.expiryDatetime → Foreign header cookie p.jti) :
    Untouched cfg userId w w' := by
  have hnow : (execOp cfg op w).2.now = w.now := (execOp_frame cfg op w).1
  obtain ⟨-, -, hnow', -, -⟩ := hg.effect
  have hsessions : ∀ sid row, row.userId = userId →
      (w'.db.refreshSessions.get sid = some row ↔ w.db.refreshSessions.get sid = some row) := by
    intro sid row howner
    rw [hg.db]
    exact h.session (by rw [howner]; exact hne)
  have hrevocation : ∀ p, w.issued p = true → p.sub = userId → jwtDecode p w.now = true →
      w'.revocation p.jti = w.revocation p.jti := by
    intro p hp hsub hlive
    have hsame : w'.revocation p.jti = (execOp cfg op w).2.revocation p.jti := by
      rw [World.revocation, World.revocation, hg.redis, hg.db, hnow', hnow]
    rw [hsame]
    exact h.revocation hc (hforeign p hp hsub (of_decide_eq_true hlive))
  refine ⟨hsessions, ?_, ?_, ?_, ?_⟩
  · intro p hp hsub hlive
    rw [hg.db]
    exact h.row (hforeign p hp hsub hlive)
  · intro p hp hsub hlive
    obtain ⟨hkept, hnew⟩ := h.held cfg (hforeign p hp hsub hlive)
    rw [hg.redis]
    exact ⟨hkept, fun hheld => (hnew hheld).imp_right And.left⟩
  · intro p hp hsub
    rw [eval_isTokenRevoked, eval_isTokenRevoked, hnow']
    cases hlive : jwtDecode p w.now with
    | false => rfl
    | true => rw [if_pos rfl, if_pos rfl, hrevocation p hp hsub hlive]
  · intro p hp hsub
    apply refresh_outcome
    refine ⟨hnow', hrevocation p hp hsub, ?_, ?_⟩
    · rw [hg.db, h.users]
    · -- a token's session is its user's, before the step and after it
      intro sid gen hses
      have hsigned := hs.signed_of_session hp (by rw [hses]; rfl)
      have howner := ((hs.signed p hsigned).2 sid gen hses).2
      have howner' := (((hg.sane hs).signed p (hg.evolves.signed p hsigned)).2 sid gen hses).2
      cases hget : w'.db.refreshSessions.get sid with
      | some row => exact ((hsessions sid row ((howner' row hget).1.trans hsub)).mp hget).symm
      | none =>
        cases hget₀ : w.db.refreshSessions.get sid with
        | none => rfl
        | some row =>
          have hkept := (hsessions sid row ((howner row hget₀).1.trans hsub)).mpr hget₀
          rw [hget] at hkept
          cases hkept

end Step

/-! Runs. -/

section Runs
variable {cfg : Config} {now : Time} {s s' : Service}

/-- What a logout was made with: issued tokens, the cookie's the user's own or expired. -/
def Spared (w : World) (header : TokenPayload) (cookie : Option TokenPayload) : Prop :=
  w.issued header = true ∧ ∀ refreshToken, cookie = some refreshToken → w.issued refreshToken = true ∧
    (refreshToken.sub = header.sub ∨ refreshToken.expiryDatetime ≤ w.now)

theorem Spared.evolves {w v : World} {header : TokenPayload} {cookie : Option TokenPayload}
    (h : Spared w header cookie) (hev : Evolves w v) : Spared v header cookie := by
  refine ⟨hev.issued h.1, ?_⟩
  intro refreshToken hcookie
  obtain ⟨hissued, howner⟩ := h.2 refreshToken hcookie
  exact ⟨hev.issued hissued, howner.imp_right (fun hpast => Int.le_trans hpast hev.now)⟩

theorem Spared.of_spawn {header : TokenPayload} {cookie : Option TokenPayload}
    (hc : sparing s (.spawn (.logout header cookie)) = true)
    (ha : s.state.accepts (.logout header cookie) = true) : Spared s.state header cookie := by
  have hissued : ∀ p ∈ header :: cookie.toList, s.state.issued p = true := List.all_eq_true.mp ha
  refine ⟨hissued header List.mem_cons_self, ?_⟩
  intro refreshToken hcookie
  subst hcookie
  refine ⟨hissued refreshToken (List.mem_cons_of_mem _ List.mem_cons_self), ?_⟩
  simpa [sparing, jwtDecode] using hc

/-- Every logout is spared. -/
def AllSpared (s : Service) : Prop :=
  ∀ (i : Nat) (th : Thread Op Op.Res Err Response Request) (header : TokenPayload) (cookie : Option TokenPayload),
    s.threads[i]? = some th → th.req = .logout header cookie → Spared s.state header cookie

theorem spared_steps (h : StepsIf cfg sparing (System.start (World.init now)) s) : AllSpared s := by
  have key : Served.Pool cfg s ∧ AllSpared s := by
    refine h.invariant (J := fun v => Served.Pool cfg v ∧ AllSpared v) ?_ ⟨served_start now, ?_⟩
    · intro v a v' hv hc ha
      have hone : StepsIf cfg sparing v v' := .single ⟨a, hc, ha⟩
      have hev := steps_evolves hone hv.1
      refine ⟨(service_sound cfg (fun _ _ => True)).step hv.1 trivial ha, ?_⟩
      intro i th header cookie hth hreq
      rcases step_request ha hth with ⟨th₀, hth₀, hreq₀⟩ | ⟨-, rfl⟩
      · exact (hv.2 i th₀ header cookie hth₀ (hreq₀.trans hreq)).evolves hev
      · rw [hreq] at hc ha
        obtain ⟨hadm, -⟩ := System.step_spawn ha
        exact (Spared.of_spawn hc hadm).evolves hev
    · intro i th header cookie hth
      cases hth
  exact key.2

/-- Every step of a logout is one: it calls no other transaction than its own, revokes
only what it carries, and SETs only that and what is in the table. -/
theorem logoutStep_run (hs : Reaches cfg (System.start (World.init now)) s) {i : Nat}
    {header : TokenPayload} {cookie : Option TokenPayload}
    {th : Thread Op Op.Res Err Response Request} (hth : s.threads[i]? = some th)
    (hreq : th.req = .logout header cookie) {op : Op} (hw : s.Waits i op) : LogoutStep header cookie op s.state := by
  obtain ⟨th', hth', hcalls⟩ := waits_calls hs hw
  rw [hth] at hth'
  obtain rfl := Option.some.inj hth'
  have hwithin : System.Within RevokesOwn (fun _ _ => True) s :=
    hs.within (fun req => serve_revokes cfg req) (fun th hth => by cases hth)
  obtain ⟨th', hth', hown⟩ := hwithin.waits hw
  rw [hth] at hth'
  obtain rfl := Option.some.inj hth'
  rw [hreq] at hcalls hown
  cases op with
  | setJti pipe token =>
    obtain ⟨th', hth', -, hnext⟩ := hw
    rw [hth] at hth'
    obtain rfl := Option.some.inj hth'
    have hset := sets_tabled hs hth hnext
    rw [hreq] at hset
    rcases hset with htabled | hcarried
    · exact .inr htabled
    · exact .inl (List.mem_map.mpr hcarried)
  | logout userId tokens sid => exact ⟨hcalls, fun token htoken => List.mem_map.mpr (hown token htoken)⟩
  | _ => exact hcalls

/-- A token that the cookie or the header shares a jti with is that token. -/
theorem Spared.foreign (hs : StepsIf cfg sparing (System.start (World.init now)) s) {header : TokenPayload}
    {cookie : Option TokenPayload} (h : Spared s.state header cookie) {p : TokenPayload}
    (hp : s.state.issued p = true) (hne : p.sub ≠ header.sub) (hlive : s.state.now < p.expiryDatetime) :
    Foreign header cookie p.jti := by
  obtain ⟨gone, -, -, hinj⟩ := distinctJtis_steps hs
  intro token hmem hkey
  obtain ⟨q, hq, rfl⟩ := List.mem_map.mp hmem
  rcases List.mem_cons.mp hq with rfl | hcookie
  · exact hne (congrArg TokenPayload.sub (hinj hp h.1 hkey.symm))
  · obtain ⟨hissued, howner⟩ := h.2 q (Option.mem_toList.mp hcookie)
    have hsame : q = p := hinj hissued hp hkey
    rcases howner with hown | hpast
    · exact hne (hsame ▸ hown)
    · exact absurd hlive (Int.not_lt.mpr (hsame ▸ hpast))

end Runs

/-- A logout of one user leaves every other user alone, if its cookie is the user's own or
has expired: whatever else is underway, no step of it changes another user's sessions,
what either store says of another user's tokens, or how a refresh with one of them is
answered. -/
theorem logout_spares_others (cfg : Config) (now : Time) (s s' : Service) (i : Nat) (header : TokenPayload)
    (cookie : Option TokenPayload) (userId : Uuid)
    (hs : StepsIf cfg sparing (System.start (World.init now)) s) (hc : sparing s (.run i) = true)
    (hreq : s.threads[i]?.map Thread.req = some (.logout header cookie))
    (hstep : (service cfg).step s (.run i) = some s') (hne : userId ≠ header.sub) :
    Untouched cfg userId s.state s'.state := by
  have hserved := served_steps hs (served_start now)
  obtain ⟨req, op, k, hi, -⟩ := System.step_run hstep
  have hw : s.Waits i op := ⟨_, hi, rfl, rfl⟩
  have hrequest : req = .logout header cookie := by
    rw [hi] at hreq
    exact Option.some.inj hreq
  have hsilent : op.silent header cookie s.state = true := by
    simpa only [sparing, hi, hrequest, Option.all_some, Prog.next] using hc
  have hspared := spared_steps hs i _ header cookie hi hrequest
  have hreach : Reaches cfg (System.start (World.init now)) s := hs.mono fun _ _ _ => trivial
  refine (logoutStep_run hreach hi hrequest hw).untouched hserved.2.1 (run_guarantee hserved hw hstep) hsilent hne ?_
  intro p hp hsub hlive
  exact hspared.foreign hs hp (by rw [hsub]; exact hne) hlive

/-! Two users. -/

/-- A second user registers, verifies the address and logs in. -/
def signInBoth : List (Action Request Event) :=
  signIn ++ serially 3 5 (.createUser ⟨"Bob", "bob@example.org", "second"⟩) ++
    serially 4 5 (.verifyEmail { sub := 7, type := .emailVerify, jti := 8, exp := 86400, session := none }) ++
    serially 5 3 (.login "bob@example.org" "second")

/-- The refresh token of the second user's login. -/
def sampleForeign : TokenPayload :=
  { sub := 7, type := .refresh, jti := 13, exp := 1728000, session := some (11, 0) }

/-- The commit of a logout with the user's own cookie, the blocklist being ready. -/
theorem logout_spares_others_sample : ∃ s s', StepsIf .sample sparing (System.start (World.init 0)) s ∧
    s.Waits 7 (.logout 0 [sampleAccess.ref, (sampleRefresh 6 0).ref] (some 4)) ∧
    (service .sample).step s (.run 7) = some s' ∧ s.state.issued sampleForeign = true ∧
    Untouched .sample 7 s.state s'.state := by
  have hrun : ((service .sample).runIf sparing (System.start (World.init 0))
      (signInBoth ++ serially 6 11 (.isTokenRevoked sampleAccess) ++
        serially 7 7 (.logout sampleAccess (some (sampleRefresh 6 0))))).any (fun s =>
          ((service .sample).step s (.run 7)).isSome && decide (
            s.pending 7 = some (.logout 0 [sampleAccess.ref, (sampleRefresh 6 0).ref] (some 4)) ∧
              sparing s (.run 7) = true ∧ s.state.issued sampleForeign = true ∧
              s.threads[7]?.map Thread.req = some (.logout sampleAccess (some (sampleRefresh 6 0))))) = true := by
    decide +kernel
  obtain ⟨s, hs, hrun⟩ := (Option.any_eq_true _ _).mp hrun
  obtain ⟨hstep, hfacts⟩ := (Bool.and_eq_true _ _).mp hrun
  obtain ⟨s', hstep⟩ := Option.isSome_iff_exists.mp hstep
  obtain ⟨hop, hc, hissued, hreq⟩ := of_decide_eq_true hfacts
  have hreach : StepsIf .sample sparing (System.start (World.init 0)) s := System.steps_of_runIf _ _ _ hs
  exact ⟨s, s', hreach, Pool.waits_of_pending hop, hstep, hissued,
    logout_spares_others .sample 0 s s' 7 sampleAccess _ 7 hreach hc hreq hstep (by decide)⟩

/-- A logout with the refresh token of another user in the cookie: its SET turns that
user's refresh away. -/
theorem logout_with_foreign_cookie : ¬ ∀ (now : Time) (s s' : Service) (i : Nat) (header : TokenPayload)
    (cookie : Option TokenPayload) (userId : Uuid), Reaches .sample (System.start (World.init now)) s →
    s.threads[i]?.map Thread.req = some (.logout header cookie) →
    (service .sample).step s (.run i) = some s' → userId ≠ header.sub →
    Untouched .sample userId s.state s'.state := by
  intro h
  have hrun : ((service .sample).run (System.start (World.init 0))
      (signInBoth ++ serially 6 15 (.logout sampleAccess (some sampleForeign)))).any (fun s =>
        ((service .sample).step s (.run 6)).any (fun s' => decide (
          s.threads[6]?.map Thread.req = some (.logout sampleAccess (some sampleForeign)) ∧
            s.state.issued sampleForeign = true ∧
            ((serve .sample (.refresh sampleForeign)).eval (execOp .sample) s'.state).1 ≠
              ((serve .sample (.refresh sampleForeign)).eval (execOp .sample) s.state).1))) = true := by
    decide +kernel
  obtain ⟨s, hs, hrun⟩ := (Option.any_eq_true _ _).mp hrun
  obtain ⟨s', hstep, hfacts⟩ := (Option.any_eq_true _ _).mp hrun
  obtain ⟨hreq, hissued, hchanged⟩ := of_decide_eq_true hfacts
  have hreach : Reaches .sample (System.start (World.init 0)) s := System.steps_of_run (fun _ _ => trivial) _ _ _ hs
  exact hchanged ((h 0 s s' 6 sampleAccess (some sampleForeign) 7 hreach hreq hstep (by decide)).refresh
    sampleForeign hissued rfl)

end FastiKit
