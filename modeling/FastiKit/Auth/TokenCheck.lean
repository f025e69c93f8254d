import FastiKit.Auth.ReuseDetection

/- The check of a token, and a refresh, when nothing runs beside them. The check asks
   Redis if the blocklist is ready and the table if not, whatever it then does to fill
   the blocklist (`eval_isTokenRevoked`); so the answer to a refresh depends on what
   the check says of its token, and on the rows of its user and its session
   (`refresh_outcome`). -/
namespace FastiKit

open Interleave Relational

/-- The answer of `is_token_revoked`, for a token that decodes. -/
def World.revocation (w : World) (jti : Uuid) : Bool :=
  if w.redis.fault = .up ∧ w.redis.ready = true then w.redis.holds jti w.now
  else RevokedTokenRepository.exists_ w.db jti w.now

section Alone
variable (cfg : Config)

theorem eval_of_uses {α : Type} {Q : Op → Prop} {L : Except Err α → Prop} {p : Api α} (h : p.Uses Q L)
    (w : World) : L (p.eval (execOp cfg) w).1 := by
  induction p generalizing w with
  | ret a => exact h
  | raise e => exact h
  | call op k ih => exact ih _ (h.2 _) _

/-- Quiet operations leave the tables and the clock alone. -/
theorem eval_quiet {α : Type} {L : Except Err α → Prop} {p : Api α} (h : p.Uses Quiet L) (w : World) :
    (p.eval (execOp cfg) w).2.db = w.db ∧ (p.eval (execOp cfg) w).2.now = w.now := by
  refine Prog.eval_rel (execOp cfg) (Q := Quiet) (L := L)
    (R := fun v v' : World => v'.db = v.db ∧ v'.now = v.now) ?_ ?_ ?_ p w h
  · exact fun v => ⟨rfl, rfl⟩
  · intro a b c hab hbc
    exact ⟨hbc.1.trans hab.1, hbc.2.trans hab.2⟩
  · intro op v hq
    exact ⟨hq.db cfg v, (execOp_frame cfg op v).1⟩

/-- Filling the blocklist does not change the answer. -/
theorem eval_fallback (revoked : Bool) (w : World) :
    ((do
      if ← TokenBlocklist.claimSeeding then
        let active : List TokenRef ← api (.listActive (← now))
        TokenBlocklist.seed active
      return revoked : Api Bool).eval (execOp cfg) w).1 = .ok revoked := by
  refine eval_of_uses cfg (Q := Quiet) (L := fun out => out = .ok revoked) ?_ w
  rw [Prog.uses_bind]
  refine claimSeeding_uses.mono (fun _ h => h) ?_
  intro out hout
  obtain ⟨claimed, rfl⟩ := hout
  cases claimed with
  | false => rfl
  | true =>
    refine ⟨rfl, fun now => ⟨rfl, fun active => ?_⟩⟩
    show Prog.Uses _ _ (TokenBlocklist.seed active >>= fun _ => return revoked)
    rw [Prog.uses_bind]
    refine (seed_uses active).mono (fun _ h => h) ?_
    intro out hout
    subst hout
    rfl

theorem eval_lookup (jti : Uuid) (w : World) : (TokenBlocklist.lookup jti).eval (execOp cfg) w =
    (.ok (if w.redis.fault = .up ∧ w.redis.ready = true then some (w.redis.holds jti w.now) else none), w) := by
  simp only [TokenBlocklist.lookup, api, Prog.perform_bind, Prog.eval_call, execOp]
  by_cases hfault : w.redis.fault = .up
  · cases hready : w.redis.ready <;> simp [hfault]
  · simp [hfault]

theorem eval_isTokenRevoked (token : TokenPayload) (w : World) :
    ((isTokenRevoked token).eval (execOp cfg) w).1 =
      if jwtDecode token w.now then .ok (w.revocation token.jti) else .error (.authx "JWTDecodeError") := by
  simp only [isTokenRevoked, now, api, Prog.perform_bind, Prog.eval_call, execOp]
  by_cases hlive : jwtDecode token w.now = true
  · simp only [hlive, Bool.not_true, Bool.false_eq_true, if_false, if_true, Prog.eval_bind, eval_lookup,
      World.revocation]
    by_cases hup : w.redis.fault = .up ∧ w.redis.ready = true
    · rw [if_pos hup, if_pos hup]
      rfl
    · rw [if_neg hup, if_neg hup]
      exact eval_fallback cfg _ w
  · simp only [Bool.not_eq_true] at hlive
    simp only [hlive, Bool.not_false, if_true]
    rfl

theorem eval_tokenRequired (type : TokenType) (token : TokenPayload) (w : World) :
    ((tokenRequired type token).eval (execOp cfg) w).1 =
      if !jwtDecode token w.now then .error (.authx "JWTDecodeError")
      else if w.revocation token.jti then .error (.authx "RevokedTokenError")
      else if token.type = type then .ok token
      else .error (.authx (if type = .refresh then "RefreshTokenRequiredError" else "AccessTokenRequiredError")) := by
  have hcheck := eval_isTokenRevoked cfg token w
  obtain ⟨-, hnow⟩ := eval_quiet cfg (isTokenRevoked_uses token) w
  rw [tokenRequired, Prog.eval_bind]
  generalize (isTokenRevoked token).eval (execOp cfg) w = answer at hcheck hnow
  obtain ⟨out, v⟩ := answer
  simp only at hcheck hnow
  subst hcheck
  cases hlive : jwtDecode token w.now with
  | false => rfl
  | true =>
    simp only [if_true, Bool.not_true, Bool.false_eq_true, if_false]
    cases hrevoked : w.revocation token.jti with
    | true => rfl
    | false =>
      simp only [Bool.false_eq_true, if_false, now, api, Prog.perform_bind, Prog.eval_call, execOp, hnow, hlive,
        Bool.not_true]
      split <;> rfl

/-- What `AuthService.refresh` comes to, for its user's and its session's rows. -/
def refreshOutcome (userId : Uuid) (generation : Nat) (now : Time) (user : Option User)
    (row : Option RefreshSession) : Except Err (User × RefreshSession) :=
  match user with
  | none => .error (.domain .invalidCredentials)
  | some user =>
    if !user.isActive || !user.isVerified then .error (.domain .invalidCredentials)
    else match row.filter (RefreshSession.rotatable userId generation now), row with
      | some row, _ => .ok (user, row.rotated now)
      | none, none => .error (.domain .invalidRefreshToken)
      | none, some current =>
        if !AuthService.isLive current userId now then .error (.domain .invalidRefreshToken)
        else if AuthService.wasJustRotatedFrom cfg current generation now then
          .error (.domain (.conflict "Refresh token was just rotated; retry with the latest cookie"))
        else .error (.domain .invalidRefreshToken)

/-- The UPDATE answers for the row it finds, and one that finds none changes nothing. -/
theorem eval_rotate (sid userId : Uuid) (generation : Nat) (reading : Time) (w : World) :
    (execOp cfg (.rotate sid userId generation reading) w).1 =
        .ok (((w.db.refreshSessions.get sid).filter (RefreshSession.rotatable userId generation reading)).map
          (RefreshSession.rotated reading)) ∧
      (execOp cfg (.rotate sid userId generation reading) w).2.now = w.now ∧
      ((execOp cfg (.rotate sid userId generation reading) w).1 = .ok none →
        (execOp cfg (.rotate sid userId generation reading) w).2.db = w.db) := by
  refine ⟨rfl, rfl, ?_⟩
  intro hnone
  rcases transaction_rotate cfg sid userId generation reading w.db with ⟨-, h⟩ | ⟨row, -, -, h⟩
  · exact congrArg Prod.snd h
  · have hsome : (execOp cfg (.rotate sid userId generation reading) w).1 = .ok (some (row.rotated reading)) :=
      congrArg Prod.fst h
    rw [hsome] at hnone
    cases hnone

theorem eval_refresh (userId sid : Uuid) (generation : Nat) (w : World) :
    ((AuthService.refresh cfg userId sid generation).eval (execOp cfg) w).1 =
      refreshOutcome cfg userId generation w.now (w.db.users.get userId) (w.db.refreshSessions.get sid) := by
  have hget : execOp cfg (.getUser userId true) w = (w.db.users.get userId, w) := rfl
  have hclock : ∀ v, execOp cfg .clock v = (v.now, v) := fun _ => rfl
  have hsession : ∀ v, execOp cfg (.getSession sid) v = (v.db.refreshSessions.get sid, v) := fun _ => rfl
  obtain ⟨hrotate, hnow, hdb⟩ := eval_rotate cfg sid userId generation w.now w
  simp only [AuthService.refresh, now, api, Prog.perform_bind, Prog.eval_call, hget]
  cases w.db.users.get userId with
  | none => rfl
  | some user =>
    simp only [refreshOutcome]
    split
    · rfl
    · show Prod.fst (Prog.eval _ (orRaise (execOp cfg (.rotate sid userId generation w.now) w).1 >>= _)
        (execOp cfg (.rotate sid userId generation w.now) w).2) = _
      generalize execOp cfg (.rotate sid userId generation w.now) w = answer at hrotate hnow hdb ⊢
      obtain ⟨r, v⟩ := answer
      simp only at hrotate hnow hdb ⊢
      subst hrotate
      cases hfilter : (w.db.refreshSessions.get sid).filter (RefreshSession.rotatable userId generation w.now) with
      | some row => rfl
      | none =>
        rw [hfilter] at hdb
        rw [← hdb rfl, ← hnow]
        simp only [Option.map_none, orRaise, Prog.pure_eq, Prog.ret_bind, Prog.eval_call, hsession]
        cases v.db.refreshSessions.get sid with
        | none => rfl
        | some current =>
          simp only [Prog.eval_call, hclock]
          split
          · rfl
          · simp only [Prog.eval_call, hclock]
            split
            · rfl
            · rfl

/-- Everything a refresh with the token depends on is as it was. -/
structure SeesSame (token : TokenPayload) (w w' : World) : Prop where
  now : w'.now = w.now
  revocation : jwtDecode token w.now = true → w'.revocation token.jti = w.revocation token.jti
  user : w'.db.users.get token.sub = w.db.users.get token.sub
  session : ∀ sid gen, token.session = some (sid, gen) →
    w'.db.refreshSessions.get sid = w.db.refreshSessions.get sid

/-- Then a refresh with it is answered as it would have been. -/
theorem refresh_outcome {token : TokenPayload} {w w' : World} (h : SeesSame token w w') :
    ((serve cfg (.refresh token)).eval (execOp cfg) w').1 = ((serve cfg (.refresh token)).eval (execOp cfg) w).1 := by
  have hcheck : ((tokenRequired .refresh token).eval (execOp cfg) w').1 =
      ((tokenRequired .refresh token).eval (execOp cfg) w).1 := by
    rw [eval_tokenRequired, eval_tokenRequired, h.now]
    cases hlive : jwtDecode token w.now with
    | false => rfl
    | true => rw [h.revocation hlive]
  have hquiet := eval_quiet cfg (tokenRequired_uses .refresh token) w
  have hquiet' := eval_quiet cfg (tokenRequired_uses .refresh token) w'
  have hpayload := (eval_of_uses cfg (tokenRequired_uses .refresh token) w).1
  rw [serve, Prog.eval_bind, Prog.eval_bind]
  generalize (tokenRequired .refresh token).eval (execOp cfg) w = answer at hcheck hquiet hpayload ⊢
  generalize (tokenRequired .refresh token).eval (execOp cfg) w' = answer' at hcheck hquiet' ⊢
  obtain ⟨out, v⟩ := answer
  obtain ⟨out', v'⟩ := answer'
  simp only at hcheck hquiet hquiet' hpayload
  subst hcheck
  cases out' with
  | error e => rfl
  | ok payload =>
    obtain ⟨rfl, -⟩ := hpayload payload rfl
    simp only [refreshSessionClaims]
    cases hclaims : payload.session with
    | none => rfl
    | some claims =>
      obtain ⟨sid, gen⟩ := claims
      have hrefresh : ((AuthService.refresh cfg payload.sub sid gen).eval (execOp cfg) v').1 =
          ((AuthService.refresh cfg payload.sub sid gen).eval (execOp cfg) v).1 := by
        rw [eval_refresh, eval_refresh, hquiet.1, hquiet.2, hquiet'.1, hquiet'.2, h.now, h.user,
          h.session sid gen hclaims]
      simp only [Prog.eval_bind]
      generalize (AuthService.refresh cfg payload.sub sid gen).eval (execOp cfg) v = answer at hrefresh ⊢
      generalize (AuthService.refresh cfg payload.sub sid gen).eval (execOp cfg) v' = answer' at hrefresh ⊢
      obtain ⟨out, u⟩ := answer
      obtain ⟨out', u'⟩ := answer'
      simp only at hrefresh
      subst hrefresh
      cases out' <;> rfl

end Alone

end FastiKit
