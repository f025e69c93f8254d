import FastiKit.Interleave.Monitor
import FastiKit.Auth.Obligations

/- How each request goes about the blocklist. `pipelines` is a monitor that keeps,
   for one request, its last clock reading, the tokens its pipeline left out or had
   acknowledged, and the tokens it still has to SET before READY. A logout commits
   only tokens that were acknowledged or left out, and READY is set only when nothing
   that was listed is owed; `serve_follows` checks this against the programs. -/
namespace FastiKit

open Interleave

/-- What a request has done to the blocklist so far. -/
structure Progress where
  read : Option Time
  leftOut : List TokenRef
  acknowledged : List TokenRef
  owed : Option (List TokenRef)

/-- The clock reading that goes into a query. -/
def Op.reads : Op → Option Time
  | .tokenExists _ now => some now
  | .listActive now => some now
  | _ => none

/-- The tokens a logout counts on when it takes this step. -/
def Op.acknowledged : Op → List TokenRef
  | .setJti (.revoking sent) _ => sent
  | .snapshot tokens => tokens
  | .logout _ tokens _ => tokens
  | .closeAccount _ tokens _ => tokens
  | _ => []

/-- The tokens a seeding has yet to SET when it takes this step. -/
def Op.owed : Op → Option (List TokenRef)
  | .revokeClock true tokens => some tokens
  | .setJti (.seeding rest) token => some (token :: rest)
  | .setReady => some []
  | _ => none

/-- The tokens that `revoke` leaves out: their lifetime is less than a millisecond. -/
def Op.leavesOut : (op : Op) → op.Res → List TokenRef
  | .revokeClock _ tokens, now => tokens.filter (fun token => decide (TokenBlocklist.ttlMs token now ≤ 0))
  | _, _ => []

/-- The acknowledged tokens of a logout's pipeline after this step. -/
def Op.acknowledgedBy : (op : Op) → op.Res → List TokenRef
  | .setJti (.revoking sent) token, true => sent ++ [token]
  | .snapshot tokens, _ => tokens
  | _, _ => []

/-- The tokens a seeding has yet to SET after this step. -/
def Op.owedAfter : (op : Op) → op.Res → Option (List TokenRef)
  | .listActive _, tokens => some tokens
  | .revokeClock true tokens, now =>
    some (tokens.filter (fun token => decide (TokenBlocklist.ttlMs token now > 0)))
  | .setJti (.seeding rest) _, true => some rest
  | _, _ => none

/-- The reading a request has after this step. -/
def Op.readAfter : (op : Op) → op.Res → Option Time → Option Time
  | .clock, now, _ => some now
  | _, _, read => read

def pipelines : Monitor Op Op.Res Progress where
  start := ⟨none, [], [], none⟩
  allows m op := (∀ now, op.reads = some now → m.read = some now) ∧
    (∀ tokens, op.owed = some tokens → m.owed = some tokens) ∧
    ∀ token ∈ op.acknowledged, token ∈ m.acknowledged ∨ token ∈ m.leftOut
  next m op r := ⟨op.readAfter r m.read, m.leftOut ++ op.leavesOut r, op.acknowledgedBy r, op.owedAfter r⟩

/-- The operations that may come at any time. -/
def Op.free : Op → Bool
  | .tokenExists _ _ | .listActive _ | .revokeClock true _ | .setJti _ _ | .setReady | .logout _ _ _
  | .closeAccount _ _ _ => false
  | .snapshot tokens => tokens.isEmpty
  | _ => true

theorem pipelines_free {op : Op} (h : op.free = true) (m : Progress) : pipelines.allows m op := by
  cases op with
  | revokeClock seeding tokens =>
    cases seeding with
    | true => cases h
    | false => exact ⟨nofun, nofun, nofun⟩
  | snapshot tokens =>
    cases tokens with
    | nil => exact ⟨nofun, nofun, nofun⟩
    | cons token tokens => cases h
  | _ => first | (cases h; done) | exact ⟨nofun, nofun, nofun⟩

/-! The pipelines. -/

/-- The SETs of a logout: if all are acknowledged, its tokens are. -/
theorem execute_revoking (tokens : List TokenRef) :
    ∀ (failed : Bool) (sent : List TokenRef) (m : Progress),
      (failed = false → ∀ token ∈ sent, token ∈ m.acknowledged) →
      pipelines.Follows (fun out m' => (∀ token ∈ m.leftOut, token ∈ m'.leftOut) ∧
        (out = .ok true → ∀ token ∈ sent ++ tokens, token ∈ m'.acknowledged))
        (TokenBlocklist.execute false failed sent tokens) m := by
  induction tokens with
  | nil =>
    intro failed sent m hm
    cases failed with
    | true => exact ⟨fun _ h => h, nofun⟩
    | false =>
      refine ⟨fun _ h => h, fun _ => ?_⟩
      rw [List.append_nil]
      exact hm rfl
  | cons token rest ih =>
    intro failed sent m hm
    cases failed with
    | true =>
      refine ⟨⟨nofun, nofun, nofun⟩, fun r => ?_⟩
      refine (ih true (sent ++ [token]) _ nofun).mono ?_
      intro out m' h
      simpa [pipelines, Op.leavesOut] using h
    | false =>
      refine ⟨⟨nofun, nofun, fun t ht => .inl (hm rfl t ht)⟩, fun r => ?_⟩
      refine (ih (false || !r) (sent ++ [token]) _ ?_).mono ?_
      · cases r with
        | true => exact fun _ t ht => ht
        | false => nofun
      · intro out m' h
        simpa [pipelines, Op.leavesOut] using h

/-- The SETs of a seeding: if all are acknowledged, nothing is owed. -/
theorem execute_seeding (tokens : List TokenRef) :
    ∀ (failed : Bool) (sent : List TokenRef) (m : Progress), (failed = false → m.owed = some tokens) →
      pipelines.Follows (fun out m' => out = .ok true → m'.owed = some [])
        (TokenBlocklist.execute true failed sent tokens) m := by
  induction tokens with
  | nil =>
    intro failed sent m hm
    cases failed with
    | true => nofun
    | false => exact fun _ => hm rfl
  | cons token rest ih =>
    intro failed sent m hm
    cases failed with
    | true => exact ⟨⟨nofun, nofun, nofun⟩, fun r => ih true (sent ++ [token]) _ nofun⟩
    | false =>
      refine ⟨⟨nofun, ?_, nofun⟩, fun r => ih (false || !r) (sent ++ [token]) _ ?_⟩
      · intro tokens htokens
        cases htokens
        exact hm rfl
      · cases r with
        | true => exact fun _ => rfl
        | false => nofun

/-- A logout's `revoke` that returns had every token acknowledged, or left it out. -/
theorem revoke_revoking (tokens : List TokenRef) (m : Progress) :
    pipelines.Follows (fun out m' => out = .ok () →
        ∀ token ∈ tokens, token ∈ m'.acknowledged ∨ token ∈ m'.leftOut)
      (TokenBlocklist.revoke false tokens) m := by
  simp only [TokenBlocklist.revoke, api, Prog.perform_bind]
  refine ⟨pipelines_free rfl m, fun now => ?_⟩
  rw [Monitor.follows_bind]
  refine (execute_revoking _ false [] _ (fun _ t ht => by cases ht)).mono ?_
  intro out m' h
  rcases out with e | _ | _
  · rintro ⟨⟩
  · rintro ⟨⟩
  · intro _ token htoken
    rcases Int.lt_or_le 0 (TokenBlocklist.ttlMs token now) with hlate | hlate
    · exact .inl (h.2 rfl token (List.mem_filter.mpr ⟨htoken, decide_eq_true hlate⟩))
    · refine .inr (h.1 token (List.mem_append_right _ ?_))
      exact List.mem_filter.mpr ⟨htoken, decide_eq_true hlate⟩

/-- A seeding's `revoke` that returns owes nothing. -/
theorem revoke_seeding (tokens : List TokenRef) {m : Progress} (hm : m.owed = some tokens) :
    pipelines.Follows (fun out m' => out = .ok () → m'.owed = some [])
      (TokenBlocklist.revoke true tokens) m := by
  simp only [TokenBlocklist.revoke, api, Prog.perform_bind]
  refine ⟨⟨fun _ h => (by cases h), ?_, fun _ h => by cases h⟩, fun now => ?_⟩
  · intro tokens' htokens
    cases htokens
    exact hm
  · rw [Monitor.follows_bind]
    refine (execute_seeding _ false [] _ ?_).mono ?_
    · exact fun _ => rfl
    · intro out m' h
      rcases out with e | _ | _
      · rintro ⟨⟩
      · rintro ⟨⟩
      · exact fun _ => h rfl

theorem seed_follows (tokens : List TokenRef) {m : Progress} (hm : m.owed = some tokens) :
    pipelines.Follows (fun _ _ => True) (TokenBlocklist.seed tokens) m := by
  rw [TokenBlocklist.seed, Monitor.follows_tryCatch, Monitor.follows_bind]
  refine (revoke_seeding tokens hm).mono ?_
  intro out m' h
  cases out with
  | error e => cases e <;> trivial
  | ok a =>
    refine ⟨⟨fun _ h => (by cases h), ?_, fun _ h => by cases h⟩, ?_⟩
    · intro tokens' htokens
      cases htokens
      exact h rfl
    · intro acknowledged
      cases acknowledged <;> trivial

/-! The checks. -/

theorem isTokenRevoked_follows (token : TokenPayload) (m : Progress) :
    pipelines.Follows (fun _ _ => True) (isTokenRevoked token) m := by
  refine ⟨pipelines_free rfl m, fun now => ?_⟩
  show pipelines.Follows _ (ite _ _ _) _
  split
  · trivial
  · refine ⟨pipelines_free rfl _, fun r => ?_⟩
    have hfallback : ∀ m : Progress, pipelines.Follows (fun _ _ => True) (do
        let revoked : Bool ← api (.tokenExists token.jti (← FastiKit.now))
        if ← TokenBlocklist.claimSeeding then
          let active : List TokenRef ← api (.listActive (← FastiKit.now))
          TokenBlocklist.seed active
        return revoked) m := by
      intro m
      refine ⟨pipelines_free rfl m, fun now => ⟨⟨?_, nofun, nofun⟩, fun revoked => ?_⟩⟩
      · intro now' h
        cases h
        rfl
      · refine ⟨pipelines_free rfl _, fun claimed => ?_⟩
        rcases claimed with _ | _ | _
        · trivial
        · trivial
        · refine ⟨pipelines_free rfl _, fun now => ⟨⟨?_, nofun, nofun⟩, fun active => ?_⟩⟩
          · intro now' h
            cases h
            rfl
          · have howed : ∀ m : Progress, (pipelines.next m (.listActive now) active).owed = some active :=
              fun _ => rfl
            show pipelines.Follows _ (TokenBlocklist.seed active >>= fun _ => return revoked) _
            rw [Monitor.follows_bind]
            refine (seed_follows active (howed _)).mono ?_
            intro out m' _
            cases out <;> trivial
    rcases r with _ | ⟨revoked, _ | _⟩
    · exact hfallback _
    · exact hfallback _
    · trivial

theorem tokenRequired_follows (type : TokenType) (token : TokenPayload) (m : Progress) :
    pipelines.Follows (fun _ _ => True) (tokenRequired type token) m := by
  rw [tokenRequired, Monitor.follows_bind]
  refine (isTokenRevoked_follows token m).mono ?_
  intro out m' _
  rcases out with e | _ | _
  · trivial
  · refine ⟨pipelines_free rfl m', fun now => ?_⟩
    show pipelines.Follows _ (ite _ _ _) _
    split
    · trivial
    · show pipelines.Follows _ (ite _ _ _) _
      split <;> trivial
  · trivial

theorem getAuthSession_follows (header : TokenPayload) (cookie : Option TokenPayload) (m : Progress) :
    pipelines.Follows (fun _ _ => True) (getAuthSession header cookie) m := by
  rw [getAuthSession, Monitor.follows_bind]
  refine (tokenRequired_follows .access header m).mono ?_
  intro out m' _
  cases out with
  | error e => trivial
  | ok payload =>
    cases cookie with
    | none => trivial
    | some refreshToken =>
      refine ⟨pipelines_free rfl m', fun now => ?_⟩
      show pipelines.Follows _ (ite _ _ _) _
      split <;> trivial

theorem decode_follows (token : TokenPayload) (type : TokenType) (invalid wrongType used : String)
    (m : Progress) :
    pipelines.Follows (fun _ _ => True) (AuthService.decode token type invalid wrongType used) m := by
  refine ⟨pipelines_free rfl m, fun now => ?_⟩
  show pipelines.Follows _ (ite _ _ _) _
  split
  · trivial
  · show pipelines.Follows _ (ite _ _ _) _
    split
    · trivial
    · refine ⟨pipelines_free rfl _, fun now => ⟨⟨?_, nofun, nofun⟩, fun exists_ => ?_⟩⟩
      · intro now' h
        cases h
        rfl
      · show pipelines.Follows _ (ite _ _ _) _
        split <;> trivial

/-! The requests. -/

section Requests
variable {α β : Type} {K : Except Err α → Progress → Prop}

theorem follows_free {op : Op} {k : op.Res → Api α} (hop : op.free = true)
    (hk : ∀ r m, pipelines.Follows K (k r) m) (m : Progress) : pipelines.Follows K (.call op k) m :=
  ⟨pipelines_free hop m, fun r => hk r _⟩

/-- A check, and what follows if it returns. -/
theorem follows_check {p : Api β} {f : β → Api α} {m : Progress}
    (hp : pipelines.Follows (fun _ _ => True) p m) (herr : ∀ e m, K (.error e) m)
    (hok : ∀ a m, pipelines.Follows K (f a) m) : pipelines.Follows K (p >>= f) m := by
  rw [Monitor.follows_bind]
  refine hp.mono ?_
  intro out m' _
  cases out with
  | ok a => exact hok a m'
  | error e => exact herr e m'

end Requests

theorem refresh_follows (cfg : Config) (userId sessionId : Uuid) (generation : Nat) (m : Progress) :
    pipelines.Follows (fun _ _ => True) (AuthService.refresh cfg userId sessionId generation) m := by
  refine follows_free rfl (fun user m => ?_) m
  cases user with
  | none => trivial
  | some user =>
    show pipelines.Follows _ (ite _ _ _) _
    split
    · trivial
    · refine follows_free rfl (fun now m => follows_free rfl (fun rotated m => ?_) m) m
      rcases rotated with e | _ | session
      · trivial
      · refine follows_free rfl (fun current m => ?_) m
        cases current with
        | none => trivial
        | some current =>
          refine follows_free rfl (fun now m => ?_) m
          show pipelines.Follows _ (ite _ _ _) _
          split
          · trivial
          · refine follows_free rfl (fun now m => ?_) m
            show pipelines.Follows _ (ite _ _ _) _
            split
            · trivial
            · refine follows_free rfl (fun r m => ?_) m
              cases r <;> trivial
      · trivial

/-- What follows `_decode`: the user, and one transaction. -/
theorem linkUser_follows (payload : TokenPayload) (f : User → Api Unit) (hf : ∀ user m,
    pipelines.Follows (fun _ _ => True) (f user) m) (m : Progress) :
    pipelines.Follows (fun _ _ => True) (AuthService.userForToken payload >>= f) m := by
  refine follows_free rfl (fun user m => ?_) m
  cases user with
  | none => trivial
  | some user => exact hf user m

theorem orInvalidToken_follows (detail : String) (p : Api Unit)
    (hp : ∀ m, pipelines.Follows (fun _ _ => True) p m) (m : Progress) :
    pipelines.Follows (fun _ _ => True) (AuthService.orInvalidToken detail p) m := by
  rw [AuthService.orInvalidToken, Monitor.follows_tryCatch]
  refine (hp m).mono ?_
  intro out m' _
  rcases out with e | a
  · cases e with
    | domain e => cases e <;> trivial
    | _ => trivial
  · trivial

theorem verifyEmail_follows (token : TokenPayload) (m : Progress) :
    pipelines.Follows (fun _ _ => True) (AuthService.verifyEmail token) m := by
  rw [AuthService.verifyEmail]
  refine follows_check (decode_follows _ _ _ _ _ m) (fun _ _ => trivial) (fun payload m => ?_)
  refine linkUser_follows payload _ (fun user m => ?_) m
  show pipelines.Follows _ (ite _ _ _) _
  split
  · trivial
  · refine orInvalidToken_follows _ _ (fun m => ?_) m
    refine follows_free rfl (fun r m => ?_) m
    cases r <;> trivial

theorem resetPassword_follows (cfg : Config) (token : TokenPayload) (newPassword : String) (m : Progress) :
    pipelines.Follows (fun _ _ => True) (AuthService.resetPassword cfg token newPassword) m := by
  rw [AuthService.resetPassword]
  refine follows_check (decode_follows _ _ _ _ _ m) (fun _ _ => trivial) (fun payload m => ?_)
  refine linkUser_follows payload _ (fun user m => ?_) m
  show pipelines.Follows _ (ite _ _ _) _
  split
  · trivial
  · show pipelines.Follows _ (ite _ _ _) _
    split
    · trivial
    · refine orInvalidToken_follows _ _ (fun m => ?_) m
      refine follows_free rfl (fun salt m => follows_free rfl (fun snapshot m => follows_free rfl (fun r m => ?_) m)
        m) m
      cases r <;> trivial

/-- A transaction that counts on acknowledged tokens. -/
theorem follows_commit {tokens : List TokenRef} {op : Op} {k : op.Res → Api Response} {m : Progress}
    (hop : op.reads = none ∧ op.owed = none ∧ op.acknowledged = tokens)
    (htokens : ∀ token ∈ tokens, token ∈ m.acknowledged ∨ token ∈ m.leftOut)
    (hk : ∀ r, ∃ out, (k r).outcome = some out) :
    pipelines.Follows (fun _ _ => True) (Prog.call op k : Api Response) m := by
  refine ⟨⟨?_, ?_, ?_⟩, ?_⟩
  · rw [hop.1]
    exact nofun
  · rw [hop.2.1]
    exact nofun
  · rw [hop.2.2]
    exact htokens
  · intro r
    obtain ⟨out, hout⟩ := hk r
    cases hr : k r with
    | ret a => trivial
    | raise e => trivial
    | call op' k' => rw [hr] at hout; cases hout

/-- The tokens are acknowledged or left out, and then the rest of the request runs. -/
theorem follows_revoke {tokens : List TokenRef} {p : Api Response} {m : Progress}
    (hp : ∀ m : Progress, (∀ token ∈ tokens, token ∈ m.acknowledged ∨ token ∈ m.leftOut) →
      pipelines.Follows (fun _ _ => True) p m) :
    pipelines.Follows (fun _ _ => True) (TokenBlocklist.revoke false tokens >>= fun _ => p) m := by
  rw [Monitor.follows_bind]
  refine (revoke_revoking tokens m).mono ?_
  intro out m' h
  cases out with
  | error e => trivial
  | ok a => exact hp m' (h rfl)

theorem serve_follows (cfg : Config) (req : Request) (m : Progress) :
    pipelines.Follows (fun _ _ => True) (serve cfg req) m := by
  cases req with
  | createUser data =>
    refine follows_free rfl (fun userId m => follows_free rfl (fun now m => follows_free rfl (fun jti m =>
      follows_free rfl (fun salt m => follows_free rfl (fun r m => ?_) m) m) m) m) m
    cases r <;> trivial
  | login email password =>
    refine follows_free rfl (fun user m => ?_) m
    cases user with
    | none => trivial
    | some user =>
      show pipelines.Follows _ (Prog.bind (Prog.bind (ite _ _ _) _) _) _
      split
      · trivial
      · refine follows_free rfl (fun now m => follows_free rfl (fun r m => ?_) m) m
        cases r <;> trivial
  | refresh cookie =>
    refine follows_check (tokenRequired_follows .refresh cookie m) (fun _ _ => trivial) (fun payload m => ?_)
    cases hses : refreshSessionClaims payload with
    | none => trivial
    | some claims =>
      exact follows_check (refresh_follows cfg _ _ _ m) (fun _ _ => trivial) (fun _ _ => trivial)
  | logout header cookie =>
    refine follows_check (getAuthSession_follows header cookie m) (fun _ _ => trivial) (fun session m => ?_)
    rw [AuthService.logout, bind_assoc]
    refine follows_revoke fun m htokens => follows_commit ⟨rfl, rfl, rfl⟩ htokens ?_
    intro r
    cases r <;> exact ⟨_, rfl⟩
  | deleteUser header cookie =>
    refine follows_check (getAuthSession_follows header cookie m) (fun _ _ => trivial) (fun session m => ?_)
    rw [AuthService.closeAccount, bind_assoc]
    refine follows_revoke fun m htokens => ⟨⟨nofun, nofun, htokens⟩, fun snapshot => ?_⟩
    refine follows_commit ⟨rfl, rfl, rfl⟩ (fun token htoken => .inl htoken) ?_
    intro r
    rcases r with e | _ | user <;> exact ⟨_, rfl⟩
  | updateUser header data =>
    refine follows_check (tokenRequired_follows .access header m) (fun _ _ => trivial) (fun payload m => ?_)
    refine follows_check ?_ (fun _ _ => trivial) (fun _ _ => trivial)
    rw [UserService.update]
    rcases data.password with _ | _ | password
    · refine follows_free rfl (fun r m => ?_) m
      rcases r with e | _ | user <;> trivial
    · refine follows_free rfl (fun r m => ?_) m
      rcases r with e | _ | user <;> trivial
    · refine follows_free rfl (fun salt m => follows_free rfl (fun r m => ?_) m) m
      rcases r with e | _ | user <;> trivial
  | getUser header =>
    refine follows_check ?_ (fun _ _ => trivial) (fun _ _ => trivial)
    refine follows_check (tokenRequired_follows .access header m) (fun _ _ => trivial) (fun payload m => ?_)
    refine follows_free rfl (fun user m => ?_) m
    cases user with
    | none => trivial
    | some user =>
      show pipelines.Follows _ (ite _ _ _) _
      split <;> trivial
  | listUsers header params =>
    refine follows_check ?_ (fun _ _ => trivial) (fun payload m => follows_free rfl (fun page m => ?_) m)
    · refine follows_check (tokenRequired_follows .access header m) (fun _ _ => trivial) (fun payload m => ?_)
      cases hscopes : cfg.hasScopes payload.scopes ["admin:read"] with
      | false => simp only [Bool.not_false, if_true]; trivial
      | true => simp only [Bool.not_true, Bool.false_eq_true, if_false]; trivial
    · trivial
  | verifyEmail token =>
    exact follows_check (verifyEmail_follows token m) (fun _ _ => trivial) (fun _ _ => trivial)
  | resendVerification email =>
    refine follows_free rfl (fun user m => ?_) m
    cases user with
    | none => trivial
    | some user =>
      show pipelines.Follows _ (Prog.bind (ite _ _ _) _) _
      split
      · trivial
      · refine follows_free rfl (fun now m => follows_free rfl (fun jti m => follows_free rfl (fun r m => ?_) m)
          m) m
        cases r <;> trivial
  | forgotPassword email =>
    refine follows_free rfl (fun user m => ?_) m
    cases user with
    | none => trivial
    | some user =>
      show pipelines.Follows _ (Prog.bind (ite _ _ _) _) _
      split
      · trivial
      · refine follows_free rfl (fun now m => follows_free rfl (fun jti m => follows_free rfl (fun r m => ?_) m)
          m) m
        cases r <;> trivial
  | resetPassword token newPassword =>
    exact follows_check (resetPassword_follows cfg token newPassword m) (fun _ _ => trivial) (fun _ _ => trivial)
  | isTokenRevoked token =>
    exact follows_check (isTokenRevoked_follows token m) (fun _ _ => trivial) (fun _ _ => trivial)
  | cleanupRevokedTokens =>
    refine follows_free rfl (fun now m => follows_free rfl (fun r m => ?_) m) m
    cases r <;> trivial
  | cleanupRefreshSessions | cleanupOutbox =>
    refine follows_free rfl (fun now m => follows_free rfl (fun r m => ?_) m) m
    cases r <;> trivial
  | dispatchPending ids =>
    refine follows_free rfl (fun r m => ?_) m
    cases r <;> trivial

end FastiKit
