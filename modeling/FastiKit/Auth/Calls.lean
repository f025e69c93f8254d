import FastiKit.Interleave.Ownership
import FastiKit.Auth.Obligations

/- Which operations each request can call, whatever the answers. `Calls` is a
   table with a row per request; `serve_calls` checks it against the programs. A
   result about one kind of request then need not look at the other programs. -/
namespace FastiKit

open Interleave Relational

/-- The fields a PATCH sends to the UPDATE, for the hash of its password. -/
def UpdateUserRequest.fields (data : UpdateUserRequest) (passwordHash : Option PasswordHash) : UserFields :=
  { email := data.email, fullName := data.fullName, passwordHash }

/-- The request can call the operation. -/
def Calls : Request → Op → Prop
  | .createUser data, .register _ fullName email _ _ _ => fullName = data.name ∧ email = data.email
  | .login _ _, .createSession _ _ => True
  | .refresh cookie, .rotate sid userId gen _ => cookie.session = some (sid, gen) ∧ userId = cookie.sub
  | .refresh cookie, .revokeSession sid => ∃ gen, cookie.session = some (sid, gen)
  | .logout header _, .logout userId _ _ => userId = header.sub
  | .deleteUser header _, .closeAccount userId _ _ => userId = header.sub
  | .updateUser header data, .updateUser userId fields => userId = header.sub ∧
    ∃ passwordHash, fields = data.fields passwordHash ∧ passwordHash.isSome = data.password.join.isSome
  | .verifyEmail token, .verifyEmail _ token' => token' = token
  | .resetPassword token _, .resetPassword _ _ token' _ => token' = token
  | .resendVerification _, .startEmailVerification _ _ _ => True
  | .forgotPassword _, .startPasswordReset _ _ _ => True
  | .cleanupRevokedTokens, .purgeTokens _ => True
  | .cleanupRefreshSessions, .purgeSessions _ => True
  | .cleanupOutbox, .purgeEvents _ => True
  | .dispatchPending ids, .dispatchEvents ids' => ids' = ids
  | _, op => Quiet op

theorem Quiet.calls {op : Op} (h : Quiet op) (req : Request) : Calls req op := by
  cases op <;> first | (cases req <;> exact h) | cases h

section Programs
variable {α β : Type} {req : Request}

/-- Quiet operations first. -/
theorem calls_bind {L : Except Err α → Prop} {L' : Except Err β → Prop} {p : Api α} {f : α → Api β}
    (hp : p.Uses Quiet L) (herr : ∀ e, L (.error e) → L' (.error e))
    (hok : ∀ a, L (.ok a) → (f a).Uses (Calls req) L') : (p >>= f).Uses (Calls req) L' := by
  rw [Prog.uses_bind]
  refine hp.mono (fun _ hq => hq.calls req) ?_
  intro out hout
  cases out with
  | ok a => exact hok a hout
  | error e => exact herr e hout

/-- An operation, and an exception or a response. -/
theorem calls_last {op : Op} {k : op.Res → Api α} (hop : Calls req op)
    (hk : ∀ r, ∃ out, (k r).outcome = some out) :
    (Prog.call op k : Api α).Uses (Calls req) (fun _ => True) := by
  refine ⟨hop, ?_⟩
  intro r
  obtain ⟨out, hout⟩ := hk r
  cases hr : k r with
  | ret a => trivial
  | raise e => trivial
  | call op' k' => rw [hr] at hout; cases hout

theorem calls_quiet {op : Op} {k : op.Res → Api α} {L : Except Err α → Prop} (hop : Quiet op)
    (hk : ∀ r, (k r).Uses (Calls req) L) : (Prog.call op k : Api α).Uses (Calls req) L :=
  ⟨hop.calls req, hk⟩

end Programs

theorem serve_calls (cfg : Config) (req : Request) :
    (serve cfg req).Uses (Calls req) (fun _ => True) := by
  cases req with
  | createUser data =>
    refine calls_quiet rfl fun userId => calls_quiet rfl fun now => calls_quiet rfl fun jti =>
      calls_quiet rfl fun salt => calls_last ?_ ?_
    · exact ⟨rfl, rfl⟩
    · intro r
      cases r <;> exact ⟨_, rfl⟩
  | login email password =>
    apply calls_quiet rfl
    intro user
    cases user with
    | none => trivial
    | some user =>
      show Prog.Uses _ _ (Prog.bind (Prog.bind (ite _ _ _) _) _)
      split
      · trivial
      · refine calls_quiet rfl fun now => calls_last ?_ ?_
        · trivial
        · intro r
          cases r <;> exact ⟨_, rfl⟩
  | refresh cookie =>
    rw [serve]
    apply calls_bind (tokenRequired_uses .refresh cookie) (fun _ _ => trivial)
    intro payload hp
    obtain ⟨rfl, -⟩ := hp.1 payload rfl
    cases hses : payload.session with
    | none => simp only [refreshSessionClaims, hses]; trivial
    | some claims =>
      simp only [refreshSessionClaims, hses]
      apply calls_quiet rfl
      intro user
      cases user with
      | none => trivial
      | some user =>
        show Prog.Uses _ _ (Prog.bind (ite _ _ _) _)
        split
        · trivial
        · refine calls_quiet rfl fun now => ⟨⟨hses, rfl⟩, ?_⟩
          intro rotated
          rcases rotated with e | _ | session
          · trivial
          · refine calls_quiet rfl fun current => ?_
            cases current with
            | none => trivial
            | some current =>
              refine calls_quiet rfl fun now => ?_
              show Prog.Uses _ _ (Prog.bind (ite _ _ _) _)
              split
              · trivial
              · refine calls_quiet rfl fun now => ?_
                show Prog.Uses _ _ (Prog.bind (ite _ _ _) _)
                split
                · trivial
                · refine calls_last ?_ ?_
                  · exact ⟨_, hses⟩
                  · intro r
                    cases r <;> exact ⟨_, rfl⟩
          · trivial
  | logout header cookie =>
    rw [serve]
    apply calls_bind (getAuthSession_uses header cookie) (fun _ _ => trivial)
    intro session hsession
    rw [AuthService.logout, bind_assoc]
    apply calls_bind (revoke_uses false session.tokens) (fun _ _ => trivial)
    intro _ _
    refine calls_last ?_ ?_
    · exact (hsession session rfl).1
    · intro r
      cases r <;> exact ⟨_, rfl⟩
  | deleteUser header cookie =>
    rw [serve]
    apply calls_bind (getAuthSession_uses header cookie) (fun _ _ => trivial)
    intro session hsession
    rw [AuthService.closeAccount, bind_assoc]
    apply calls_bind (revoke_uses false session.tokens) (fun _ _ => trivial)
    intro _ _
    refine calls_quiet rfl fun snapshot => calls_last ?_ ?_
    · exact (hsession session rfl).1
    · intro r
      rcases r with e | _ | user <;> exact ⟨_, rfl⟩
  | updateUser header data =>
    rw [serve]
    apply calls_bind (tokenRequired_uses .access header) (fun _ _ => trivial)
    intro payload hp
    obtain ⟨rfl, -⟩ := hp.1 payload rfl
    have hop : ∀ passwordHash : Option PasswordHash, passwordHash.isSome = data.password.join.isSome →
        Calls (.updateUser payload data) (.updateUser payload.sub (data.fields passwordHash)) :=
      fun passwordHash hsome => ⟨rfl, passwordHash, rfl, hsome⟩
    rw [UserService.update]
    rcases hpassword : data.password with _ | _ | password
    · refine calls_last (hop none (by rw [hpassword]; rfl)) ?_
      intro r
      rcases r with e | _ | user <;> exact ⟨_, rfl⟩
    · refine calls_last (hop none (by rw [hpassword]; rfl)) ?_
      intro r
      rcases r with e | _ | user <;> exact ⟨_, rfl⟩
    · refine calls_quiet rfl fun salt => ?_
      refine calls_last (hop (some (cfg.hashpw password salt)) (by rw [hpassword]; rfl)) ?_
      intro r
      rcases r with e | _ | user <;> exact ⟨_, rfl⟩
  | getUser header =>
    rw [serve]
    apply calls_bind (getCurrentUser_uses header) (fun _ _ => trivial)
    intro user _
    trivial
  | listUsers header params =>
    rw [serve]
    apply calls_bind (requireScopes_uses cfg _ header) (fun _ _ => trivial)
    intro payload _
    exact calls_last rfl (fun page => ⟨_, rfl⟩)
  | verifyEmail token =>
    rw [serve, AuthService.verifyEmail, bind_assoc]
    apply calls_bind (decode_uses token .emailVerify _ _ _) (fun _ _ => trivial)
    intro payload hp
    obtain ⟨rfl, -⟩ := hp payload rfl
    apply calls_quiet rfl
    intro user
    cases user with
    | none => trivial
    | some user =>
      show Prog.Uses _ _ (Prog.bind (ite _ _ _) _)
      split
      · trivial
      · refine calls_last ?_ ?_
        · exact rfl
        · intro r
          rcases r with e | user
          · obtain ⟨e', he'⟩ := orInvalidToken_raise "Verification link already used" e
            refine ⟨.error e', ?_⟩
            show Prog.outcome (Prog.bind (AuthService.orInvalidToken _ (.raise e)) _) = _
            rw [he']
            rfl
          · exact ⟨_, rfl⟩
  | resendVerification email =>
    apply calls_quiet rfl
    intro user
    cases user with
    | none => trivial
    | some user =>
      show Prog.Uses _ _ (Prog.bind (ite _ _ _) _)
      split
      · trivial
      · refine calls_quiet rfl fun now => calls_quiet rfl fun jti => calls_last ?_ ?_
        · trivial
        · intro r
          cases r <;> exact ⟨_, rfl⟩
  | forgotPassword email =>
    apply calls_quiet rfl
    intro user
    cases user with
    | none => trivial
    | some user =>
      show Prog.Uses _ _ (Prog.bind (ite _ _ _) _)
      split
      · trivial
      · refine calls_quiet rfl fun now => calls_quiet rfl fun jti => calls_last ?_ ?_
        · trivial
        · intro r
          cases r <;> exact ⟨_, rfl⟩
  | resetPassword token newPassword =>
    rw [serve, AuthService.resetPassword, bind_assoc]
    apply calls_bind (decode_uses token .passwordReset _ _ _) (fun _ _ => trivial)
    intro payload hp
    obtain ⟨rfl, -⟩ := hp payload rfl
    apply calls_quiet rfl
    intro user
    cases user with
    | none => trivial
    | some user =>
      show Prog.Uses _ _ (Prog.bind (ite _ _ _) _)
      split
      · trivial
      · show Prog.Uses _ _ (Prog.bind (ite _ _ _) _)
        split
        · trivial
        · refine calls_quiet rfl fun salt => calls_quiet rfl fun snapshot => calls_last ?_ ?_
          · exact rfl
          · intro r
            rcases r with e | user
            · obtain ⟨e', he'⟩ := orInvalidToken_raise "Reset link already used" e
              refine ⟨.error e', ?_⟩
              show Prog.outcome (Prog.bind (AuthService.orInvalidToken _ (.raise e)) _) = _
              rw [he']
              rfl
            · exact ⟨_, rfl⟩
  | isTokenRevoked token =>
    rw [serve]
    apply calls_bind (isTokenRevoked_uses token) (fun _ _ => trivial)
    intro answer _
    trivial
  | cleanupRevokedTokens =>
    refine calls_quiet rfl fun now => calls_last ?_ ?_
    · trivial
    · intro r
      cases r <;> exact ⟨_, rfl⟩
  | cleanupRefreshSessions =>
    refine calls_quiet rfl fun now => calls_last ?_ ?_
    · trivial
    · intro r
      cases r <;> exact ⟨_, rfl⟩
  | cleanupOutbox =>
    refine calls_quiet rfl fun now => calls_last ?_ ?_
    · trivial
    · intro r
      cases r <;> exact ⟨_, rfl⟩
  | dispatchPending ids =>
    refine calls_last ?_ ?_
    · exact rfl
    · intro r
      cases r <;> exact ⟨_, rfl⟩

/-- In every pool reached, a request that is about to run an operation is one
that calls it. -/
theorem waits_calls {cfg : Config} {C : Service → Action Request Event → Prop} {now : Time} {s : Service}
    (h : (service cfg).Steps C (System.start (World.init now)) s) {i : Nat} {op : Op} (hw : s.Waits i op) :
    ∃ th, s.threads[i]? = some th ∧ Calls th.req op := by
  have hwithin : System.Within Calls (fun _ _ => True) s :=
    h.within (fun req => serve_calls cfg req) (fun th hth => by cases hth)
  exact hwithin.waits hw

/-- The user and the fields of a PATCH whose UPDATE commits when the thread `i` runs; one
that is refused changes nothing. -/
def patched (cfg : Config) (s : Service) (i : Nat) : Option (Uuid × UserFields) :=
  match s.pending i with
  | some (.updateUser userId fields) =>
    match (execOp cfg (.updateUser userId fields) s.state).1 with
    | .ok (some _) => some (userId, fields)
    | _ => none
  | _ => none

theorem patched_or_unchanged (cfg : Config) {s : Service} {i : Nat} {userId : Uuid} {fields : UserFields}
    (hw : s.Waits i (.updateUser userId fields)) : patched cfg s i = some (userId, fields) ∨
      (execOp cfg (.updateUser userId fields) s.state).2.db = s.state.db := by
  have heff := execOp_effect cfg (.updateUser userId fields) s.state
  generalize hanswer : (execOp cfg (.updateUser userId fields) s.state).1 = answer at heff
  generalize hdb : (execOp cfg (.updateUser userId fields) s.state).2.db = db' at heff ⊢
  cases heff with
  | same _ => exact .inr rfl
  | updated hu =>
    left
    simp only [patched, Pool.pending_of_waits hw, hanswer]
  | mailed hop _ _ => cases hop

/-- A request in the pool carries tokens that were issued. -/
def RequestsIssued (s : Service) : Prop := ∀ th ∈ s.threads, ∀ p ∈ th.req.tokens, s.state.issued p = true

theorem RequestsIssued.step {cfg : Config} {s s' : Service} {a : Action Request Event} (h : RequestsIssued s)
    (hs : Served.Pool cfg s) (ha : (service cfg).step s a = some s') : RequestsIssued s' := by
  have hev : Evolves s.state s'.state := steps_evolves (C := fun _ _ => True) (.single ⟨a, trivial, ha⟩) hs
  intro th hth p hp
  obtain ⟨i, hi⟩ := List.mem_iff_getElem?.mp hth
  rcases step_request ha hi with ⟨th₀, hth₀, hreq⟩ | ⟨-, rfl⟩
  · rw [← hreq] at hp
    exact hev.issued (h th₀ (List.mem_of_getElem? hth₀) p hp)
  · obtain ⟨hacc, -⟩ := System.step_spawn ha
    exact hev.issued (List.all_eq_true.mp hacc p hp)

theorem requests_issued {cfg : Config} {C : Service → Action Request Event → Prop} {now : Time} {s : Service}
    (h : (service cfg).Steps C (System.start (World.init now)) s) : RequestsIssued s := by
  have key : Served.Pool cfg s ∧ RequestsIssued s := by
    refine h.invariant (J := fun v => Served.Pool cfg v ∧ RequestsIssued v) ?_ ⟨served_start now, ?_⟩
    · intro v a v' hv hC ha
      exact ⟨(service_sound cfg C).step hv.1 hC ha, hv.2.step hv.1 ha⟩
    · intro th hth
      cases hth
  exact key.2

/-- Keys that are drawn from the world's random ids. -/
theorem drawn_lawful {cfg : Config} {K : Keys Op Op.Res World} (hcounter : K.counter = World.uuids)
    (hdraws : ∀ op w key, K.draws op (execOp cfg op w).1 = some key →
      key = w.uuids ∧ (execOp cfg op w).2.uuids = w.uuids + 1) : K.Lawful (service cfg) := by
  constructor
  · intro op w key h
    obtain ⟨hkey, huuids⟩ := hdraws op w key h
    rw [hcounter]
    show w.uuids ≤ key ∧ key < (execOp cfg op w).2.uuids
    omega
  · intro op w
    rw [hcounter]
    exact execOp_uuids cfg op w
  · intro req out w
    rw [hcounter]
    exact (w.respond_db cfg req out).2.2.2.2
  · intro e w w' h
    rw [hcounter]
    exact Nat.le_of_eq (World.event_frame h).2.1.symm

end FastiKit
