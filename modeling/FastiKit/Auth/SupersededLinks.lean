import FastiKit.Auth.Calls

/- A reset link and the newer one that superseded it.

   `reset_password` compares the link's jti with the user's pending one on a row it
   reads before it hashes the password, and its final transaction does not compare
   again. So a request past the comparison commits although a newer link was sent,
   and even used, in the meantime (`overtaken_reset`). While the comparison still
   holds when the transaction runs, a link that was superseded stays so
   (`superseded_link_stays`): every link has a jti of its own, so the user's pending
   jti never goes back to an older one. -/
namespace FastiKit

open Interleave Relational

/-- The jti of a reset link: drawn by `uuid4`, spent by the transaction that
stores it. -/
def resetLinks : Keys Op Op.Res World where
  counter := World.uuids
  draws
    | .uuid4, jti => some jti
    | _, _ => none
  spends
    | .startPasswordReset _ jti _ => some jti
    | _ => none

theorem resetLinks_lawful (cfg : Config) : resetLinks.Lawful (service cfg) := by
  apply drawn_lawful rfl
  intro op w jti h
  cases op <;> cases h
  exact ⟨rfl, rfl⟩

/-- A forgot-password request stores the jti it drew; the other requests store none. -/
theorem serve_keeps (cfg : Config) (req : Request) : resetLinks.Keeps (serve cfg req) ∅ := by
  have hrest : (∀ op, Calls req op → resetLinks.spends op = none) → resetLinks.Keeps (serve cfg req) ∅ :=
    fun h => Keys.keeps_of_uses ((serve_calls cfg req).mono h (fun _ h => h))
  cases req with
  | forgotPassword email =>
    refine ⟨nofun, ?_⟩
    intro user
    cases user with
    | none => trivial
    | some user =>
      show resetLinks.Keeps (Prog.bind (ite _ _ _) _) _
      split
      · trivial
      · refine ⟨nofun, fun now => ⟨nofun, fun jti => ⟨?_, ?_⟩⟩⟩
        · intro key hkey
          cases hkey
          exact .inr rfl
        · intro r
          cases r <;> trivial
  | _ =>
    apply hrest
    intro op hop
    cases op <;> first | rfl | cases hop

/-- A reset of the user's password runs its final transaction only while its link is
still the user's pending one. -/
def latestLink (s : Service) : Action Request Event → Bool
  | .run i =>
    match s.pending i with
    | some (.resetPassword userId _ token _) =>
      (s.state.db.users.get userId).all (fun u => decide (u.pendingPasswordResetJti = some token.jti))
    | _ => true
  | _ => true

section Run
variable (cfg : Config) (c : Service → Action Request Event → Bool)

/-- The step from `s` to `s'` stores and mails the user's reset link `jti`. -/
def Requests (userId jti : Uuid) (s s' : Service) : Prop :=
  ∃ i payload, (service cfg).Fires s i (.startPasswordReset userId jti payload) (.ok ()) ∧
    c s (.run i) = true ∧ (service cfg).step s (.run i) = some s'

/-- The step from `s` to `s'` sets the user's password through the link `jti`. -/
def Resets (userId jti : Uuid) (s s' : Service) : Prop :=
  ∃ i passwordHash token snapshot user, token.jti = jti ∧
    (service cfg).Fires s i (.resetPassword userId passwordHash token snapshot) (.ok user) ∧
    c s (.run i) = true ∧ (service cfg).step s (.run i) = some s'

/-- The user's link `newer` was requested after `older`, and the run ends in `s` with a
reset through it. -/
def Superseded (now : Time) (userId older newer : Uuid) (s : Service) : Prop :=
  ∃ s₁ v₁ s₂ v₂ s₃, StepsIf cfg c (System.start (World.init now)) s₁ ∧
    Requests cfg c userId older s₁ v₁ ∧ StepsIf cfg c v₁ s₂ ∧ Requests cfg c userId newer s₂ v₂ ∧
    StepsIf cfg c v₂ s₃ ∧ Resets cfg c userId newer s₃ s

end Run

/-! One step. -/

/-- Only a request for a reset link sets the column that remembers its jti. -/
theorem Calls.sets_pendingPasswordReset {req : Request} {op : Op} (h : Calls req op) {userId : Uuid}
    {fields : UserFields} (hsets : op.sets = some (userId, fields)) :
    fields.pendingPasswordResetJti = none ∨ fields.pendingPasswordResetJti = resetLinks.spends op := by
  cases op <;> cases hsets
  case updateUser =>
    left
    cases req with
    | updateUser header data =>
      obtain ⟨-, passwordHash, rfl, -⟩ := h
      rfl
    | _ => cases h
  case verifyEmail => exact .inl rfl
  case resetPassword => exact .inl rfl
  case startEmailVerification => exact .inl rfl
  case startPasswordReset => exact .inr rfl
  case closeAccount => exact .inl rfl

/-- The user's pending reset link is another one. -/
def World.MovedOn (w : World) (userId jti : Uuid) : Prop :=
  ∃ u, w.db.users.get userId = some u ∧ u.pendingPasswordResetJti ≠ some jti

/-- An operation that stores no other link's jti leaves it another one. -/
theorem Effect.movedOn {w : World} {op : Op} {r : op.Res} {db' : Db} (h : Effect w op r db') {req : Request}
    (hcalls : Calls req op) {userId jti : Uuid} (hop : resetLinks.spends op ≠ some jti)
    (hw : w.MovedOn userId jti) :
    ∃ u, db'.users.get userId = some u ∧ u.pendingPasswordResetJti ≠ some jti := by
  obtain ⟨u, hu, hne⟩ := hw
  rcases h.user hu with hsame | ⟨fields, hsets, hset⟩
  · exact ⟨u, hsame, hne⟩
  · refine ⟨_, hset, ?_⟩
    rw [UserFields.apply_pendingPasswordResetJti]
    rcases hcalls.sets_pendingPasswordReset hsets with hnone | hspends
    · rw [hnone, Option.none_or]
      exact hne
    · rw [hspends]
      cases hkey : resetLinks.spends op with
      | none => rw [Option.none_or]; exact hne
      | some key =>
        rw [Option.some_or, ← hkey]
        exact hop

/-- A request for a link leaves it pending. -/
theorem startPasswordReset_pending (cfg : Config) {userId jti : Uuid} {payload : EmailPayload} {w : World}
    (h : (execOp cfg (.startPasswordReset userId jti payload) w).1 = .ok ()) :
    ∃ u, (execOp cfg (.startPasswordReset userId jti payload) w).2.db.users.get userId = some u ∧
      u.pendingPasswordResetJti = some jti := by
  have htx := transaction_startLink cfg userId { pendingPasswordResetJti := some jti } (emailEvent w payload)
    w.now w.draw.2.db
  simp only [execOp, World.transact, AccountRepository.startPasswordReset] at h ⊢
  rcases htx with ⟨e, htx⟩ | ⟨u, events, hu, -, htx⟩
  · rw [htx] at h
    cases h
  · rw [htx]
    refine ⟨UserFields.apply { pendingPasswordResetJti := some jti } w.now u, ?_, by simp⟩
    show (Db.setUser w.db userId _ w.now).users.get userId = _
    have hu' : w.db.users.get userId = some u := hu
    rw [Db.get_setUser, hu']
    simp

/-! Runs. -/

section Runs
variable {cfg : Config} {c : Service → Action Request Event → Bool} {now : Time} {s s' t : Service}

/-- From where a newer link is pending, the older one never is again. -/
theorem movedOn_steps (hs : StepsIf cfg c (System.start (World.init now)) s) {userId jti : Uuid}
    (howned : resetLinks.Owned {jti} s) (hmoved : s.state.MovedOn userId jti) (h : StepsIf cfg c s t) :
    t.state.MovedOn userId jti := by
  have key : StepsIf cfg c (System.start (World.init now)) t ∧ resetLinks.Owned {jti} t ∧
      t.state.MovedOn userId jti := by
    refine h.invariant (J := fun v => StepsIf cfg c (System.start (World.init now)) v ∧
      resetLinks.Owned {jti} v ∧ v.state.MovedOn userId jti) ?_ ⟨hs, howned, hmoved⟩
    intro v a v' hv hC ha
    obtain ⟨hv, howned, hmoved⟩ := hv
    refine ⟨hv.snoc hC ha, ?_, ?_⟩
    · exact (howned.step (resetLinks_lawful cfg) (serve_keeps cfg) ha).mono Set.subset_union_left
    · rcases step_world (served_steps hv (served_start now)) ha with
        ⟨-, -, hstate⟩ | ⟨i, op, rfl, hw, hg⟩ | ⟨e, rfl, he⟩
      · rw [hstate]
        exact hmoved
      · obtain ⟨r, heff, -⟩ := hg.effect
        obtain ⟨th, -, hcalls⟩ := waits_calls hv hw
        have hother : resetLinks.spends op ≠ some jti :=
          fun hkey => howned.not_gone hw hkey (Set.mem_singleton jti)
        exact heff.movedOn hcalls hother hmoved
      · have hdb := (World.event_frame he).1
        unfold World.MovedOn
        rw [hdb]
        exact hmoved
  exact key.2.2

/-- After a request for a link it is pending, and its jti is spent. -/
theorem Requests.pending {userId jti : Uuid} (hs : StepsIf cfg c (System.start (World.init now)) s)
    (h : Requests cfg c userId jti s s') :
    StepsIf cfg c (System.start (World.init now)) s' ∧ resetLinks.Owned {jti} s' ∧
      ∃ u, s'.state.db.users.get userId = some u ∧ u.pendingPasswordResetJti = some jti := by
  obtain ⟨i, payload, hf, hC, hstep⟩ := h
  have howned : resetLinks.Owned ∅ s :=
    Keys.Owned.steps (resetLinks_lawful cfg) (serve_keeps cfg) hs (Keys.owned_start _)
  refine ⟨hs.snoc hC hstep, ?_, ?_⟩
  · exact howned.spend (resetLinks_lawful cfg) (serve_keeps cfg) hf.1 rfl hstep
  · obtain ⟨u, hu, hpending⟩ := startPasswordReset_pending cfg hf.2
    refine ⟨u, ?_, hpending⟩
    rw [(run_guarantee (served_steps hs (served_start now)) hf.1 hstep).db]
    exact hu

end Runs

/-- A superseded reset link never overrides a newer one, while the comparison with the
pending link still holds when a reset commits. -/
theorem superseded_link_stays (cfg : Config) (now : Time) (userId older newer : Uuid) (s t t' : Service)
    (h : Superseded cfg latestLink now userId older newer s) (ht : StepsIf cfg latestLink s t) :
    ¬ Resets cfg latestLink userId older t t' := by
  obtain ⟨s₁, v₁, s₂, v₂, s₃, hs₁, hold, hs₂, hnew, hs₃, i₃, -, -, -, -, -, -, hC₃, hstep₃⟩ := h
  obtain ⟨hv₁, howned, -⟩ := hold.pending hs₁
  have howned₂ : resetLinks.Owned {older} s₂ :=
    Keys.Owned.steps (resetLinks_lawful cfg) (serve_keeps cfg) hs₂ howned
  obtain ⟨hv₂, -, u, hu, hpending⟩ := hnew.pending (hv₁.trans hs₂)
  obtain ⟨i, payload, hf, -, hstep⟩ := hnew
  -- the newer link has a jti of its own
  have hne : newer ≠ older := fun e => howned₂.not_gone hf.1 rfl (Set.mem_singleton_iff.mpr e)
  have howned' : resetLinks.Owned {older} v₂ :=
    (howned₂.step (resetLinks_lawful cfg) (serve_keeps cfg) hstep).mono Set.subset_union_left
  have hmoved : v₂.state.MovedOn userId older := by
    refine ⟨u, hu, ?_⟩
    rw [hpending]
    exact fun e => hne (Option.some.inj e)
  obtain ⟨w, hw, hother⟩ := movedOn_steps hv₂ howned' hmoved ((hs₃.snoc hC₃ hstep₃).trans ht)
  -- so the comparison fails for the older one
  intro hreset
  obtain ⟨j, passwordHash, token, snapshot, user, rfl, hfire, hC, -⟩ := hreset
  simp only [latestLink, Pool.pending_of_waits hfire.1, hw, Option.all_some, decide_eq_true_eq] at hC
  exact hother hC

/-! Two links of one user, and a request for each. -/

/-- The email with the link. -/
def samplePayload (jti : Uuid) : EmailPayload :=
  PasswordResetService.buildEmailPayload "ada@example.org" (sampleReset jti)

/-- The sample user, once verified, asks for a link. -/
def firstLink : List (Action Request Event) :=
  signIn ++ [.env (.replicate 0)] ++ serially 3 3 (.forgotPassword "ada@example.org")

/-- A run in three parts, each followed by the step the part is about. -/
theorem superseded_of_run (c : Service → Action Request Event → Bool) (older newer : Uuid)
    (as₁ as₂ as₃ : List (Action Request Event)) (i₁ i₂ i₃ : Nat) (passwordHash : PasswordHash) (snapshot : Snapshot)
    (user : User) (p : Service → Bool)
    (h : ((service .sample).runIf c (System.start (World.init 0)) as₁).any (fun s₁ =>
      ((service .sample).step s₁ (.run i₁)).any (fun v₁ =>
        ((service .sample).runIf c v₁ as₂).any (fun s₂ =>
          ((service .sample).step s₂ (.run i₂)).any (fun v₂ =>
            ((service .sample).runIf c v₂ as₃).any (fun s₃ =>
              ((service .sample).step s₃ (.run i₃)).any (fun s => p s && decide (
                (s₁.pending i₁ = some (.startPasswordReset 0 older (samplePayload older)) ∧
                  (execOp .sample (.startPasswordReset 0 older (samplePayload older)) s₁.state).1 = .ok () ∧
                  c s₁ (.run i₁) = true) ∧
                (s₂.pending i₂ = some (.startPasswordReset 0 newer (samplePayload newer)) ∧
                  (execOp .sample (.startPasswordReset 0 newer (samplePayload newer)) s₂.state).1 = .ok () ∧
                  c s₂ (.run i₂) = true) ∧
                s₃.pending i₃ = some (.resetPassword 0 passwordHash (sampleReset newer) snapshot) ∧
                (execOp .sample (.resetPassword 0 passwordHash (sampleReset newer) snapshot) s₃.state).1 = .ok user ∧
                c s₃ (.run i₃) = true))))))) = true) :
    ∃ s, Superseded .sample c 0 0 older newer s ∧ p s = true := by
  obtain ⟨s₁, hs₁, h⟩ := (Option.any_eq_true _ _).mp h
  obtain ⟨v₁, hv₁, h⟩ := (Option.any_eq_true _ _).mp h
  obtain ⟨s₂, hs₂, h⟩ := (Option.any_eq_true _ _).mp h
  obtain ⟨v₂, hv₂, h⟩ := (Option.any_eq_true _ _).mp h
  obtain ⟨s₃, hs₃, h⟩ := (Option.any_eq_true _ _).mp h
  obtain ⟨s, hs, h⟩ := (Option.any_eq_true _ _).mp h
  obtain ⟨hp, hfacts⟩ := Bool.and_eq_true_iff.mp h
  obtain ⟨⟨hop₁, hr₁, hc₁⟩, ⟨hop₂, hr₂, hc₂⟩, hop₃, hr₃, hc₃⟩ := of_decide_eq_true hfacts
  exact ⟨s, ⟨s₁, v₁, s₂, v₂, s₃, System.steps_of_runIf _ _ _ hs₁,
    ⟨i₁, _, ⟨Pool.waits_of_pending hop₁, hr₁⟩, hc₁, hv₁⟩, System.steps_of_runIf _ _ _ hs₂,
    ⟨i₂, _, ⟨Pool.waits_of_pending hop₂, hr₂⟩, hc₂, hv₂⟩, System.steps_of_runIf _ _ _ hs₃,
    ⟨i₃, passwordHash, sampleReset newer, snapshot, user, rfl, ⟨Pool.waits_of_pending hop₃, hr₃⟩, hc₃, hs⟩⟩, hp⟩

/-- The sample user after a reset with this hash, while the link `jti` is pending. -/
def resetUser (passwordHash : PasswordHash) (jti : Uuid) : User :=
  { sampleUser with passwordHash, pendingPasswordResetJti := some jti }

/-- Two links are asked for, the newer one is used, and a request for the older one is
made. -/
theorem superseded_link_stays_sample : ∃ s t, Superseded .sample latestLink 0 0 7 9 s ∧
    (service .sample).runIf latestLink s (serially 6 4 (.resetPassword (sampleReset 7) "older")) = some t ∧
    ∀ t', ¬ Resets .sample latestLink 0 7 t t' := by
  have hrun := superseded_of_run latestLink 7 9 firstLink (serially 4 3 (.forgotPassword "ada@example.org"))
    (serially 5 6 (.resetPassword (sampleReset 9) "newer")) 3 4 5 ⟨11, "newer"⟩ ⟨12⟩ (resetUser ⟨11, "newer"⟩ 9)
    (fun s => ((service .sample).runIf latestLink s
      (serially 6 4 (.resetPassword (sampleReset 7) "older"))).isSome) (by decide +kernel)
  obtain ⟨s, hs, ht⟩ := hrun
  obtain ⟨t, ht⟩ := Option.isSome_iff_exists.mp ht
  exact ⟨s, t, hs, ht, fun t' => superseded_link_stays .sample 0 0 7 9 s t t' hs (System.steps_of_runIf _ _ _ ht)⟩

/-- A reset through the older link has made its comparison when the newer link is asked
for; it commits after the newer one was used. -/
theorem overtaken_reset : ¬ ∀ (now : Time) (userId older newer : Uuid) (s t t' : Service),
    Superseded .sample anyStep now userId older newer s → StepsIf .sample anyStep s t →
    ¬ Resets .sample anyStep userId older t t' := by
  intro h
  have hrun := superseded_of_run anyStep 7 10 firstLink
    (serially 4 6 (.resetPassword (sampleReset 7) "older") ++ serially 5 3 (.forgotPassword "ada@example.org"))
    (serially 6 6 (.resetPassword (sampleReset 10) "newer")) 3 5 6 ⟨12, "newer"⟩ ⟨13⟩ (resetUser ⟨12, "newer"⟩ 10)
    (fun s => decide (s.pending 4 = some (.resetPassword 0 ⟨9, "older"⟩ (sampleReset 7) ⟨10⟩) ∧
      (execOp .sample (.resetPassword 0 ⟨9, "older"⟩ (sampleReset 7) ⟨10⟩) s.state).1 =
        .ok (resetUser ⟨9, "older"⟩ 10))) (by decide +kernel)
  obtain ⟨s, hs, hlast⟩ := hrun
  obtain ⟨hop, hanswer⟩ := of_decide_eq_true hlast
  have hw := Pool.waits_of_pending hop
  have hstep : ∃ t', (service .sample).step s (.run 4) = some t' := System.step_of_waits hw
  obtain ⟨t', ht'⟩ := hstep
  exact h 0 0 7 10 s s t' hs .refl ⟨4, _, _, _, _, rfl, ⟨hw, hanswer⟩, rfl, ht'⟩

end FastiKit
