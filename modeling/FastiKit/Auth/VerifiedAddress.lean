import FastiKit.Auth.Calls

/- What the verified flag says of the address.

   `verify_email` sets the flag for whatever address the user has by then, and a
   PATCH changes the address and leaves the flag and the pending link as they are.
   The flag vouches for the address as long as a PATCH does not change the address
   of a verified user and no verification uses a link that was mailed to another
   address (`verified_address_vouched`), which no link is while addresses do not
   change (`bound_of_keepsAddress`); a verified user who changes the address keeps
   the flag (`unvouched_address`). -/
namespace FastiKit

open Interleave Relational

/-- The token was mailed to the address. -/
def World.mailedTo (w : World) (token : TokenPayload) (email : String) : Bool :=
  w.staged.any (fun event => event.payload.token = token && event.payload.recipients = [email])

/-- A verification token mailed to the user's current address was consumed for the
user. -/
def Vouched (w : World) (u : User) : Prop :=
  ∃ token response, (Request.verifyEmail token, Except.ok response) ∈ w.responses ∧
    token.type = .emailVerify ∧ token.sub = u.id ∧ w.mailedTo token u.email = true

/-- The user and the link of a verification that commits when the thread `i` runs. -/
def verifies (cfg : Config) (s : Service) (i : Nat) : Option (Uuid × TokenPayload) :=
  match s.pending i with
  | some (.verifyEmail userId token) =>
    match (execOp cfg (.verifyEmail userId token) s.state).1 with
    | .ok _ => some (userId, token)
    | .error _ => none
  | _ => none

/-- A PATCH that commits another address finds an unverified user, and a verification that
commits used a link mailed to the address the user has by then. -/
def boundToAddress (cfg : Config) (s : Service) : Action Request Event → Bool
  | .run i =>
    (patched cfg s i).all (fun (userId, fields) => (s.state.db.users.get userId).all (fun u =>
      !u.isVerified || fields.email.join.all (fun e => e = u.email))) &&
    (verifies cfg s i).all (fun (userId, token) => (s.state.db.users.get userId).all (fun u =>
      s.state.mailedTo token u.email))
  | _ => true

theorem verifies_or_unchanged (cfg : Config) {s : Service} {i : Nat} {userId : Uuid} {token : TokenPayload}
    (hw : s.Waits i (.verifyEmail userId token)) : verifies cfg s i = some (userId, token) ∨
      (execOp cfg (.verifyEmail userId token) s.state).2.db = s.state.db := by
  have heff := execOp_effect cfg (.verifyEmail userId token) s.state
  generalize hanswer : (execOp cfg (.verifyEmail userId token) s.state).1 = answer at heff
  generalize hdb : (execOp cfg (.verifyEmail userId token) s.state).2.db = db' at heff ⊢
  cases heff with
  | same _ => exact .inr rfl
  | verified hu ht =>
    left
    simp only [verifies, Pool.pending_of_waits hw, hanswer]
  | mailed hop _ _ => cases hop

theorem World.mailedTo_evolves {w w' : World} (h : Evolves w w') {token : TokenPayload} {email : String}
    (hmailed : w.mailedTo token email = true) : w'.mailedTo token email = true := by
  obtain ⟨event, hevent, hpayload⟩ := List.any_eq_true.mp hmailed
  obtain ⟨event', hevent', hsame⟩ := h.staged event hevent
  exact List.any_eq_true.mpr ⟨event', hevent', by rw [hsame.2]; exact hpayload⟩

theorem Vouched.evolves {w w' : World} {u u' : User} (h : Vouched w u) (hev : Evolves w w') (hid : u'.id = u.id)
    (hemail : u'.email = u.email) : Vouched w' u' := by
  obtain ⟨token, response, hused, htype, hsub, hmailed⟩ := h
  refine ⟨token, response, hev.responses _ hused, htype, ?_, ?_⟩
  · rw [hid]
    exact hsub
  · rw [hemail]
    exact World.mailedTo_evolves hev hmailed

/-- Every verified user's address is vouched for. -/
def AllVouched (w : World) : Prop :=
  ∀ userId u, w.db.users.get userId = some u → u.isVerified = true → Vouched w u

/-- Only a verification sets the flag. -/
theorem Op.sets_isVerified {op : Op} {w : World} (hj : Justified op w) {userId : Uuid} {fields : UserFields}
    (hsets : op.sets = some (userId, fields)) (hne : ∀ token, op ≠ .verifyEmail userId token) :
    fields.isVerified = none := by
  cases op <;> cases hsets
  case updateUser => exact hj.2
  case verifyEmail token => exact absurd rfl (hne token)
  all_goals rfl

/-- Only a PATCH sets the address. -/
theorem Op.sets_email {op : Op} {userId : Uuid} {fields : UserFields} (hsets : op.sets = some (userId, fields))
    (hne : ∀ fields, op ≠ .updateUser userId fields) : fields.email = none := by
  cases op <;> cases hsets
  case updateUser => exact absurd rfl (hne fields)
  all_goals rfl

/-- What is asked of an operation in `w`, if it changes the database. -/
def BoundToAddress (op : Op) (w : World) : Prop :=
  (∀ userId fields u, op = .updateUser userId fields → w.db.users.get userId = some u → u.isVerified = true →
    ∀ email, fields.email.join = some email → email = u.email) ∧
  ∀ userId token u, op = .verifyEmail userId token → w.db.users.get userId = some u →
    w.mailedTo token u.email = true

theorem boundToAddress_run {cfg : Config} {s : Service} {i : Nat} {op : Op} (hw : s.Waits i op)
    (h : boundToAddress cfg s (.run i) = true) :
    (execOp cfg op s.state).2.db = s.state.db ∨ BoundToAddress op s.state := by
  simp only [boundToAddress, Bool.and_eq_true] at h
  obtain ⟨hpatch, hverify⟩ := h
  by_cases hsame : (execOp cfg op s.state).2.db = s.state.db
  · exact .inl hsame
  · right
    refine ⟨?_, ?_⟩
    · rintro userId fields u rfl hu hverified email hemail
      have hpatched := (patched_or_unchanged cfg hw).resolve_right hsame
      simpa [hpatched, hu, hverified, hemail] using hpatch
    · rintro userId token u rfl hu
      have hverifies := (verifies_or_unchanged cfg hw).resolve_right hsame
      simpa [hverifies, hu] using hverify

theorem waits_of_verifies {cfg : Config} {s : Service} {i : Nat} {userId : Uuid} {token : TokenPayload}
    (h : verifies cfg s i = some (userId, token)) : s.Waits i (.verifyEmail userId token) := by
  apply Pool.waits_of_pending
  unfold verifies at h
  split at h
  · next hpending =>
    split at h
    · cases h
      exact hpending
    · cases h
  · cases h

/-- The consumed link is on record from the step that sets the flag. -/
theorem Guarantee.verified {cfg : Config} {userId : Uuid} {token : TokenPayload} {w w' : World}
    (h : Guarantee cfg (.verifyEmail userId token) w w') :
    w'.db.users = w.db.users ∨ token.type = .emailVerify ∧ token.sub = userId ∧
      ∃ response, (Request.verifyEmail token, Except.ok response) ∈ w'.responses := by
  obtain ⟨hsub, htype, -⟩ := h.1
  obtain ⟨r, heff, -, -, hres⟩ := h.effect
  generalize w'.db = db' at heff ⊢
  cases heff with
  | same _ => exact .inl rfl
  | mailed hop _ _ => cases hop
  | verified hu ht =>
    right
    refine ⟨htype, hsub.symm, ?_⟩
    rcases hres with ⟨-, hc⟩ | ⟨req, out, hres, ha⟩
    · cases hc
    · rw [hres]
      cases ha with
      | verifyEmail => exact ⟨_, List.mem_cons_self⟩
      | rest hc _ => cases hc

/-- A step that the condition allows keeps every verified address vouched for. -/
theorem allVouched_step {cfg : Config} {op : Op} {w w' : World} (hg : Guarantee cfg op w w')
    (hbound : (execOp cfg op w).2.db = w.db ∨ BoundToAddress op w) (h : AllVouched w) : AllVouched w' := by
  intro userId u' hu' hverified'
  have hev := hg.evolves
  rcases hbound with hsame | hbound
  · rw [hg.db, hsame] at hu'
    exact (h userId u' hu' hverified').evolves hev rfl rfl
  obtain ⟨r, heff, -⟩ := hg.effect
  rcases heff.user_from hu' with ⟨u, hu, rfl | ⟨fields, hsets, rfl⟩⟩ | ⟨_, _, _, _, _, _, -, rfl⟩
  · exact (h userId _ hu hverified').evolves hev rfl rfl
  · -- the row was updated
    have hid : (fields.apply w.now u).id = u.id := UserFields.apply_id _ _ _
    by_cases hop : ∃ token, op = .verifyEmail userId token
    · obtain ⟨token, rfl⟩ := hop
      cases hsets
      rcases hg.verified with hsame | ⟨htype, hsub, response, hused⟩
      · rw [hsame, hu] at hu'
        rw [← Option.some.inj hu'] at hverified' ⊢
        exact (h userId u hu hverified').evolves hev rfl rfl
      · refine ⟨token, response, hused, htype, ?_, ?_⟩
        · rw [hid, hsub]
          exact (Table.get_key hu).symm
        · have hmailed := hbound.2 userId token u rfl hu
          have hemail : (UserFields.apply { isVerified := some true } w.now u).email = u.email := by simp
          rw [hemail]
          exact World.mailedTo_evolves hev hmailed
    · have hflag := Op.sets_isVerified hg.1 hsets (fun token e => hop ⟨token, e⟩)
      rw [UserFields.apply_isVerified, hflag, Option.getD_none] at hverified'
      apply (h userId u hu hverified').evolves hev hid
      have hjoin : fields.email.bind id = fields.email.join := rfl
      rw [UserFields.apply_email, hjoin]
      cases hemail : fields.email.join with
      | none => rfl
      | some email =>
        by_cases hpatch : ∃ fields, op = .updateUser userId fields
        · obtain ⟨fields', rfl⟩ := hpatch
          cases hsets
          exact hbound.1 userId fields u rfl hu hverified' email hemail
        · have hnone := Op.sets_email hsets (fun fields' e => hpatch ⟨fields', e⟩)
          rw [hnone] at hemail
          cases hemail
  · -- a new row is not verified
    cases hverified'

/-- A verified flag vouches for the current address, while no PATCH changes the address
of a verified user and no verification uses a link mailed to another address. -/
theorem verified_address_vouched (cfg : Config) (now : Time) (s : Service)
    (h : (service cfg).Steps (fun v a => boundToAddress cfg v a = true) (System.start (World.init now)) s)
    (userId : Uuid) (u : User) (hu : s.state.db.users.get userId = some u) (hverified : u.isVerified = true) :
    Vouched s.state u := by
  have hall : AllVouched s.state := by
    refine run_invariant (P := AllVouched) ?_ ?_ h (served_start now) ?_
    · intro v i op w' hv hP hC hw hg
      exact allVouched_step hg (boundToAddress_run hw hC) hP
    · intro v e w' _ hP _ he
      have hdb := (World.event_frame he).1
      intro userId u hu hverified
      rw [hdb] at hu
      exact (hP userId u hu hverified).evolves (World.event_evolves he) rfl rfl
    · intro userId u hu
      cases hu
  exact hall userId u hu hverified

/-! Runs in which no address changes. -/

/-- A PATCH that commits leaves the address as it is. -/
def keepsAddress (cfg : Config) (s : Service) : Action Request Event → Bool
  | .run i => (patched cfg s i).all (fun (userId, fields) =>
    (s.state.db.users.get userId).all (fun u => fields.email.join.all (fun e => e = u.email)))
  | _ => true

/-- The same users have the same addresses. -/
def SameAddresses (db db' : Db) : Prop :=
  ∀ userId u, db.users.get userId = some u → ∃ u', db'.users.get userId = some u' ∧ u'.email = u.email

/-- Every user kept the address all along, and verification links were mailed to it. -/
structure Unmoved (w : World) : Prop where
  versions : ∀ db ∈ w.versions, SameAddresses db w.db
  links : ∀ event ∈ w.staged, event.payload.token.type = .emailVerify →
    ∃ u, w.db.users.get event.payload.token.sub = some u ∧ event.payload.recipients = [u.email]

theorem SameAddresses.refl (db : Db) : SameAddresses db db := fun _ u hu => ⟨u, hu, rfl⟩

theorem SameAddresses.trans {a b c : Db} (hab : SameAddresses a b) (hbc : SameAddresses b c) :
    SameAddresses a c := by
  intro userId u hu
  obtain ⟨ub, hub, hb⟩ := hab userId u hu
  obtain ⟨uc, huc, hc⟩ := hbc userId ub hub
  exact ⟨uc, huc, hc.trans hb⟩

theorem keepsAddress_run {cfg : Config} {s : Service} {i : Nat} {userId : Uuid} {fields : UserFields} {u : User}
    (hw : s.Waits i (.updateUser userId fields)) (h : keepsAddress cfg s (.run i) = true)
    (hu : s.state.db.users.get userId = some u) :
    (execOp cfg (.updateUser userId fields) s.state).2.db = s.state.db ∨
      ∀ email, fields.email.join = some email → email = u.email := by
  rcases patched_or_unchanged cfg hw with hpatched | hsame
  · right
    intro email hemail
    simpa [keepsAddress, hpatched, hu, hemail] using h
  · exact .inl hsame

/-- A step that changes no address by a PATCH changes none. -/
theorem Effect.sameAddresses {w : World} {op : Op} {r : op.Res} {db' : Db} (h : Effect w op r db')
    (hpatch : ∀ userId fields u, op = .updateUser userId fields → w.db.users.get userId = some u →
      ∀ email, fields.email.join = some email → email = u.email) : SameAddresses w.db db' := by
  intro userId u hu
  rcases h.user hu with hsame | ⟨fields, hsets, hset⟩
  · exact ⟨u, hsame, rfl⟩
  · refine ⟨_, hset, ?_⟩
    have hjoin : fields.email.bind id = fields.email.join := rfl
    rw [UserFields.apply_email, hjoin]
    cases hemail : fields.email.join with
    | none => rfl
    | some email =>
      by_cases hop : ∃ fields, op = .updateUser userId fields
      · obtain ⟨fields', rfl⟩ := hop
        cases hsets
        exact hpatch userId fields u rfl hu email hemail
      · have hnone := Op.sets_email hsets (fun fields' e => hop ⟨fields', e⟩)
        rw [hnone] at hemail
        cases hemail

theorem unmoved_step {cfg : Config} {op : Op} {w w' : World} (hg : Guarantee cfg op w w')
    (hsame : SameAddresses w.db w'.db) (h : Unmoved w) : Unmoved w' := by
  obtain ⟨r, heff, -⟩ := hg.effect
  refine ⟨?_, ?_⟩
  · intro db hdb
    rcases hg.versions with hversions | hversions
    · rw [hversions] at hdb
      exact (h.versions db hdb).trans hsame
    · rw [hversions, List.mem_cons] at hdb
      rcases hdb with rfl | hdb
      · exact .refl _
      · exact (h.versions db hdb).trans hsame
  · intro event hevent htype
    rw [hg.outbox.2] at hevent
    rcases execOp_event_from cfg op hevent with
      ⟨old, hold, hkept⟩ | ⟨userId, fullName, email, passwordHash, jti, rfl, hrow⟩ | ⟨userId, pending, hop⟩
    · rw [hkept.2] at htype ⊢
      obtain ⟨u, hu, hto⟩ := h.links old hold htype
      obtain ⟨u', hu', hemail⟩ := hsame _ u hu
      exact ⟨u', hu', by rw [hemail]; exact hto⟩
    · obtain ⟨exp, hp⟩ := hg.1
      rw [← hg.db] at hrow
      rw [hp]
      exact ⟨_, hrow, rfl⟩
    · cases op <;> cases hop
      · -- the address was read from some version
        obtain ⟨db, hdb, u, exp, hu, hp⟩ := hg.1
        obtain ⟨u', hu', hemail⟩ := ((h.versions db hdb).trans hsame) _ u hu
        rw [hp]
        exact ⟨u', hu', by rw [hemail]; rfl⟩
      · obtain ⟨db, -, u, exp, -, hp⟩ := hg.1
        rw [hp] at htype
        cases htype

/-- A link that a verification uses was mailed to the user's address. -/
theorem Unmoved.mailedTo {w : World} (h : Unmoved w) (hs : Sane w) {token : TokenPayload} {u : User}
    (hj : Justified (.verifyEmail token.sub token) w) (hu : w.db.users.get token.sub = some u) :
    w.mailedTo token u.email = true := by
  obtain ⟨-, htype, hissued⟩ := hj
  simp only [World.issued, Bool.or_eq_true, List.contains_iff_mem, List.any_eq_true, decide_eq_true_eq] at hissued
  rcases hissued with hsigned | ⟨event, hevent, rfl⟩
  · exfalso
    rcases (hs.signed token hsigned).1 with haccess | hrefresh
    · rw [htype] at haccess
      cases haccess
    · rw [htype] at hrefresh
      cases hrefresh
  · obtain ⟨u', hu', hto⟩ := h.links event hevent htype
    rw [hu] at hu'
    cases hu'
    exact List.any_eq_true.mpr ⟨event, hevent, by simp [hto]⟩

/-- While no PATCH changes an address, every link a verification uses is bound to the
user's address by itself. -/
theorem bound_of_keepsAddress (cfg : Config) (now : Time) (s : Service)
    (h : (service cfg).Steps (fun v a => keepsAddress cfg v a = true) (System.start (World.init now)) s) :
    (service cfg).Steps (fun v a => boundToAddress cfg v a = true) (System.start (World.init now)) s := by
  have key : Served.Pool cfg s ∧ Unmoved s.state ∧
      (service cfg).Steps (fun v a => boundToAddress cfg v a = true) (System.start (World.init now)) s := by
    refine h.invariant (J := fun v => Served.Pool cfg v ∧ Unmoved v.state ∧
      (service cfg).Steps (fun v a => boundToAddress cfg v a = true) (System.start (World.init now)) v) ?_
      ⟨served_start now, ⟨?_, ?_⟩, .refl⟩
    · intro v a v' hv hC ha
      obtain ⟨hserved, hunmoved, hsteps⟩ := hv
      have hserved' : Served.Pool cfg v' := (service_sound cfg (fun _ _ => True)).step hserved trivial ha
      rcases step_world hserved ha with ⟨hrun, -, hstate⟩ | ⟨i, op, rfl, hw, hg⟩ | ⟨e, rfl, he⟩
      · refine ⟨hserved', by rw [hstate]; exact hunmoved, hsteps.snoc ?_ ha⟩
        cases a with
        | run i => exact absurd rfl (hrun i)
        | _ => rfl
      · have hsame : SameAddresses v.state.db v'.state.db := by
          obtain ⟨r, heff, -⟩ := hg.effect
          by_cases hunchanged : (execOp cfg op v.state).2.db = v.state.db
          · rw [hg.db, hunchanged]
            exact .refl _
          · apply heff.sameAddresses
            rintro userId fields u rfl hu
            exact (keepsAddress_run hw hC hu).resolve_left hunchanged
        refine ⟨hserved', unmoved_step hg hsame hunmoved, hsteps.snoc ?_ ha⟩
        simp only [boundToAddress, Bool.and_eq_true, Option.all_eq_true]
        refine ⟨?_, ?_⟩
        · intro patch hpatched u hu
          have hkeeps : (patched cfg v i).all (fun (userId, fields) => (v.state.db.users.get userId).all
            (fun u => fields.email.join.all (fun e => e = u.email))) = true := hC
          simp only [hpatched, Option.all_some, hu] at hkeeps
          rw [hkeeps, Bool.or_true]
        · rintro ⟨userId, token⟩ hverifies u hu
          obtain rfl := System.waits_unique hw (waits_of_verifies hverifies)
          obtain rfl : userId = token.sub := hg.1.1
          exact hunmoved.mailedTo hserved.2.1 hg.1 hu
      · obtain ⟨hdb, -⟩ := World.event_frame he
        have hversions := (World.event_versions he).1
        refine ⟨hserved', ⟨?_, ?_⟩, hsteps.snoc rfl ha⟩
        · rw [hversions, hdb]
          exact hunmoved.versions
        · rw [(World.event_staged he).2, hdb]
          exact hunmoved.links
    · intro db hdb
      rw [List.mem_singleton.mp hdb]
      exact .refl _
    · intro event hevent
      cases hevent
  exact key.2.2

/-- A user registers and verifies the address. -/
theorem verified_address_vouched_sample : ∃ (s : Service) (u : User), s.state.db.users.get 0 = some u ∧
    u.email = "ada@example.org" ∧ u.isVerified = true ∧ Vouched s.state u := by
  have hrun : ((service .sample).runIf (boundToAddress .sample) (System.start (World.init 0)) signIn).any (fun s =>
      decide (s.state.db.users.get 0 = some sampleUser)) = true := by decide +kernel
  obtain ⟨s, hs, hfacts⟩ := (Option.any_eq_true _ _).mp hrun
  have hu := of_decide_eq_true hfacts
  exact ⟨s, sampleUser, hu, rfl, rfl,
    verified_address_vouched .sample 0 s (System.steps_of_runIf _ _ _ hs) 0 sampleUser hu rfl⟩

/-- A verified user logs in and changes the address. -/
theorem unvouched_address : ¬ ∀ (s : Service) (userId : Uuid) (u : User),
    Reaches .sample (System.start (World.init 0)) s → s.state.db.users.get userId = some u →
    u.isVerified = true → Vouched s.state u := by
  intro h
  have hrun : ((service .sample).run (System.start (World.init 0))
      (signIn ++ serially 3 12 (.updateUser sampleAccess ⟨none, some (some "eve@example.org"), none⟩))).any
      (fun s => decide (s.state.db.users.get 0 = some { sampleUser with email := "eve@example.org" } ∧
        s.state.staged.map (fun event => event.payload.recipients) = [["ada@example.org"]])) =
      true := by decide +kernel
  obtain ⟨s, hs, hfacts⟩ := (Option.any_eq_true _ _).mp hrun
  obtain ⟨hu, hmails⟩ := of_decide_eq_true hfacts
  obtain ⟨token, response, -, -, -, hmailed⟩ :=
    h s 0 _ (System.steps_of_run (fun _ _ => trivial) _ _ _ hs) hu rfl
  -- the only email went to the old address
  obtain ⟨event, hevent, hto⟩ := List.any_eq_true.mp hmailed
  have hmem := List.mem_map_of_mem (f := fun event => event.payload.recipients) hevent
  rw [hmails, List.mem_singleton] at hmem
  simp [hmem] at hto

end FastiKit
