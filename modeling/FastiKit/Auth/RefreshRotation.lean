import FastiKit.Auth.Obligations

/- Refresh rotation is exclusive, whatever runs beside it.

   What is proved, of every pool the service reaches:
     1. a session's stored generation is the number of refresh requests that
        succeeded on it;
     2. for every session and generation, at most one request succeeds;
     3. a token can still be redeemed only while it carries the stored
        generation.
   The three hold together: `Exclusive` adds to (1) and (2) that a redeemed
   generation lies below the stored one, and every operation keeps it. -/
namespace FastiKit

open Interleave Relational

/-- A refresh request that succeeded on the session. -/
def refreshed (sid : Uuid) : Request × Except Err Response → Bool
  | (.refresh cookie, .ok _) => cookie.session.any (fun claims => claims.1 = sid)
  | _ => false

/-- A refresh request that presented the generation and succeeded. -/
def redeemed (sid : Uuid) (generation : Nat) : Request × Except Err Response → Bool
  | (.refresh cookie, .ok _) => cookie.session = some (sid, generation)
  | _ => false

theorem refreshed_of_redeemed {sid : Uuid} {generation : Nat} {x : Request × Except Err Response}
    (h : redeemed sid generation x = true) : refreshed sid x = true := by
  obtain ⟨req, out⟩ := x
  cases req <;> cases out <;> simp_all [redeemed, refreshed]

/-- A response that is not to a refresh changes neither count. -/
theorem not_refreshed {req : Request} {out : Except Err Response}
    (h : ∀ cookie response, req = .refresh cookie → out ≠ .ok response) (sid : Uuid) :
    refreshed sid (req, out) = false ∧ ∀ generation, redeemed sid generation (req, out) = false := by
  cases req with
  | refresh cookie =>
    cases out with
    | ok response => exact absurd rfl (h cookie response rfl)
    | error e => exact ⟨rfl, fun _ => rfl⟩
  | _ => exact ⟨rfl, fun _ => rfl⟩

/-! The invariant. -/

structure Exclusive (w : World) : Prop where
  generation : ∀ sid row, w.db.refreshSessions.get sid = some row →
    w.responses.countP (refreshed sid) = row.generation
  past : ∀ sid gen, ∀ x ∈ w.responses, redeemed sid gen x = true →
    ∀ row, w.db.refreshSessions.get sid = some row → gen < row.generation
  once : ∀ sid gen, w.responses.countP (redeemed sid gen) ≤ 1
  known : ∀ sid, ∀ x ∈ w.responses, refreshed sid x = true → sid < w.uuids

theorem Exclusive.init (now : Time) : Exclusive (World.init now) := by
  refine ⟨?_, ?_, ?_, ?_⟩
  · intro sid row h; cases h
  · intro sid gen x h; cases h
  · intro sid gen; exact Nat.zero_le 1
  · intro sid x h; cases h

/-- The responses of `w'` are those of `w`, or one more that is not to a refresh. -/
def NoRefresh (w w' : World) : Prop :=
  w'.responses = w.responses ∨ ∃ req out, w'.responses = (req, out) :: w.responses ∧
    ∀ cookie response, req = .refresh cookie → out ≠ .ok response

theorem NoRefresh.count {w w' : World} (h : NoRefresh w w') (sid : Uuid) :
    w'.responses.countP (refreshed sid) = w.responses.countP (refreshed sid) ∧
      ∀ gen, w'.responses.countP (redeemed sid gen) = w.responses.countP (redeemed sid gen) := by
  rcases h with h | ⟨req, out, h, hno⟩
  · rw [h]; exact ⟨rfl, fun _ => rfl⟩
  · obtain ⟨h₁, h₂⟩ := not_refreshed hno sid
    rw [h]
    refine ⟨List.countP_cons_of_neg (by simp [h₁]), ?_⟩
    intro gen
    exact List.countP_cons_of_neg (by simp [h₂])

theorem NoRefresh.mem {w w' : World} (h : NoRefresh w w') {sid : Uuid} {x : Request × Except Err Response}
    (hx : x ∈ w'.responses) (hr : refreshed sid x = true) : x ∈ w.responses := by
  rcases h with h | ⟨req, out, h, hno⟩
  · rw [h] at hx; exact hx
  · rw [h, List.mem_cons] at hx
    rcases hx with rfl | hx
    · rw [(not_refreshed hno sid).1] at hr; cases hr
    · exact hx

/-- A step that touches no generation and answers no refresh. -/
theorem Exclusive.of_noRefresh {w w' : World} (h : Exclusive w) (hres : NoRefresh w w')
    (huuids : w.uuids ≤ w'.uuids)
    (hrow : ∀ sid row, w'.db.refreshSessions.get sid = some row →
      ∃ row', w.db.refreshSessions.get sid = some row' ∧ row.generation = row'.generation) :
    Exclusive w' := by
  refine ⟨?_, ?_, ?_, ?_⟩
  · intro sid row hr
    obtain ⟨row', hr', hgen⟩ := hrow sid row hr
    rw [(hres.count sid).1, h.generation sid row' hr', hgen]
  · intro sid gen x hx hred row hr
    obtain ⟨row', hr', hgen⟩ := hrow sid row hr
    rw [hgen]
    exact h.past sid gen x (hres.mem hx (refreshed_of_redeemed hred)) hred row' hr'
  · intro sid gen
    rw [(hres.count sid).2 gen]
    exact h.once sid gen
  · intro sid x hx hr
    exact Nat.lt_of_lt_of_le (h.known sid x (hres.mem hx hr) hr) huuids

/-- A login: its session starts at generation zero, under an id no response names. -/
theorem Exclusive.opened {w w' : World} (h : Exclusive w) {userId : Uuid} {expiresAt : Time}
    {refreshSessions} (hi : w.db.refreshSessions.insert (newSession w.uuids userId expiresAt) =
      some refreshSessions)
    (hdb : w'.db.refreshSessions = refreshSessions) (hres : NoRefresh w w') (huuids : w.uuids ≤ w'.uuids) :
    Exclusive w' := by
  have hget : ∀ sid, w'.db.refreshSessions.get sid =
      if w.uuids = sid then some (newSession w.uuids userId expiresAt) else w.db.refreshSessions.get sid := by
    intro sid
    rw [hdb, Table.get_insert hi]
    rfl
  have hnone : ∀ x ∈ w.responses, refreshed w.uuids x = false := by
    intro x hx
    cases hr : refreshed w.uuids x with
    | false => rfl
    | true => exact absurd (h.known w.uuids x hx hr) (Nat.lt_irrefl _)
  refine ⟨?_, ?_, ?_, ?_⟩
  · intro sid row hr
    rw [(hres.count sid).1]
    rw [hget] at hr
    split at hr
    · next hsid =>
      cases hr
      show _ = 0
      rw [← hsid, List.countP_eq_zero]
      intro x hx
      rw [hnone x hx]
      exact Bool.false_ne_true
    · exact h.generation sid row hr
  · intro sid gen x hx hred row hr
    have hx' := hres.mem hx (refreshed_of_redeemed hred)
    rw [hget] at hr
    split at hr
    · next hsid =>
      have := hnone x hx'
      rw [hsid, refreshed_of_redeemed hred] at this
      cases this
    · exact h.past sid gen x hx' hred row hr
  · intro sid gen
    rw [(hres.count sid).2 gen]
    exact h.once sid gen
  · intro sid x hx hr
    exact Nat.lt_of_lt_of_le (h.known sid x (hres.mem hx hr) hr) huuids

/-- A refresh that succeeds: the row moves on by one, and the generation it
presented was never redeemed before. -/
theorem Exclusive.rotated {w w' : World} (h : Exclusive w) (hs : Sane w) {cookie : TokenPayload}
    {response : Response} {sid : Uuid} {gen : Nat} {now : Time} {row : RefreshSession}
    (hses : cookie.session = some (sid, gen)) (hr : w.db.refreshSessions.get sid = some row)
    (hrot : row.rotatable cookie.sub gen now = true)
    (hdb : w'.db = w.db.rotate sid cookie.sub gen now)
    (hres : w'.responses = (.refresh cookie, .ok response) :: w.responses) (huuids : w.uuids ≤ w'.uuids) :
    Exclusive w' := by
  have hgen : row.generation = gen := by
    simp only [RefreshSession.rotatable, Bool.and_eq_true, decide_eq_true_eq] at hrot
    exact hrot.1.1.2
  have hget : ∀ k, w'.db.refreshSessions.get k =
      if k = sid then some (row.rotated now) else w.db.refreshSessions.get k := by
    intro k
    rw [hdb, Db.get_rotate hr hrot]
  have hnew : ∀ sid', refreshed sid' (.refresh cookie, .ok response) = decide (sid = sid') := by
    intro sid'
    simp [refreshed, hses]
  have hnew' : ∀ sid' gen', redeemed sid' gen' (.refresh cookie, .ok response) =
      decide (sid = sid' ∧ gen = gen') := by
    intro sid' gen'
    simp [redeemed, hses]
  refine ⟨?_, ?_, ?_, ?_⟩
  · intro k row' hr'
    rw [hres, List.countP_cons, hnew]
    rw [hget] at hr'
    split at hr'
    · next hk =>
      cases hr'
      subst hk
      rw [h.generation k row hr]
      simp [RefreshSession.rotated]
    · next hk =>
      rw [h.generation k row' hr']
      have hk' : sid ≠ k := fun e => hk e.symm
      simp [hk']
  · intro k gen' x hx hred row' hr'
    rw [hres, List.mem_cons] at hx
    rw [hget] at hr'
    rcases hx with rfl | hx
    · rw [hnew', decide_eq_true_eq] at hred
      obtain ⟨rfl, rfl⟩ := hred
      rw [if_pos rfl] at hr'
      cases hr'
      rw [← hgen]
      exact Nat.lt_succ_self _
    · split at hr'
      · next hk =>
        cases hr'
        subst hk
        exact Nat.lt_succ_of_lt (h.past k gen' x hx hred row hr)
      · exact h.past k gen' x hx hred row' hr'
  · intro k gen'
    rw [hres, List.countP_cons, hnew']
    by_cases hk : sid = k ∧ gen = gen'
    · obtain ⟨rfl, rfl⟩ := hk
      have hzero : w.responses.countP (redeemed sid gen) = 0 := by
        rw [List.countP_eq_zero]
        intro x hx hred
        have hlt := h.past sid gen x hx hred row hr
        omega
      simp [hzero]
    · simpa [hk] using h.once k gen'
  · intro k x hx hr'
    rw [hres, List.mem_cons] at hx
    rcases hx with rfl | hx
    · rw [hnew, decide_eq_true_eq] at hr'
      subst hr'
      exact Nat.lt_of_lt_of_le (hs.sessions sid row hr) huuids
    · exact Nat.lt_of_lt_of_le (h.known k x hx hr') huuids

/-- Every guaranteed step keeps the invariant. -/
theorem Exclusive.step {cfg : Config} {op : Op} {w w' : World} (h : Exclusive w) (hs : Sane w)
    (hg : Guarantee cfg op w w') : Exclusive w' := by
  obtain ⟨r, heff, -, huuids, ⟨hres, hc⟩ | ⟨req, out, hres, ha⟩⟩ := hg.effect
  · exact h.of_noRefresh (.inl hres) huuids
      (fun _ _ hr => heff.generation (Op.generates_of_concludes hc) hr)
  · have hrest : (op.generates r = false) →
        (∀ cookie response, req = .refresh cookie → out ≠ .ok response) → Exclusive w' := fun hgen hno =>
      h.of_noRefresh (.inr ⟨req, out, hres, hno⟩) huuids (fun _ _ hr => heff.generation hgen hr)
    -- what the response answers decides what became of the generations
    cases ha with
    | login =>
      obtain ⟨rfl, sessions, hi, hdb⟩ := heff.of_createSession
      refine h.opened hi (by rw [hdb]) (.inr ⟨_, _, hres, ?_⟩) huuids
      intro cookie response hreq
      cases hreq
    | refresh hses huser =>
      obtain ⟨row, hr, hrot, rfl, hdb⟩ := heff.of_rotate
      exact h.rotated hs hses hr hrot hdb hres huuids
    | verifyEmail => exact hrest rfl (fun _ _ hreq => by cases hreq)
    | resetPassword => exact hrest rfl (fun _ _ hreq => by cases hreq)
    | rest hop hout =>
      refine hrest (Op.generates_of_concludes hop) ?_
      rintro cookie response rfl rfl
      have := (hout response rfl).1
      cases this

theorem exclusive_of_reaches {cfg : Config} {now : Time} {s : Service}
    (h : Reaches cfg (System.start (World.init now)) s) : Exclusive s.state := by
  refine run_invariant (P := Exclusive) ?_ ?_ h (served_start now) (.init now)
  · intro v i op w' hv hP _ _ hg
    exact hP.step hv hg
  · intro v e w' _ hP _ he
    obtain ⟨hdb, huuids, -, hres, -⟩ := World.event_frame he
    refine hP.of_noRefresh (.inl hres) (Nat.le_of_eq huuids.symm) ?_
    intro sid row hr
    rw [hdb] at hr
    exact ⟨row, hr, rfl⟩

/-- A generation that is not the stored one is not redeemed. -/
theorem redeemed_step {cfg : Config} {op : Op} {w w' : World} (hg : Guarantee cfg op w w') {sid : Uuid}
    {gen : Nat} (hne : ∀ row, w.db.refreshSessions.get sid = some row → row.generation ≠ gen) :
    w'.responses.countP (redeemed sid gen) = w.responses.countP (redeemed sid gen) := by
  obtain ⟨r, heff, -, -, ⟨hres, -⟩ | ⟨req, out, hres, ha⟩⟩ := hg.effect
  · rw [hres]
  · rw [hres]
    apply List.countP_cons_of_neg
    intro hred
    cases ha with
    | refresh hses huser =>
      obtain ⟨row, hr, hrot, -, -⟩ := heff.of_rotate
      simp only [redeemed, hses, Option.some.injEq, Prod.mk.injEq, decide_eq_true_eq] at hred
      simp only [RefreshSession.rotatable, Bool.and_eq_true, decide_eq_true_eq] at hrot
      exact hne row (hred.1 ▸ hr) (hrot.1.1.2.trans hred.2)
    | login => cases hred
    | verifyEmail => cases hred
    | resetPassword => cases hred
    | rest hop hout =>
      cases req with
      | refresh cookie =>
        cases out with
        | ok response =>
          have := (hout response rfl).1
          cases this
        | error e => cases hred
      | _ => cases hred

/-- A redemption between two states presented the generation stored in the
first. -/
theorem redeemed_carries_stored {cfg : Config} {s s' : Service} (hs : Served.Pool cfg s)
    (h : Reaches cfg s s') {token : TokenPayload} {sid : Uuid} {gen : Nat} (ht : token ∈ s.state.signed)
    (hses : token.session = some (sid, gen))
    (hmore : s.state.responses.countP (redeemed sid gen) < s'.state.responses.countP (redeemed sid gen)) :
    ∃ row, s.state.db.refreshSessions.get sid = some row ∧ row.generation = gen := by
  by_contra hno
  obtain ⟨hsid, hrow⟩ := (hs.2.1.signed token ht).2 sid gen hses
  -- the stored generation, if there is one, is past the token's and only grows
  have hpast : ∀ row, s.state.db.refreshSessions.get sid = some row → gen < row.generation := by
    intro row hr
    exact Nat.lt_of_le_of_ne (hrow row hr).2 (fun e => hno ⟨row, hr, e.symm⟩)
  have hkeep : ∀ w, Evolves s.state w → ∀ row, w.db.refreshSessions.get sid = some row →
      row.generation ≠ gen := by
    intro w hw row hr
    have hlt := hw.session hsid (fun r r' hp (hl : gen < r.generation) => Nat.lt_of_lt_of_le hl hp.generation)
      hpast row hr
    exact Nat.ne_of_gt hlt
  have hsame := run_invariant (P := fun w => Evolves s.state w ∧
      w.responses.countP (redeemed sid gen) = s.state.responses.countP (redeemed sid gen)) ?_ ?_ h hs
      ⟨.refl _, rfl⟩
  · rw [hsame.2] at hmore
    exact Nat.lt_irrefl _ hmore
  · rintro v i op w' hv ⟨hev, hcount⟩ _ _ hg
    exact ⟨hev.trans hg.evolves, (redeemed_step hg (hkeep _ hev)).trans hcount⟩
  · rintro v e w' _ ⟨hev, hcount⟩ _ he
    refine ⟨hev.trans (World.event_evolves he), ?_⟩
    rw [(World.event_frame he).2.2.2.1]
    exact hcount

/-- Refresh rotation is exclusive: the stored generation counts the refreshes that
succeeded, no generation is redeemed twice, and only a token that carries the
stored generation is redeemed later. -/
theorem refresh_rotation_exclusive (cfg : Config) (now : Time) (s : Service)
    (h : Reaches cfg (System.start (World.init now)) s) :
    (∀ sid row, s.state.db.refreshSessions.get sid = some row →
      s.state.responses.countP (refreshed sid) = row.generation) ∧
    (∀ sid gen, s.state.responses.countP (redeemed sid gen) ≤ 1) ∧
    ∀ s', Reaches cfg s s' → ∀ token ∈ s.state.signed, ∀ sid gen, token.session = some (sid, gen) →
      s.state.responses.countP (redeemed sid gen) < s'.state.responses.countP (redeemed sid gen) →
      ∃ row, s.state.db.refreshSessions.get sid = some row ∧ row.generation = gen := by
  have hex := exclusive_of_reaches h
  refine ⟨hex.generation, hex.once, ?_⟩
  intro s' h' token ht sid gen hses hmore
  exact redeemed_carries_stored (served_steps h (served_start now)) h' ht hses hmore

/-- A login, and one refresh of its session. -/
theorem refresh_rotation_exclusive_sample :
    ∃ s, Reaches .sample (System.start (World.init 0)) s ∧
      s.state.responses.countP (refreshed 4) = 1 ∧
      ∀ sid row, s.state.db.refreshSessions.get sid = some row →
        s.state.responses.countP (refreshed sid) = row.generation := by
  have hrun : ((service .sample).run (System.start (World.init 0))
      (signIn ++ serially 3 14 (.refresh (sampleRefresh 6 0)))).map
        (fun s => s.state.responses.countP (refreshed 4)) = some 1 := by decide +kernel
  obtain ⟨s, hs, hcount⟩ := Option.map_eq_some_iff.mp hrun
  have hreach : Reaches .sample (System.start (World.init 0)) s :=
    System.steps_of_run (fun _ _ => trivial) _ _ _ hs
  exact ⟨s, hreach, hcount, (refresh_rotation_exclusive .sample 0 s hreach).1⟩

end FastiKit
