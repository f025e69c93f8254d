import FastiKit.Auth.TokenCheck

/- The checks that come after a moment, one after the other, with whatever happens
   around the requests in between.

   What Redis holds more of in one world than in another is not seen by a check as
   long as READY is missing, for then the table is asked; but a check may fill the
   blocklist and set READY, and from then on it is seen. `Hidden` says which jtis are
   never seen (`HoldsMore.answers_eq`), and `seen_of_not_hidden` that all others are. -/
namespace FastiKit

open Interleave Relational

/-- What comes after: a check of a token, or something around the requests. -/
inductive Later where
  | check (token : TokenPayload)
  | event (e : Event)

/-- An event that cannot happen leaves the world as it is. -/
def World.happen (e : Event) (w : World) : World := (World.event e w).getD w

/-- The answers of the checks among what comes after. -/
def laterAnswers (cfg : Config) : List Later → World → List (Except Err Bool)
  | [], _ => []
  | .check token :: later, w =>
    let checked := (isTokenRevoked token).eval (execOp cfg) w
    checked.1 :: laterAnswers cfg later checked.2
  | .event e :: later, w => laterAnswers cfg later (w.happen e)

/-! What a check leaves behind. -/

/-- The tokens a check fills the blocklist with. -/
def World.active (w : World) : List TokenRef :=
  (RevokedTokenRepository.listActive w.db w.now).filter (fun token => decide (TokenBlocklist.ttlMs token w.now > 0))

/-- The lock of the filling is taken. -/
def Redis.locked (r : Redis) (now : Time) : Bool := r.seedingUntil.any (fun t => decide (now < t))

namespace World

/-- These jtis are SET. -/
def add (tokens : List TokenRef) (w : World) : World :=
  { w with redis := { w.redis with jtis := tokens.reverse ++ w.redis.jtis } }

/-- These jtis are SET, and READY. -/
def fill (tokens : List TokenRef) (w : World) : World :=
  { w with redis := { w.redis with jtis := tokens.reverse ++ w.redis.jtis, ready := true } }

/-- The lock is taken for a minute. -/
def lock (w : World) : World := { w with redis := { w.redis with seedingUntil := some (w.now + 60 * 1000000) } }

/-- A check that cannot go by Redis takes the lock, and if Redis answers fills the blocklist. -/
def checked (w : World) : World :=
  if w.redis.fault = .up ∧ w.redis.ready = true ∨ w.redis.locked w.now = true then w
  else match w.redis.fault with
    | .up => w.lock.fill w.active
    | .lost => w
    | .unacknowledged => w.lock

end World

section Filling
variable (cfg : Config) {w : World}

end Filling

/-! Jtis that are held and not seen. -/

/-- Redis holds the jti until the token has expired, or longer. -/
def Redis.covers (r : Redis) (token : TokenRef) : Bool :=
  r.jtis.any (fun held => held.jti = token.jti && decide (token.expiresAt ≤ held.expiresAt))

/-- No check can tell if Redis holds the token: it is held anyway; or READY is missing,
and nobody gets the lock before the token has expired, or whoever gets it SETs the jti
of the table's row. -/
def Hidden (w : World) (token : TokenRef) : Prop :=
  w.redis.covers token = true ∨
    w.redis.ready = false ∧
      ((∃ until_, w.redis.seedingUntil = some until_ ∧ token.expiresAt ≤ until_) ∨
        ∃ row ∈ w.db.revokedTokens.rows, row.jti = token.jti ∧ token.expiresAt + 999 ≤ row.expiresAt)

/-- The worlds differ in what Redis holds, and maybe in their histories. -/
structure SameButJtis (w w' : World) : Prop where
  now : w'.now = w.now
  db : w'.db = w.db
  fault : w'.redis.fault = w.redis.fault
  ready : w'.redis.ready = w.redis.ready
  lock : w'.redis.seedingUntil = w.redis.seedingUntil

/-- Redis holds more in `w'`, of which nothing is seen. -/
structure HoldsMore (w w' : World) : Prop extends SameButJtis w w' where
  subset : w.redis.jtis ⊆ w'.redis.jtis
  hidden : ∀ token ∈ w'.redis.jtis, token.expiresAt ≤ w.now ∨ Hidden w token

/-- What is held stays held. -/
theorem Hidden.mono {w v : World} {token : TokenRef} (h : Hidden w token) (hjtis : w.redis.jtis ⊆ v.redis.jtis)
    (hready : v.redis.ready = w.redis.ready) (hlock : v.redis.seedingUntil = w.redis.seedingUntil) (hdb : v.db = w.db) :
    Hidden v token := by
  obtain hcovers | hunready := h
  · left
    simp only [Redis.covers, List.any_eq_true] at hcovers ⊢
    obtain ⟨held, hmem, hheld⟩ := hcovers
    exact ⟨held, hjtis hmem, hheld⟩
  · right
    rw [hready, hlock, hdb]
    exact hunready

/-- No check reads the replica, and of the histories only it depends. -/
theorem happen_replicate (version : Nat) (w : World) : ∃ replica, w.happen (.replicate version) = { w with replica } := by
  simp only [World.happen, World.event]
  cases w.versions[version]? with
  | none => exact ⟨w.replica, rfl⟩
  | some replica => exact ⟨replica, rfl⟩

namespace SameButJtis
variable {w w' : World}

theorem locked (h : SameButJtis w w') : w'.redis.locked w'.now = w.redis.locked w.now := by
  rw [Redis.locked, Redis.locked, h.lock, h.now]

theorem active (h : SameButJtis w w') : w'.active = w.active := by
  rw [World.active, World.active, h.db, h.now]

theorem happen (h : SameButJtis w w') (e : Event) : SameButJtis (w.happen e) (w'.happen e) := by
  cases e with
  | tick elapsed => exact ⟨by simp [World.happen, World.event, h.now], h.db, h.fault, h.ready, h.lock⟩
  | replicate version =>
    obtain ⟨replica, hw⟩ := happen_replicate version w
    obtain ⟨replica', hw'⟩ := happen_replicate version w'
    rw [hw, hw']
    exact ⟨h.now, h.db, h.fault, h.ready, h.lock⟩
  | redisFault fault => exact ⟨h.now, h.db, rfl, h.ready, h.lock⟩
  | loseKeys => exact ⟨h.now, h.db, h.fault, rfl, rfl⟩

theorem checked (h : SameButJtis w w') : SameButJtis w.checked w'.checked := by
  unfold World.checked
  rw [h.fault, h.ready, h.locked, h.active]
  split
  · exact h
  · split
    · exact ⟨h.now, h.db, h.fault, rfl, by simp [World.fill, World.lock, h.now]⟩
    · exact h
    · exact ⟨h.now, h.db, h.fault, h.ready, by simp [World.lock, h.now]⟩

end SameButJtis

namespace HoldsMore
variable {w w' : World}

/-- Once READY is there, what is held and has not expired is held in both worlds. -/
theorem revocation (h : HoldsMore w w') (jti : Uuid) : w'.revocation jti = w.revocation jti := by
  rw [World.revocation, World.revocation, h.fault, h.ready]
  by_cases hasked : w.redis.fault = .up ∧ w.redis.ready = true
  · rw [if_pos hasked, if_pos hasked, Bool.eq_iff_iff]
    simp only [Redis.holds, List.any_eq_true, Bool.and_eq_true, decide_eq_true_eq, h.now]
    constructor
    · rintro ⟨token, hmem, hjti, hlive⟩
      obtain hpast | hcovers | ⟨hnone, -⟩ := h.hidden token hmem
      · exact absurd hlive (not_lt.mpr hpast)
      · simp only [Redis.covers, List.any_eq_true, Bool.and_eq_true, decide_eq_true_eq] at hcovers
        obtain ⟨held, hheld, hsame, hlonger⟩ := hcovers
        exact ⟨held, hheld, hsame.trans hjti, lt_of_lt_of_le hlive hlonger⟩
      · rw [hasked.2] at hnone
        cases hnone
    · rintro ⟨token, hmem, hkey⟩
      exact ⟨token, h.subset hmem, hkey⟩
  · rw [if_neg hasked, if_neg hasked, h.db, h.now]

theorem happen (h : HoldsMore w w') (e : Event) : HoldsMore (w.happen e) (w'.happen e) := by
  have hsame := h.toSameButJtis.happen e
  cases e with
  | tick elapsed =>
    refine ⟨hsame, h.subset, ?_⟩
    intro token hmem
    refine (h.hidden token hmem).imp ?_ (fun hhidden => hhidden.mono (List.Subset.refl _) rfl rfl rfl)
    intro hpast
    show token.expiresAt ≤ w.now + elapsed
    unfold Time at *
    omega
  | replicate version =>
    obtain ⟨replica, hw⟩ := happen_replicate version w
    obtain ⟨replica', hw'⟩ := happen_replicate version w'
    rw [hw, hw'] at hsame ⊢
    exact ⟨hsame, h.subset, h.hidden⟩
  | redisFault fault =>
    refine ⟨hsame, h.subset, ?_⟩
    exact fun token hmem => (h.hidden token hmem).imp_right fun hhidden => hhidden.mono (List.Subset.refl _) rfl rfl rfl
  | loseKeys => exact ⟨hsame, List.Subset.refl _, fun token hmem => by cases hmem⟩

/-- A lock that was free can outlast no token that has not expired. -/
theorem hidden_unlocked (h : HoldsMore w w') (hfree : w.redis.locked w.now = false) {token : TokenRef}
    (hmem : token ∈ w'.redis.jtis) : token.expiresAt ≤ w.now ∨ w.redis.covers token = true ∨
      w.redis.ready = false ∧ ∃ row ∈ w.db.revokedTokens.rows, row.jti = token.jti ∧ token.expiresAt + 999 ≤ row.expiresAt := by
  obtain hpast | hcovers | ⟨hready, ⟨t, hlock, hoverslept⟩ | hrow⟩ := h.hidden token hmem
  · exact .inl hpast
  · exact .inr (.inl hcovers)
  · left
    have hpassed : t ≤ w.now := by simpa [Redis.locked, hlock] using hfree
    exact hoverslept.trans hpassed
  · exact .inr (.inr ⟨hready, hrow⟩)

/-- A row that is good for 999 µs after a token that has not expired is SET for its jti. -/
theorem covers_active {row : RevokedToken} {token : TokenRef} (hrow : row ∈ w.db.revokedTokens.rows)
    (hjti : row.jti = token.jti) (hlonger : token.expiresAt + 999 ≤ row.expiresAt) (hlive : w.now < token.expiresAt) :
    ∃ held ∈ w.active, held.jti = token.jti ∧ token.expiresAt ≤ held.expiresAt := by
  have hleft : 1000 ≤ row.expiresAt - w.now := by
    unfold Time at *
    omega
  refine ⟨⟨row.jti, row.expiresAt⟩, List.mem_filter.mpr ⟨List.mem_map.mpr ⟨row, ?_, rfl⟩, ?_⟩, hjti, ?_⟩
  · refine List.mem_filter.mpr ⟨hrow, decide_eq_true ?_⟩
    unfold Time at *
    omega
  · exact decide_eq_true (TokenBlocklist.wholeMs_pos_iff.mpr hleft)
  · show token.expiresAt ≤ row.expiresAt
    unfold Time at *
    omega

theorem checked (h : HoldsMore w w') : HoldsMore w.checked w'.checked := by
  have hsame := h.toSameButJtis.checked
  unfold World.checked at hsame ⊢
  rw [h.fault, h.ready, h.locked, h.active] at hsame ⊢
  by_cases hstays : w.redis.fault = .up ∧ w.redis.ready = true ∨ w.redis.locked w.now = true
  · rw [if_pos hstays, if_pos hstays]
    exact h
  · rw [if_neg hstays, if_neg hstays] at hsame ⊢
    have hfree : w.redis.locked w.now = false := by simpa using (not_or.mp hstays).2
    cases hfault : w.redis.fault with
    | up =>
      simp only [hfault] at hsame ⊢
      refine ⟨hsame, ?_, ?_⟩
      · exact List.append_subset.mpr ⟨List.subset_append_left _ _, List.subset_append_of_subset_right _ h.subset⟩
      -- what both worlds SET now covers what only one has held
      intro token hmem
      have hcovers : (∃ held ∈ w.active.reverse ++ w.redis.jtis, held.jti = token.jti ∧ token.expiresAt ≤ held.expiresAt) →
          Hidden (w.lock.fill w.active) token := by
        rintro ⟨held, hheld, hjti, hlonger⟩
        left
        simp only [Redis.covers, List.any_eq_true, Bool.and_eq_true, decide_eq_true_eq]
        exact ⟨held, hheld, hjti, hlonger⟩
      obtain hnew | hold := List.mem_append.mp hmem
      · exact .inr (hcovers ⟨token, List.mem_append_left _ hnew, rfl, le_refl _⟩)
      · by_cases hlive : w.now < token.expiresAt
        · right
          obtain hpast | hheld | ⟨-, row, hrow, hjti, hlonger⟩ := h.hidden_unlocked hfree hold
          · exact absurd hlive (not_lt.mpr hpast)
          · simp only [Redis.covers, List.any_eq_true, Bool.and_eq_true, decide_eq_true_eq] at hheld
            obtain ⟨held, hmem, hkey⟩ := hheld
            exact hcovers ⟨held, List.mem_append_right _ hmem, hkey⟩
          · obtain ⟨held, hmem, hkey⟩ := covers_active hrow hjti hlonger hlive
            exact hcovers ⟨held, List.mem_append_left _ (List.mem_reverse.mpr hmem), hkey⟩
        · exact .inl (not_lt.mp hlive)
    | lost =>
      simp only [hfault] at hsame ⊢
      exact h
    | unacknowledged =>
      simp only [hfault] at hsame ⊢
      refine ⟨hsame, h.subset, ?_⟩
      intro token hmem
      obtain hpast | hheld | ⟨hready, hrow⟩ := h.hidden_unlocked hfree hmem
      · exact .inl hpast
      · exact .inr (.inl hheld)
      · exact .inr (.inr ⟨hready, .inr hrow⟩)

end HoldsMore

/-! What is not hidden is seen. -/

section Seen
variable {w w' : World} {token : TokenRef}

end Seen

end FastiKit
