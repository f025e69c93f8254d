import FastiKit.Auth.Services
import FastiKit.KeyValue.Expiring

/- How long the blocklist has a jti. `World` lets an entry end with its token. Here the
   SETs of `revoke` are in Redis as they are sent: an entry ends when its time to live is
   over, which is the whole milliseconds of the token's lifetime at the clock's reading,
   and a token without a whole millisecond is left out. What the truncation drops, only a
   late SET or a late end of the entry makes up for (`entry_outlives_iff`).

   Correspondence (Python ↔ Lean):
     `JTI_KEY_PREFIX + jti`, `READY_KEY`       ↔ `jtiKey`, `readyKey`
     what `TokenBlocklist.revoke` queues       ↔ `queued`
     `pipe.execute()` and the store after it   ↔ `Pipelined`, `stored`
     `TokenBlocklist.lookup`                   ↔ `lookupAt`, where Redis answers -/
namespace FastiKit.TokenBlocklist
open KeyValue (Keys SetCommand)

/-! The commands. -/

def jtiKey (jti : Uuid) : String := "auth:blocklist:jti:" ++ toString jti

def readyKey : String := "auth:blocklist:ready"

/-- The keys that are SET, with their times to live in milliseconds. -/
def queued (now : Time) (tokens : List TokenRef) : List (String × Int) :=
  (tokens.filter (fun token => decide (ttlMs token now > 0))).map (fun token => (jtiKey token.jti, ttlMs token now))

/-- How long Redis has an entry after its time to live, by the moment of the SET: it ends
entries up to a millisecond late. -/
structure Lateness where
  late : Time → Time
  nonneg : ∀ moment, 0 ≤ late moment
  le : ∀ moment, late moment ≤ 1000

/-- Redis reads its clock in milliseconds, and has an entry until the clock is past its end. -/
def Lateness.milliseconds : Lateness where
  late moment := 1000 - moment % 1000
  nonneg moment := by unfold Time at *; omega
  le moment := by unfold Time at *; omega

/-- The moments at which Redis gets to so many commands, after the clock was read, and the
one at which `execute` returns. -/
structure Pipelined (now : Time) (count : Nat) where
  moments : List Time
  done : Time
  length : moments.length = count
  after : ∀ moment ∈ moments, now ≤ moment
  before : ∀ moment ∈ moments, moment ≤ done
  done_after : now ≤ done

/-- The store after `revoke`. -/
def stored (lateness : Lateness) (store : Keys String Unit) (moments : List Time) (commands : List (String × Int)) : Keys String Unit :=
  KeyValue.setAll store ((moments.zip commands).map (fun (moment, key, px) =>
    ⟨moment, key, (), px * 1000 + lateness.late moment⟩))

def lookupAt (store : Keys String Unit) (t : Time) (jti : Uuid) : Option Bool :=
  match KeyValue.read store t readyKey with
  | none => none
  | some _ => some (KeyValue.read store t (jtiKey jti)).isSome

/-- Until a listed token expires, every lookup of its jti after `revoke` finds it if READY
is there, whatever was in Redis before. -/
def Outlives (lateness : Lateness) (now : Time) (tokens : List TokenRef) (run : Pipelined now (queued now tokens).length) : Prop :=
  ∀ store, ∀ token ∈ tokens, ∀ t, run.done ≤ t → t < token.expiresAt →
    (KeyValue.read (stored lateness store run.moments (queued now tokens)) t readyKey).isSome = true →
      lookupAt (stored lateness store run.moments (queued now tokens)) t token.jti = some true

/-! When it does. -/

/-- The last of the tokens with this jti that have a millisecond left, and the moment of its
SET. -/
def lastSet (now : Time) (tokens : List TokenRef) (moments : List Time) (jti : Uuid) : Option (Time × TokenRef) :=
  (moments.zip (tokens.filter (fun token => decide (1000 ≤ token.expiresAt - now)))).reverse.find?
    (fun entry => decide (entry.2.jti = jti))

/-- What the roundings of the product make of the whole milliseconds. -/
def slip (lifetime : Time) : Int := wholeMs lifetime - lifetime / 1000

/-- The part of the SET's lifetime below a millisecond, and what its token expires earlier
than at `expiresAt`, is made up for: by the time from the clock's reading to the SET and by
the lateness of the entry's end. -/
def MadeUp (lateness : Lateness) (now moment : Time) (set : TokenRef) (expiresAt : Time) : Prop :=
  (set.expiresAt - now) % 1000 + (expiresAt - set.expiresAt) ≤
    moment - now + lateness.late moment + 1000 * slip (set.expiresAt - now)

variable {lateness : Lateness} {now t : Time} {tokens : List TokenRef} {store : Keys String Unit} {moments : List Time} {jti : Uuid}

theorem jtiKey_ne_readyKey (jti : Uuid) : jtiKey jti ≠ readyKey := by
  intro h
  have hjti : (jtiKey jti).toList[15]? = some 'j' := by
    have hchars : (jtiKey jti).toList = "auth:blocklist:jti:".toList ++ (toString jti).toList := String.toList_append
    have hlength : 15 < "auth:blocklist:jti:".toList.length := by decide
    rw [hchars, List.getElem?_append_left hlength]
    decide
  rw [h] at hjti
  exact absurd hjti (by decide)

theorem jtiKey_inj {jti jti' : Uuid} : jtiKey jti = jtiKey jti' ↔ jti = jti' := by
  constructor
  · intro h
    exact uuid_toString_injective ((String.append_right_inj _).mp h)
  · exact congrArg jtiKey

/-- The tokens that are sent have a millisecond left. -/
theorem queued_eq (now : Time) (tokens : List TokenRef) : queued now tokens =
    (tokens.filter (fun token => decide (1000 ≤ token.expiresAt - now))).map (fun token => (jtiKey token.jti, ttlMs token now)) := by
  have hsame : ∀ token : TokenRef, decide (ttlMs token now > 0) = decide (1000 ≤ token.expiresAt - now) :=
    fun token => decide_eq_decide.mpr wholeMs_pos_iff
  simp only [queued, hsame]

/-- The SETs, in terms of their tokens. -/
theorem stored_eq (lateness : Lateness) (now : Time) (tokens : List TokenRef) (store : Keys String Unit) (moments : List Time) :
    stored lateness store moments (queued now tokens) = KeyValue.setAll store
      ((moments.zip (tokens.filter (fun token => decide (1000 ≤ token.expiresAt - now)))).map (fun entry =>
        ⟨entry.1, jtiKey entry.2.jti, (), ttlMs entry.2 now * 1000 + lateness.late entry.1⟩)) := by
  rw [stored, queued_eq, List.zip_map_right, List.map_map]
  rfl

theorem stored_apply (lateness : Lateness) (now : Time) (tokens : List TokenRef) (store : Keys String Unit) (moments : List Time)
    (key : String) : stored lateness store moments (queued now tokens) key =
      match (moments.zip (tokens.filter (fun token => decide (1000 ≤ token.expiresAt - now)))).reverse.find?
        (fun entry => decide (jtiKey entry.2.jti = key)) with
      | some entry => some ⟨(), some (entry.1 + (ttlMs entry.2 now * 1000 + lateness.late entry.1))⟩
      | none => store key := by
  rw [stored_eq, KeyValue.setAll_apply]
  · rw [← List.map_reverse, List.find?_map]
    simp only [Function.comp_def]
    cases (moments.zip (tokens.filter (fun token => decide (1000 ≤ token.expiresAt - now)))).reverse.find?
        (fun entry => decide (jtiKey entry.2.jti = key)) with
    | none => rfl
    | some entry => rfl
  · intro set hset
    obtain ⟨entry, hentry, rfl⟩ := List.mem_map.mp hset
    have hsent := (List.mem_filter.mp (List.of_mem_zip hentry).2).2
    have hpos : 0 < ttlMs entry.2 now := wholeMs_pos_iff.mpr (of_decide_eq_true hsent)
    have hlate := lateness.nonneg entry.1
    show 0 < ttlMs entry.2 now * 1000 + lateness.late entry.1
    unfold Time at *
    omega

/-- READY is none of the SETs. -/
theorem stored_ready (lateness : Lateness) (now : Time) (tokens : List TokenRef) (store : Keys String Unit) (moments : List Time) :
    stored lateness store moments (queued now tokens) readyKey = store readyKey := by
  rw [stored_apply]
  have hnone : (moments.zip (tokens.filter (fun token => decide (1000 ≤ token.expiresAt - now)))).reverse.find?
      (fun entry => decide (jtiKey entry.2.jti = readyKey)) = none := by
    rw [List.find?_eq_none]
    intro entry _
    simpa using jtiKey_ne_readyKey entry.2.jti
  rw [hnone]

/-- The entry of a jti, by the last SET. -/
theorem stored_jti (lateness : Lateness) (now : Time) (tokens : List TokenRef) (store : Keys String Unit) (moments : List Time)
    (jti : Uuid) : stored lateness store moments (queued now tokens) (jtiKey jti) =
      match lastSet now tokens moments jti with
      | some (moment, set) => some ⟨(), some (moment + (ttlMs set now * 1000 + lateness.late moment))⟩
      | none => store (jtiKey jti) := by
  rw [stored_apply, lastSet]
  simp only [jtiKey_inj]
  cases (moments.zip (tokens.filter (fun token => decide (1000 ≤ token.expiresAt - now)))).reverse.find?
      (fun entry => decide (entry.2.jti = jti)) with
  | none => rfl
  | some entry => rfl

/-- The entry is there until the token expires if what was dropped is made up for. -/
theorem le_deadline_iff {moment expiresAt : Time} {set : TokenRef} :
    expiresAt ≤ moment + (ttlMs set now * 1000 + lateness.late moment) ↔ MadeUp lateness now moment set expiresAt := by
  unfold MadeUp slip ttlMs
  generalize lateness.late moment = late
  generalize wholeMs (set.expiresAt - now) = whole
  unfold Time at *
  omega

theorem lookupAt_eq (hready : (KeyValue.read store t readyKey).isSome = true) :
    lookupAt store t jti = some (KeyValue.read store t (jtiKey jti)).isSome := by
  obtain ⟨entry, hentry⟩ := Option.isSome_iff_exists.mp hready
  simp only [lookupAt, hentry]

/-- READY, and nothing else. -/
def onlyReady : Keys String Unit := fun key => if key = readyKey then some ⟨(), none⟩ else none

theorem read_onlyReady (lateness : Lateness) (now : Time) (tokens : List TokenRef) (moments : List Time) (t : Time) :
    (KeyValue.read (stored lateness onlyReady moments (queued now tokens)) t readyKey).isSome = true := by
  rw [KeyValue.read, stored_ready]
  rfl

/-- An entry outlives its token if and only if, for every listed token that has not expired
when the commands are done, there is a SET of its jti and the last one makes up for what it
drops. -/
theorem entry_outlives_iff (lateness : Lateness) (now : Time) (tokens : List TokenRef)
    (run : Pipelined now (queued now tokens).length) : Outlives lateness now tokens run ↔
      ∀ token ∈ tokens, token.expiresAt ≤ run.done ∨ ∃ moment set,
        lastSet now tokens run.moments token.jti = some (moment, set) ∧ MadeUp lateness now moment set token.expiresAt := by
  constructor
  · intro h token hin
    by_contra hnot
    rw [not_or, not_le] at hnot
    obtain ⟨hlive, hnone⟩ := hnot
    have hfound : ∀ t, run.done ≤ t → t < token.expiresAt →
        (KeyValue.read (stored lateness onlyReady run.moments (queued now tokens)) t (jtiKey token.jti)).isSome = true := by
      intro t hdone hlive
      have hready := read_onlyReady lateness now tokens run.moments t
      have hlookup := h onlyReady token hin t hdone hlive hready
      rw [lookupAt_eq hready] at hlookup
      exact Option.some.inj hlookup
    simp only [KeyValue.read, stored_jti] at hfound
    cases hlast : lastSet now tokens run.moments token.jti with
    | none =>
      have hdone := hfound run.done (le_refl _) hlive
      simp only [hlast, onlyReady, if_neg (jtiKey_ne_readyKey token.jti), Option.filter_none] at hdone
      cases hdone
    | some last =>
      obtain ⟨moment, set⟩ := last
      have hshort := mt le_deadline_iff.mp (fun hup => hnone ⟨moment, set, hlast, hup⟩)
      -- a moment at which the entry has ended and the token has not
      have hended := hfound (max run.done (moment + (ttlMs set now * 1000 + lateness.late moment))) (le_max_left _ _)
        (max_lt hlive (not_le.mp hshort))
      simp [hlast, KeyValue.Expiring.liveAt] at hended
  · intro h store token hin t hdone hlive hready
    rw [lookupAt_eq hready]
    obtain hexpired | ⟨moment, set, hlast, hup⟩ := h token hin
    · exact absurd (hexpired.trans hdone) (not_le.mpr hlive)
    · have hdeadline := lt_of_lt_of_le hlive (le_deadline_iff.mpr hup)
      simp [KeyValue.read, stored_jti, hlast, KeyValue.Expiring.liveAt, hdeadline]

/-- Half a millisecond is left: nothing is SET, and the token is taken for a good one. -/
theorem last_millisecond_unblocked : ¬ ∀ (lateness : Lateness) (now : Time) (tokens : List TokenRef)
    (run : Pipelined now (queued now tokens).length), Outlives lateness now tokens run := by
  intro h
  have hqueued : queued 0 [⟨5, 500⟩] = [] := by decide +kernel
  have hrun := h .milliseconds 0 [⟨5, 500⟩] ⟨[], 0, by rw [hqueued]; rfl, nofun, nofun, le_refl _⟩ onlyReady ⟨5, 500⟩
    (List.mem_singleton_self _) 0 (le_refl _) (by decide : (0 : Time) < 500) (read_onlyReady _ _ _ _ _)
  have hmissed : lookupAt (stored .milliseconds onlyReady [] (queued 0 [⟨5, 500⟩])) 0 5 = some false := by decide +kernel
  rw [hmissed] at hrun
  cases hrun

/-! Up to the last millisecond it does. -/

/-- For lifetimes of less than seventy years the product is right, but that a whole number
of milliseconds can come out one less. -/
theorem slip_cases {lifetime : Time} (hpos : 0 < lifetime) (hlt : lifetime < 2 ^ 51) :
    slip lifetime = 0 ∨ slip lifetime = -1 ∧ lifetime % 1000 = 0 := by
  have hms : (lifetime : ℚ) / 1000 = (lifetime / 1000 : ℤ) + (lifetime % 1000 : ℤ) / 1000 := by
    have hdiv : ((1000 * (lifetime / 1000) + lifetime % 1000 : ℤ) : ℚ) = lifetime := by rw [Int.mul_ediv_add_emod]
    push_cast at hdiv
    linarith
  have hclose : |Rounding.binary64 (totalSeconds lifetime * 1000) - lifetime / 1000| < 1 / 1000 := by
    refine (abs_product_sub_le lifetime).trans_lt ?_
    have hltq : (lifetime : ℚ) < 2 ^ 51 := by exact_mod_cast hlt
    rw [abs_of_pos (by exact_mod_cast hpos)]
    linarith
  have hrest : 0 ≤ lifetime % 1000 ∧ lifetime % 1000 < 1000 ∧ 0 ≤ lifetime / 1000 := by unfold Time at *; omega
  obtain hzero | hsome := hrest.1.eq_or_lt
  · have hwhole : (1 : ℚ) ≤ (lifetime / 1000 : ℤ) := by
      have : 1 ≤ lifetime / 1000 := by unfold Time at *; omega
      exact_mod_cast this
    rw [hms, ← hzero, Int.cast_zero, zero_div, add_zero] at hclose
    have hclose := abs_lt.mp hclose
    unfold slip wholeMs
    rw [Rounding.truncate, if_pos (by linarith)]
    obtain hless | hreached := lt_or_ge (Rounding.binary64 (totalSeconds lifetime * 1000)) ((lifetime / 1000 : ℤ) : ℚ)
    · have hfloor : ⌊Rounding.binary64 (totalSeconds lifetime * 1000)⌋ = lifetime / 1000 - 1 := by
        rw [Int.floor_eq_iff]
        push_cast
        constructor <;> linarith
      exact .inr ⟨by rw [hfloor, sub_sub_cancel_left], hzero.symm⟩
    · have hfloor : ⌊Rounding.binary64 (totalSeconds lifetime * 1000)⌋ = lifetime / 1000 := by
        rw [Int.floor_eq_iff]
        constructor <;> linarith
      exact .inl (by rw [hfloor, sub_self])
  · have hbounds : (1 : ℚ) ≤ (lifetime % 1000 : ℤ) ∧ ((lifetime % 1000 : ℤ) : ℚ) ≤ 999 := by
      have : 1 ≤ lifetime % 1000 ∧ lifetime % 1000 ≤ 999 := by unfold Time at *; omega
      exact_mod_cast this
    have hwhole : wholeMs lifetime = lifetime / 1000 := by
      apply Rounding.truncate_eq_of_close hclose hrest.2.2
      · rw [hms]
        linarith
      · rw [hms]
        linarith
    exact .inl (by rw [slip, hwhole, sub_self])

example : slip 1001000 = -1 := by decide +kernel

/-- The SET of a token whose jti no other has. -/
theorem lastSet_of_nodup (hdistinct : (tokens.map TokenRef.jti).Nodup) {token : TokenRef} (hin : token ∈ tokens)
    (hleft : 1000 ≤ token.expiresAt - now) (run : Pipelined now (queued now tokens).length) :
    ∃ moment, now ≤ moment ∧ lastSet now tokens run.moments token.jti = some (moment, token) := by
  have hsent : token ∈ tokens.filter (fun token => decide (1000 ≤ token.expiresAt - now)) :=
    List.mem_filter.mpr ⟨hin, decide_eq_true hleft⟩
  have hlength : run.moments.length = (tokens.filter (fun token => decide (1000 ≤ token.expiresAt - now))).length := by
    rw [run.length, queued_eq, List.length_map]
  obtain ⟨i, hi, hget⟩ := List.getElem_of_mem hsent
  have hentry : (run.moments[i], token) ∈ run.moments.zip (tokens.filter (fun token => decide (1000 ≤ token.expiresAt - now))) := by
    rw [← hget]
    exact List.mem_iff_getElem.mpr ⟨i, by simpa [hlength] using hi, List.getElem_zip⟩
  cases hlast : lastSet now tokens run.moments token.jti with
  | none =>
    have hnone := List.find?_eq_none.mp hlast _ (List.mem_reverse.mpr hentry)
    exact absurd (decide_eq_true rfl) hnone
  | some last =>
    obtain ⟨moment, set⟩ := last
    have hmem := List.mem_reverse.mp (List.mem_of_find?_eq_some hlast)
    have hjti : set.jti = token.jti := by simpa using List.find?_some hlast
    obtain ⟨hmoment, hset⟩ := List.of_mem_zip hmem
    have hsame : set = token := List.inj_on_of_nodup_map hdistinct (List.mem_of_mem_filter hset) hin hjti
    exact ⟨moment, run.after moment hmoment, by rw [hsame]⟩

/-- Lookups find a jti that is listed once until a millisecond before its token expires:
so far an entry ends with its token. -/
theorem lookup_until_last_millisecond (lateness : Lateness) (hdistinct : (tokens.map TokenRef.jti).Nodup)
    (run : Pipelined now (queued now tokens).length) {token : TokenRef} (hin : token ∈ tokens) (hrange : token.expiresAt - now < 2 ^ 51)
    (hdone : run.done ≤ t) (hlive : t + 1000 < token.expiresAt)
    (hready : (KeyValue.read (stored lateness store run.moments (queued now tokens)) t readyKey).isSome = true) :
    lookupAt (stored lateness store run.moments (queued now tokens)) t token.jti = some true := by
  have hstart := run.done_after
  have hleft : 1000 ≤ token.expiresAt - now := by unfold Time at *; omega
  obtain ⟨moment, hmoment, hlast⟩ := lastSet_of_nodup hdistinct hin hleft run
  have hslip := slip_cases (by unfold Time at *; omega) hrange
  have hup : MadeUp lateness now moment token (token.expiresAt - 1000) := by
    have hlate := lateness.nonneg moment
    unfold MadeUp
    generalize slip (token.expiresAt - now) = lost at *
    generalize lateness.late moment = late at *
    clear hready hrange
    unfold Time at *
    omega
  have hdeadline : t < moment + (ttlMs token now * 1000 + lateness.late moment) := by
    have := le_deadline_iff.mpr hup
    unfold Time at *
    omega
  rw [lookupAt_eq hready]
  simp [KeyValue.read, stored_jti, hlast, KeyValue.Expiring.liveAt, hdeadline]

end FastiKit.TokenBlocklist
