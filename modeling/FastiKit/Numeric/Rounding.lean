import Mathlib.Algebra.Order.Floor.Ring
import Mathlib.Data.Int.Log
import Mathlib.Data.Rat.Floor
import Mathlib.Tactic.Linarith
import Mathlib.Tactic.NormNum

/- Numbers with a binary point and so many digits. A real number is rounded to the nearest
   of them, a tie to the one whose last digit is even; what is lost is at most half a unit
   of the last place (`abs_roundTo_sub_le`). Exponents are not bounded. -/
namespace Rounding

section Integers
variable {K : Type*} [Field K] [LinearOrder K] [IsStrictOrderedRing K] [FloorRing K]

/-- The nearest integer, of two the even one. -/
def halfEven (x : K) : ℤ :=
  if x - ⌊x⌋ < 1 / 2 then ⌊x⌋
  else if 1 / 2 < x - ⌊x⌋ then ⌊x⌋ + 1
  else if Even ⌊x⌋ then ⌊x⌋
  else ⌊x⌋ + 1

/-- The integer towards zero. -/
def truncate (x : K) : ℤ := if 0 ≤ x then ⌊x⌋ else ⌈x⌉

theorem abs_halfEven_sub_le (x : K) : |(halfEven x : K) - x| ≤ 1 / 2 := by
  have hlo := Int.floor_le x
  have hhi := Int.lt_floor_add_one x
  unfold halfEven
  rw [abs_le]
  split
  · constructor <;> linarith
  · split
    · push_cast
      constructor <;> linarith
    · split
      · constructor <;> linarith
      · push_cast
        constructor <;> linarith

omit [IsStrictOrderedRing K] in
theorem floor_le_halfEven (x : K) : ⌊x⌋ ≤ halfEven x ∧ halfEven x ≤ ⌊x⌋ + 1 := by
  unfold halfEven
  split
  · omega
  · split
    · omega
    · split <;> omega

theorem halfEven_mono {x y : K} (h : x ≤ y) : halfEven x ≤ halfEven y := by
  rcases (Int.floor_le_floor h).lt_or_eq with hlt | heq
  · have hx := (floor_le_halfEven x).2
    have hy := (floor_le_halfEven y).1
    omega
  · have hfract : x - ⌊x⌋ ≤ y - ⌊y⌋ := by
      rw [heq]
      linarith
    by_cases hdown : x - ⌊x⌋ < 1 / 2
    · rw [halfEven, if_pos hdown, heq]
      exact (floor_le_halfEven y).1
    · by_cases hup : 1 / 2 < y - ⌊y⌋
      · have hy : halfEven y = ⌊y⌋ + 1 := by rw [halfEven, if_neg (by linarith), if_pos hup]
        rw [hy, ← heq]
        exact (floor_le_halfEven x).2
      · -- both are halfway between the same two integers
        have hx : halfEven x = if Even ⌊x⌋ then ⌊x⌋ else ⌊x⌋ + 1 := by
          rw [halfEven, if_neg hdown, if_neg (by linarith)]
        have hy : halfEven y = if Even ⌊y⌋ then ⌊y⌋ else ⌊y⌋ + 1 := by
          rw [halfEven, if_neg (by linarith), if_neg hup]
        rw [hx, hy, heq]

theorem halfEven_intCast (n : ℤ) : halfEven (n : K) = n := by
  simp [halfEven]

theorem truncate_pos_iff {x : K} : 0 < truncate x ↔ 1 ≤ x := by
  unfold truncate
  split
  · exact Int.floor_pos
  · next hneg =>
    have hceil : ⌈x⌉ ≤ 0 := Int.ceil_le.mpr (by push_cast; linarith)
    constructor
    · intro h
      omega
    · intro h
      linarith

/-- What is close to a number between two integers lies between them too. -/
theorem truncate_eq_of_close {x y margin : K} {n : ℤ} (hclose : |x - y| < margin) (hn : 0 ≤ n) (hlo : (n : K) + margin ≤ y)
    (hhi : y + margin ≤ n + 1) : truncate x = n := by
  have hclose := abs_lt.mp hclose
  have hn : (0 : K) ≤ n := by exact_mod_cast hn
  rw [truncate, if_pos (by linarith), Int.floor_eq_iff]
  constructor <;> linarith

end Integers

section Digits
variable {K : Type*} [Field K] [LinearOrder K] [IsStrictOrderedRing K] [FloorRing K]

/-- The unit of the last place of a number with `p` digits. -/
def unit (p : ℕ) (x : K) : K := 2 ^ (Int.log 2 |x| - ((p : ℤ) - 1))

/-- The nearest number with `p` digits. -/
def roundTo (p : ℕ) (x : K) : K := if x = 0 then 0 else halfEven (x / unit p x) * unit p x

/-- The nearest double. -/
def binary64 (x : K) : K := roundTo 53 x

theorem unit_pos (p : ℕ) (x : K) : 0 < unit p x := zpow_pos two_pos _

/-- Half a unit of the last place is not much of the number. -/
theorem unit_le {p : ℕ} {x : K} (hx : x ≠ 0) : 1 / 2 * unit p x ≤ |x| / 2 ^ p := by
  have hlog : (2 : K) ^ Int.log 2 |x| ≤ |x| := Int.zpow_log_le_self one_lt_two (abs_pos.mpr hx)
  have hunit : 1 / 2 * unit p x = (2 : K) ^ Int.log 2 |x| / 2 ^ p := by
    have hexp : Int.log 2 |x| - ((p : ℤ) - 1) = Int.log 2 |x| - p + 1 := by omega
    rw [unit, hexp, zpow_add_one₀ two_ne_zero, zpow_sub₀ two_ne_zero, zpow_natCast]
    ring
  rw [hunit]
  gcongr

/-- The error of a rounding. -/
theorem abs_roundTo_sub_le (p : ℕ) (x : K) : |roundTo p x - x| ≤ |x| / 2 ^ p := by
  by_cases hx : x = 0
  · simp [roundTo, hx]
  · have hne := (unit_pos p x).ne'
    have hscale : roundTo p x - x = (halfEven (x / unit p x) - x / unit p x) * unit p x := by
      rw [roundTo, if_neg hx, sub_mul, div_mul_cancel₀ x hne]
    rw [hscale, abs_mul, abs_of_pos (unit_pos p x)]
    calc |(halfEven (x / unit p x) : K) - x / unit p x| * unit p x
        ≤ 1 / 2 * unit p x := mul_le_mul_of_nonneg_right (abs_halfEven_sub_le _) (unit_pos p x).le
      _ ≤ |x| / 2 ^ p := unit_le hx

/-- The error of a rounded product with a rounded number. -/
theorem abs_roundTo_mul_sub_le (p : ℕ) (x c : K) :
    |roundTo p (roundTo p x * c) - x * c| ≤ |x * c| * (2 / 2 ^ p + 1 / 2 ^ p * (1 / 2 ^ p)) := by
  have hfirst := abs_roundTo_sub_le p x
  have hsecond := abs_roundTo_sub_le p (roundTo p x * c)
  have hscaled : |roundTo p x * c - x * c| ≤ |x * c| / 2 ^ p := by
    rw [← sub_mul, abs_mul, abs_mul, mul_div_right_comm]
    exact mul_le_mul_of_nonneg_right hfirst (abs_nonneg c)
  have hsize : |roundTo p x * c| ≤ |x * c| + |x * c| / 2 ^ p := by
    have := abs_sub_abs_le_abs_sub (roundTo p x * c) (x * c)
    linarith
  have hhalf : |roundTo p x * c| / 2 ^ p ≤ (|x * c| + |x * c| / 2 ^ p) / 2 ^ p := by gcongr
  calc |roundTo p (roundTo p x * c) - x * c|
      ≤ |roundTo p (roundTo p x * c) - roundTo p x * c| + |roundTo p x * c - x * c| := abs_sub_le _ _ _
    _ ≤ (|x * c| + |x * c| / 2 ^ p) / 2 ^ p + |x * c| / 2 ^ p := by linarith
    _ = |x * c| * (2 / 2 ^ p + 1 / 2 ^ p * (1 / 2 ^ p)) := by ring

variable {p : ℕ} {x y : K}

/-- A number that is not above so many units is not rounded above them. -/
theorem roundTo_le {n : ℤ} (hx : x ≠ 0) (h : x ≤ n * unit p x) : roundTo p x ≤ n * unit p x := by
  have hunit := unit_pos p x
  have hscaled : halfEven (x / unit p x) ≤ n := by
    rw [← halfEven_intCast (K := K) n]
    exact halfEven_mono ((div_le_iff₀ hunit).mpr h)
  rw [roundTo, if_neg hx]
  exact mul_le_mul_of_nonneg_right (by exact_mod_cast hscaled) hunit.le

theorem le_roundTo {n : ℤ} (hx : x ≠ 0) (h : n * unit p x ≤ x) : n * unit p x ≤ roundTo p x := by
  have hunit := unit_pos p x
  have hscaled : n ≤ halfEven (x / unit p x) := by
    rw [← halfEven_intCast (K := K) n]
    exact halfEven_mono ((le_div_iff₀ hunit).mpr h)
  rw [roundTo, if_neg hx]
  exact mul_le_mul_of_nonneg_right (by exact_mod_cast hscaled) hunit.le

theorem roundTo_nonneg (hx : 0 ≤ x) : 0 ≤ roundTo p x := by
  by_cases hzero : x = 0
  · simp [roundTo, hzero]
  · simpa using le_roundTo (p := p) (n := 0) hzero (by simpa using hx)

theorem roundTo_nonpos (hx : x ≤ 0) : roundTo p x ≤ 0 := by
  by_cases hzero : x = 0
  · simp [roundTo, hzero]
  · simpa using roundTo_le (p := p) (n := 0) hzero (by simpa using hx)

/-- The size of a number in its units. -/
theorem abs_mem_units (hp : 1 ≤ p) (hx : x ≠ 0) :
    ((2 ^ (p - 1) : ℤ) : K) * unit p x ≤ |x| ∧ |x| ≤ ((2 ^ p : ℤ) : K) * unit p x := by
  have hlow : ((2 ^ (p - 1) : ℤ) : K) * unit p x = 2 ^ Int.log 2 |x| := by
    rw [Int.cast_pow, Int.cast_ofNat, unit, ← zpow_natCast, ← zpow_add₀ two_ne_zero]
    congr 1
    omega
  have hhigh : ((2 ^ p : ℤ) : K) * unit p x = 2 ^ (Int.log 2 |x| + 1) := by
    rw [Int.cast_pow, Int.cast_ofNat, unit, ← zpow_natCast, ← zpow_add₀ two_ne_zero]
    congr 1
    omega
  rw [hlow, hhigh]
  exact ⟨Int.zpow_log_le_self one_lt_two (abs_pos.mpr hx), (Int.lt_zpow_succ_log_self one_lt_two |x|).le⟩

/-- Between two numbers of different size there is a power of two. -/
theorem units_le_units (hp : 1 ≤ p) (h : Int.log 2 |x| < Int.log 2 |y|) :
    ((2 ^ p : ℤ) : K) * unit p x ≤ ((2 ^ (p - 1) : ℤ) : K) * unit p y := by
  rw [Int.cast_pow, Int.cast_ofNat, Int.cast_pow, Int.cast_ofNat, unit, unit, ← zpow_natCast, ← zpow_natCast,
    ← zpow_add₀ two_ne_zero, ← zpow_add₀ two_ne_zero]
  exact zpow_le_zpow_right₀ one_le_two (by omega)

/-- Rounding keeps the order. -/
theorem roundTo_mono (hp : 1 ≤ p) (h : x ≤ y) : roundTo p x ≤ roundTo p y := by
  by_cases hx : x = 0
  · rw [hx, roundTo, if_pos rfl]
    exact roundTo_nonneg (hx ▸ h)
  by_cases hy : y = 0
  · have hzero : roundTo p (0 : K) = 0 := by simp [roundTo]
    rw [hy, hzero]
    exact roundTo_nonpos (hy ▸ h)
  have hxunits := abs_mem_units hp hx
  have hyunits := abs_mem_units hp hy
  rcases lt_trichotomy (Int.log 2 |x|) (Int.log 2 |y|) with hlog | hlog | hlog
  · have hpos : 0 < y := by
      by_contra hneg
      have hle := abs_le_abs_of_nonpos (not_lt.mp hneg) h
      exact absurd (Int.log_mono_right (b := 2) (abs_pos.mpr hy) hle) (by omega)
    rw [abs_of_pos hpos] at hyunits
    exact (roundTo_le hx ((le_abs_self x).trans hxunits.2)).trans
      ((units_le_units hp hlog).trans (le_roundTo hy hyunits.1))
  · have hunits : unit p x = unit p y := by rw [unit, unit, hlog]
    have hunit := unit_pos p y
    rw [roundTo, roundTo, if_neg hx, if_neg hy, hunits]
    have hscaled : halfEven (x / unit p y) ≤ halfEven (y / unit p y) :=
      halfEven_mono (div_le_div_of_nonneg_right h hunit.le)
    exact mul_le_mul_of_nonneg_right (by exact_mod_cast hscaled) hunit.le
  · have hneg : x < 0 := by
      by_contra hpos
      have hle := abs_le_abs_of_nonneg (not_lt.mp hpos) h
      exact absurd (Int.log_mono_right (b := 2) (abs_pos.mpr hx) hle) (by omega)
    have hlow : x ≤ ((-2 ^ (p - 1) : ℤ) : K) * unit p x := by
      have := hxunits.1
      rw [abs_of_neg hneg] at this
      push_cast at this ⊢
      linarith
    have hhigh : ((-2 ^ p : ℤ) : K) * unit p y ≤ y := by
      have := (abs_le.mp hyunits.2).1
      push_cast at this ⊢
      linarith
    have hbetween := units_le_units hp hlog
    calc roundTo p x ≤ ((-2 ^ (p - 1) : ℤ) : K) * unit p x := roundTo_le hx hlow
      _ ≤ ((-2 ^ p : ℤ) : K) * unit p y := by
        push_cast at hbetween ⊢
        linarith
      _ ≤ roundTo p y := le_roundTo hy hhigh

end Digits

end Rounding
