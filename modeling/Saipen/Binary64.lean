import Mathlib.Algebra.Order.Field.Power
import Mathlib.Data.Int.Log
import Mathlib.Data.Rat.Floor
import Mathlib.Tactic.Linarith
import Mathlib.Tactic.Positivity
import Mathlib.Tactic.Ring
import Mathlib.Tactic.FieldSimp
import Mathlib.Tactic.NormNum

/-! # Double-precision numbers

A finite double is a rational of 53 binary digits whose last place is at least `2 ^ -1074`; `round`
takes a rational to the nearest of them, ties to the even one. The sign of zero and of `nan` is not
kept: nothing here tells them apart. -/

namespace Binary64

/-! ### Finite doubles -/

/-- `x` has at most 53 binary digits, the last of them no smaller than `2 ^ -1074`. -/
def Representable (x : ℚ) : Prop := ∃ n e : ℤ, |n| ≤ 2 ^ 53 ∧ -1074 ≤ e ∧ x = n * (2 : ℚ) ^ e

/-- The exponent of the last binary place kept of `x`. -/
def place (x : ℚ) : ℤ := max (Int.log 2 |x| - 52) (-1074)

/-- The nearest integer, the even one of two. -/
def nearest (x : ℚ) : ℤ :=
  if Int.fract x < 1 / 2 then ⌊x⌋
  else if 1 / 2 < Int.fract x then ⌊x⌋ + 1
  else if ⌊x⌋ % 2 = 0 then ⌊x⌋ else ⌊x⌋ + 1

/-- The nearest double, were there no greatest one. -/
def round (x : ℚ) : ℚ := nearest (x / 2 ^ place x) * 2 ^ place x

@[simp] theorem nearest_intCast (n : ℤ) : nearest n = n := by simp [nearest]

/-- The nearest integer is between the two neighbours. -/
theorem nearest_mem (x : ℚ) : nearest x = ⌊x⌋ ∨ (nearest x = ⌊x⌋ + 1 ∧ (⌊x⌋ : ℚ) < x) := by
  unfold nearest
  have hpos : ∀ h : ¬ Int.fract x < 1 / 2, (⌊x⌋ : ℚ) < x := by
    intro h
    have hfract : x = ⌊x⌋ + Int.fract x := (Int.floor_add_fract x).symm
    linarith [not_lt.mp h]
  split_ifs with h₁ h₂ h₃
  · exact .inl rfl
  · exact .inr ⟨rfl, hpos h₁⟩
  · exact .inl rfl
  · exact .inr ⟨rfl, hpos h₁⟩

/-- An integer that bounds a number bounds its nearest integer. -/
theorem abs_nearest_le {x : ℚ} {n : ℕ} (h : |x| ≤ n) : |nearest x| ≤ n := by
  obtain ⟨hlow, hhigh⟩ := abs_le.mp h
  have hfloor : (-(n : ℤ)) ≤ ⌊x⌋ := Int.le_floor.mpr (by push_cast; exact hlow)
  have htop : ⌊x⌋ ≤ (n : ℤ) := by
    have : (⌊x⌋ : ℚ) ≤ n := (Int.floor_le x).trans hhigh
    exact_mod_cast this
  rw [abs_le]
  rcases nearest_mem x with h | ⟨h, hlt⟩
  · rw [h]
    exact ⟨hfloor, htop⟩
  · have hless : ⌊x⌋ < (n : ℤ) := by
      have : (⌊x⌋ : ℚ) < n := hlt.trans_le hhigh
      exact_mod_cast this
    rw [h]
    exact ⟨by omega, by omega⟩

theorem abs_lt_two_zpow (x : ℚ) : |x| < 2 ^ (Int.log 2 |x| + 1) := by
  exact_mod_cast Int.lt_zpow_succ_log_self (b := 2) (by norm_num) |x|

/-- Scaled to its last place a number has at most 53 digits before the point. -/
theorem abs_scaled_le (x : ℚ) : |x / 2 ^ place x| ≤ (2 ^ 53 : ℕ) := by
  have hpos : (0 : ℚ) < 2 ^ place x := by positivity
  rw [abs_div, abs_of_pos hpos, div_le_iff₀ hpos]
  have hplace : Int.log 2 |x| + 1 ≤ 53 + place x := by
    have := le_max_left (Int.log 2 |x| - 52) (-1074)
    unfold place
    omega
  calc |x| ≤ 2 ^ (Int.log 2 |x| + 1) := (abs_lt_two_zpow x).le
    _ ≤ 2 ^ (53 + place x) := zpow_le_zpow_right₀ (by norm_num) hplace
    _ = (2 ^ 53 : ℕ) * 2 ^ place x := by
        rw [zpow_add₀ (by norm_num)]
        norm_num

theorem representable_round (x : ℚ) : Representable (round x) :=
  ⟨nearest (x / 2 ^ place x), place x, by exact_mod_cast abs_nearest_le (abs_scaled_le x),
    le_max_right _ _, rfl⟩

/-- A representable number with fewer than 53 digits has its last place at or below `e`. -/
theorem place_le {n e : ℤ} (hn : |n| < 2 ^ 53) (hn₀ : n ≠ 0) (he : -1074 ≤ e) :
    place (n * (2 : ℚ) ^ e) ≤ e := by
  have hpos : (0 : ℚ) < |(n : ℚ) * 2 ^ e| :=
    abs_pos.mpr (mul_ne_zero (by exact_mod_cast hn₀) (by positivity))
  have hbound : |(n : ℚ) * 2 ^ e| < 2 ^ (53 + e) := by
    rw [abs_mul, abs_of_pos (by positivity : (0 : ℚ) < 2 ^ e), zpow_add₀ (by norm_num)]
    have hcast : |(n : ℚ)| < 2 ^ (53 : ℤ) := by exact_mod_cast hn
    exact mul_lt_mul_of_pos_right hcast (by positivity)
  have hlog : Int.log 2 |(n : ℚ) * 2 ^ e| < 53 + e :=
    (Int.lt_zpow_iff_log_lt (b := 2) (by norm_num) hpos).mp (by exact_mod_cast hbound)
  exact max_le (by omega) he

/-- What is representable is its own nearest double. -/
theorem round_of_representable {x : ℚ} (h : Representable x) : round x = x := by
  obtain ⟨n, e, hn, he, rfl⟩ := h
  rcases eq_or_ne n 0 with rfl | hn₀
  · simp [round, nearest]
  -- a number of 53 digits and a power of two more is a shorter one
  obtain ⟨m, f, hm, hf, hmf⟩ : ∃ m f : ℤ, |m| < 2 ^ 53 ∧ -1074 ≤ f ∧
      (n : ℚ) * 2 ^ e = m * 2 ^ f := by
    rcases hn.lt_or_eq with hlt | heq
    · exact ⟨n, e, hlt, he, rfl⟩
    · refine ⟨n.sign * 2 ^ 52, e + 1, ?_, by omega, ?_⟩
      · rw [abs_mul, Int.abs_sign_of_ne_zero hn₀]
        norm_num
      · have hsplit : n = n.sign * 2 ^ 53 := by
          rw [← heq]
          exact (Int.sign_mul_abs n).symm
        rw [zpow_add₀ (by norm_num)]
        nth_rewrite 1 [hsplit]
        push_cast
        ring
  rw [hmf]
  have hm₀ : m ≠ 0 := by
    rintro rfl
    have hne : (n : ℚ) * 2 ^ e ≠ 0 := mul_ne_zero (by exact_mod_cast hn₀) (by positivity)
    exact hne (by simpa using hmf)
  have hplace := place_le hm hm₀ hf
  have hpow : (2 : ℚ) ^ f / 2 ^ place (m * 2 ^ f) =
      ((2 ^ (f - place (m * 2 ^ f)).toNat : ℤ) : ℚ) := by
    rw [← zpow_sub₀ (by norm_num)]
    push_cast
    rw [← zpow_natCast, Int.toNat_of_nonneg (by omega)]
  have hscaled : (m : ℚ) * 2 ^ f / 2 ^ place (m * 2 ^ f) =
      ((m * 2 ^ (f - place (m * 2 ^ f)).toNat : ℤ) : ℚ) := by
    rw [mul_div_assoc, hpow]
    push_cast
    rfl
  rw [round, hscaled, nearest_intCast, ← hscaled]
  field_simp

theorem representable_iff {x : ℚ} : Representable x ↔ round x = x :=
  ⟨round_of_representable, fun h => h ▸ representable_round x⟩

/-! ### Truncation -/

/-- `x` cut to an integer, towards zero. -/
def trunc (x : ℚ) : ℤ := if 0 ≤ x then ⌊x⌋ else ⌈x⌉

@[simp] theorem trunc_intCast (n : ℤ) : trunc n = n := by simp [trunc]

theorem trunc_le {x : ℚ} (h : 0 ≤ x) : (trunc x : ℚ) ≤ x := by
  rw [trunc, if_pos h]
  exact Int.floor_le x

theorem abs_trunc_le (x : ℚ) : |(trunc x : ℚ)| ≤ |x| := by
  unfold trunc
  split_ifs with h
  · rw [abs_of_nonneg h, abs_of_nonneg (by exact_mod_cast Int.floor_nonneg.mpr h)]
    exact Int.floor_le x
  · have hneg : x ≤ 0 := (not_le.mp h).le
    rw [abs_of_nonpos hneg, abs_of_nonpos (by exact_mod_cast Int.ceil_nonpos.mpr hneg)]
    exact neg_le_neg (Int.le_ceil x)

/-- A double cut to an integer is a double. -/
theorem Representable.trunc {x : ℚ} (h : Representable x) : Representable (trunc x) := by
  obtain ⟨n, e, hn, he, rfl⟩ := h
  rcases le_or_gt 0 e with hint | hfrac
  · -- no place is behind the point
    obtain ⟨k, rfl⟩ := Int.eq_ofNat_of_zero_le hint
    refine ⟨n, k, hn, he, ?_⟩
    have hcast : (n : ℚ) * 2 ^ (k : ℤ) = ((n * 2 ^ k : ℤ) : ℚ) := by
      push_cast
      rw [zpow_natCast]
    rw [hcast, trunc_intCast]
  · refine ⟨Binary64.trunc (n * 2 ^ e), 0, ?_, by norm_num, by simp⟩
    have hsmall : |(n : ℚ) * 2 ^ e| ≤ 2 ^ 53 := by
      rw [abs_mul, abs_of_pos (by positivity : (0 : ℚ) < 2 ^ e)]
      have hone : (2 : ℚ) ^ e ≤ 1 := zpow_le_one_of_nonpos₀ (by norm_num) hfrac.le
      have hcast : |(n : ℚ)| ≤ 2 ^ 53 := by exact_mod_cast hn
      calc |(n : ℚ)| * 2 ^ e ≤ 2 ^ 53 * 1 := mul_le_mul hcast hone (by positivity) (by norm_num)
        _ = 2 ^ 53 := mul_one _
    have := (abs_trunc_le (n * 2 ^ e)).trans hsmall
    exact_mod_cast this

/-! ### All doubles -/

/-- A double. -/
inductive Value where
  | finite (x : ℚ)
  | infinity (negative : Bool)
  | nan
deriving DecidableEq

/-- The double nearest to a rational; from `2 ^ 1024` on it is infinite. -/
def ofRat (x : ℚ) : Value :=
  if |round x| < 2 ^ 1024 then .finite (round x) else .infinity (x < 0)

/-- `<`: never true of `nan`. -/
def Value.lt : Value → Value → Bool
  | .finite x, .finite y => x < y
  | .finite _, .infinity negative => !negative
  | .infinity negative, .finite _ => negative
  | .infinity true, .infinity false => true
  | _, _ => false

theorem ofRat_eq_finite {x y : ℚ} (h : ofRat x = .finite y) :
    y = round x ∧ |y| < 2 ^ 1024 := by
  unfold ofRat at h
  split_ifs at h with hless
  obtain rfl := Value.finite.inj h
  exact ⟨rfl, hless⟩

/-- A finite double cut to an integer is exact. -/
theorem ofRat_trunc {x y : ℚ} (h : ofRat x = .finite y) : ofRat (trunc y) = .finite (trunc y) := by
  obtain ⟨rfl, hless⟩ := ofRat_eq_finite h
  have hround := round_of_representable (representable_round x).trunc
  rw [ofRat, hround, if_pos ((abs_trunc_le _).trans_lt hless)]

end Binary64
