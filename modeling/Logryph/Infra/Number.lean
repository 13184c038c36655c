import Mathlib.Data.Int.Log
import Mathlib.Data.Rat.Floor
import Mathlib.Tactic.Ring
import Mathlib.Tactic.FieldSimp
import Mathlib.Tactic.Linarith

/-!
# Decimal numbers and binary64

A number in a text is a decimal: an integer mantissa times a power of ten, kept without
trailing zeros so that equal values are equal terms. Reading it as binary64 rounds the value
to 53 significant bits, ties to even, with the subnormal quantum `2 ^ (-1074)`. A binary64
number is a rational that this rounding leaves alone, with a sign for the zero: a negative number
that is too small becomes the negative zero.

* `round64_idem` — rounding twice is rounding once
* `round64_intCast`, `intCast_eq_of_round64_eq` — integers below `2 ^ 53` are exact, and no other
  integer rounds to them
* `Float64.ofRat?_shortest` — the decimal that a binary64 number is printed as reads back to it,
  up to the sign of zero
* `Float64.shortest_intCast` — for an integer below `2 ^ 53` that is the integer itself
-/

namespace Infra

/-! ## Decimals -/

/-- `mant * 10 ^ exp`, with no trailing zero in the mantissa. -/
structure Decimal where
  mant : Int
  exp : Int
  normal : mant % 10 ≠ 0 ∨ mant = 0 ∧ exp = 0
  deriving DecidableEq

namespace Decimal

/-- The value of a decimal. -/
def toRat (d : Decimal) : ℚ := d.mant * 10 ^ d.exp

/-- Moves trailing zeros of the mantissa to the exponent. -/
def strip : Nat → Int → Int → Int × Int
  | 0, m, e => (m, e)
  | n + 1, m, e => if m % 10 = 0 then strip n (m / 10) (e + 1) else (m, e)

theorem strip_normal : ∀ (n : Nat) (m e : Int), m ≠ 0 → m.natAbs ≤ n →
    (strip n m e).1 % 10 ≠ 0
  | 0, m, _, hm, hn => by omega
  | n + 1, m, e, hm, hn => by
    rw [strip]
    split
    · exact strip_normal n (m / 10) (e + 1) (by omega) (by omega)
    · assumption

theorem strip_value : ∀ (n : Nat) (m e : Int),
    ((strip n m e).1 : ℚ) * 10 ^ (strip n m e).2 = m * 10 ^ e
  | 0, _, _ => rfl
  | n + 1, m, e => by
    rw [strip]
    split
    · next h =>
      rw [strip_value n (m / 10) (e + 1), zpow_add₀ (by norm_num), zpow_one]
      have hm : (m : ℚ) = ((m / 10 : Int) : ℚ) * 10 := by
        rw [show (10 : ℚ) = ((10 : Int) : ℚ) by norm_num, ← Int.cast_mul]
        congr 1
        omega
      rw [hm]
      ring
    · rfl

theorem le_strip_snd : ∀ (n : Nat) (m e : Int), e ≤ (strip n m e).2
  | 0, _, _ => le_rfl
  | n + 1, m, e => by
    rw [strip]
    split
    · exact (Int.le_add_one le_rfl).trans (le_strip_snd n (m / 10) (e + 1))
    · exact le_rfl

/-- The decimal of a mantissa and an exponent. -/
def of (m e : Int) : Decimal :=
  if h : m = 0 then ⟨0, 0, Or.inr ⟨rfl, rfl⟩⟩
  else ⟨(strip m.natAbs m e).1, (strip m.natAbs m e).2, Or.inl (strip_normal _ m e h le_rfl)⟩

@[simp] theorem toRat_of (m e : Int) : (of m e).toRat = m * 10 ^ e := by
  unfold of
  split
  · next h => simp [toRat, h]
  · exact strip_value _ m e

/-- The decimal of an integer: its trailing zeros are counted by the exponent. -/
theorem exists_of_int (n : Int) : ∃ k : Nat, (of n 0).exp = k ∧ n = (of n 0).mant * 10 ^ k := by
  have hexp : 0 ≤ (of n 0).exp := by
    unfold of
    split
    · exact le_rfl
    · exact le_strip_snd _ n 0
  obtain ⟨k, hk⟩ := Int.eq_ofNat_of_zero_le hexp
  have hval := toRat_of n 0
  rw [toRat, hk, zpow_natCast, zpow_zero, mul_one] at hval
  exact ⟨k, hk, by exact_mod_cast hval.symm⟩

/-- The decimal of a natural number. -/
def ofNat (n : Nat) : Decimal := of n 0

@[simp] theorem toRat_ofNat (n : Nat) : (ofNat n).toRat = n := by simp [ofNat]

theorem eq_of_toRat_le {a b : Decimal} (hle : a.exp ≤ b.exp) (h : a.toRat = b.toRat) : a = b := by
  obtain ⟨k, hk⟩ := Int.le.dest hle
  have hpow : (10 : ℚ) ^ a.exp ≠ 0 := zpow_ne_zero _ (by norm_num)
  have hmant : a.mant = b.mant * 10 ^ k := by
    have hb : b.toRat = ((b.mant * 10 ^ k : Int) : ℚ) * 10 ^ a.exp := by
      rw [toRat, ← hk, zpow_add₀ (by norm_num : (10 : ℚ) ≠ 0), zpow_natCast]
      push_cast
      ring
    rw [hb, toRat] at h
    exact_mod_cast mul_right_cancel₀ hpow h
  have hk0 : k = 0 ∨ a.mant = 0 := by
    rcases Nat.eq_zero_or_pos k with h0 | hpos
    · exact Or.inl h0
    · refine Or.inr ?_
      rcases a.normal with hn | hn
      · refine absurd ?_ hn
        rw [hmant, show k = (k - 1) + 1 by omega, pow_succ, ← mul_assoc]
        exact Int.mul_emod_left _ _
      · exact hn.1
  have heq : a.mant = b.mant ∧ a.exp = b.exp := by
    rcases hk0 with h0 | h0
    · subst h0
      exact ⟨by simpa using hmant, by simpa using hk⟩
    · have hb0 : b.mant = 0 := by
        rw [h0] at hmant
        rcases mul_eq_zero.mp hmant.symm with hb | hb
        · exact hb
        · exact absurd hb (pow_ne_zero _ (by norm_num))
      have ha := a.normal
      have hb := b.normal
      omega
  obtain ⟨m, e, hn⟩ := a
  obtain ⟨m', e', hn'⟩ := b
  simp only at heq
  obtain ⟨rfl, rfl⟩ := heq
  rfl

/-- **A decimal is determined by its value.** -/
theorem toRat_injective {a b : Decimal} (h : a.toRat = b.toRat) : a = b := by
  rcases le_total a.exp b.exp with hle | hle
  · exact eq_of_toRat_le hle h
  · exact (eq_of_toRat_le hle h.symm).symm

end Decimal

/-! ## Rounding to binary64 -/

/-- The nearest integer, ties to even. -/
def roundEven (q : ℚ) : Int :=
  let f := ⌊q⌋
  let r := q - f
  if r < 1 / 2 then f else if 1 / 2 < r then f + 1 else if f % 2 = 0 then f else f + 1

/-- The exponent of the last bit that is kept. -/
def ulpExp (q : ℚ) : Int := max (Int.log 2 |q| - 52) (-1074)

/-- The nearest number with 53 significant bits, exponents unbounded above. -/
def round64 (q : ℚ) : ℚ := if q = 0 then 0 else roundEven (q / 2 ^ ulpExp q) * 2 ^ ulpExp q

theorem roundEven_intCast (z : Int) : roundEven z = z := by
  simp [roundEven]

theorem floor_le_roundEven (q : ℚ) : ⌊q⌋ ≤ roundEven q := by
  unfold roundEven
  dsimp only
  split
  · exact le_rfl
  · split
    · omega
    · split <;> omega

theorem roundEven_le_ceil (q : ℚ) : roundEven q ≤ ⌈q⌉ := by
  have hfc : ⌊q⌋ ≤ ⌈q⌉ := Int.floor_le_ceil q
  -- away from the integers the ceiling is one above the floor
  have hne : (⌊q⌋ : ℚ) ≠ q → ⌊q⌋ + 1 ≤ ⌈q⌉ := by
    intro h
    exact Int.lt_ceil.mpr (lt_of_le_of_ne (Int.floor_le q) h)
  unfold roundEven
  dsimp only
  split
  · exact hfc
  · next h =>
    have hfrac : (⌊q⌋ : ℚ) ≠ q := by
      intro he
      rw [he, sub_self] at h
      norm_num at h
    have := hne hfrac
    split
    · omega
    · split <;> omega

/-- Numbers with at most 53 bits above the quantum are exact. -/
theorem round64_exact_lt {m k : Int} (hm : |m| < 2 ^ 53) (hk : -1074 ≤ k) :
    round64 ((m : ℚ) * 2 ^ k) = m * 2 ^ k := by
  unfold round64
  split
  · next h => exact h.symm
  · next hne =>
    have h2 : (0 : ℚ) < 2 ^ k := zpow_pos (by norm_num) k
    have hpos : 0 < |(m : ℚ) * 2 ^ k| := abs_pos.mpr hne
    have habs : |(m : ℚ) * 2 ^ k| < (2 : ℕ) ^ (53 + k) := by
      rw [abs_mul, abs_of_pos h2, Nat.cast_ofNat, zpow_add₀ (by norm_num)]
      refine mul_lt_mul_of_pos_right ?_ h2
      exact_mod_cast hm
    have hlog := (Int.lt_zpow_iff_log_lt (by norm_num) hpos).mp habs
    have hu : ulpExp ((m : ℚ) * 2 ^ k) ≤ k := by
      unfold ulpExp
      omega
    obtain ⟨j, hj⟩ := Int.le.dest hu
    have hdiv : (m : ℚ) * 2 ^ k / 2 ^ ulpExp ((m : ℚ) * 2 ^ k) = ((m * 2 ^ j : Int) : ℚ) := by
      rw [div_eq_iff (zpow_ne_zero _ (by norm_num))]
      nth_rewrite 1 [← hj]
      rw [zpow_add₀ (by norm_num), zpow_natCast]
      push_cast
      ring
    rw [hdiv, roundEven_intCast, ← hdiv]
    exact div_mul_cancel₀ _ (zpow_ne_zero _ (by norm_num))

theorem round64_exact {m k : Int} (hm : |m| ≤ 2 ^ 53) (hk : -1074 ≤ k) :
    round64 ((m : ℚ) * 2 ^ k) = m * 2 ^ k := by
  rcases lt_or_eq_of_le hm with hlt | heq
  · exact round64_exact_lt hlt hk
  · -- `2 ^ 53` itself is `2 ^ 52` with the next exponent
    have hhalf : m = m / 2 * 2 := by
      rcases abs_eq (by norm_num : (0 : Int) ≤ 2 ^ 53) |>.mp heq with h | h <;> rw [h] <;> norm_num
    have hval : (m : ℚ) * 2 ^ k = ((m / 2 : Int) : ℚ) * 2 ^ (k + 1) := by
      rw [zpow_add₀ (by norm_num), zpow_one]
      nth_rewrite 1 [hhalf]
      push_cast
      ring
    rw [hval]
    refine round64_exact_lt ?_ (by omega)
    rcases abs_eq (by norm_num : (0 : Int) ≤ 2 ^ 53) |>.mp heq with h | h <;> rw [h] <;> norm_num

theorem abs_lt_two_zpow (q : ℚ) : |q / 2 ^ ulpExp q| < 2 ^ 53 := by
  have h2 : (0 : ℚ) < 2 ^ ulpExp q := zpow_pos (by norm_num) _
  rw [abs_div, abs_of_pos h2, div_lt_iff₀ h2]
  calc |q| < ((2 : ℕ) : ℚ) ^ (Int.log 2 |q| + 1) := Int.lt_zpow_succ_log_self (by norm_num) _
    _ ≤ (2 : ℚ) ^ (53 + ulpExp q) := by
      rw [Nat.cast_ofNat]
      refine zpow_le_zpow_right₀ (by norm_num) ?_
      unfold ulpExp
      omega
    _ = 2 ^ 53 * 2 ^ ulpExp q := by
      rw [zpow_add₀ (by norm_num)]
      norm_num

theorem abs_roundEven_le (q : ℚ) : |roundEven (q / 2 ^ ulpExp q)| ≤ 2 ^ 53 := by
  have habs := abs_lt.mp (abs_lt_two_zpow q)
  refine abs_le.mpr ⟨?_, ?_⟩
  · refine le_trans ?_ (floor_le_roundEven _)
    rw [Int.le_floor]
    push_cast
    exact habs.1.le
  · refine le_trans (roundEven_le_ceil _) ?_
    rw [Int.ceil_le]
    push_cast
    exact habs.2.le

/-- **Rounding twice is rounding once.** -/
theorem round64_idem (q : ℚ) : round64 (round64 q) = round64 q := by
  by_cases hq : q = 0
  · simp [round64, hq]
  · have hval : round64 q = roundEven (q / 2 ^ ulpExp q) * 2 ^ ulpExp q := by
      rw [round64, if_neg hq]
    rw [hval]
    exact round64_exact (abs_roundEven_le q) (le_max_right _ _)

/-- Integers below `2 ^ 53` are exact. -/
theorem round64_intCast {n : Int} (h : |n| < 2 ^ 53) : round64 n = n := by
  have := round64_exact_lt (m := n) (k := 0) h (by omega)
  simpa using this

/-- Nothing from `2 ^ 53` on is rounded below it. -/
theorem two_pow_53_le_round64 {q : ℚ} (h : 2 ^ 53 ≤ q) : 2 ^ 53 ≤ round64 q := by
  have hpos : 0 < q := lt_of_lt_of_le (by norm_num) h
  have habs : |q| = q := abs_of_pos hpos
  have hlog : 53 ≤ Int.log 2 |q| := by
    rw [habs]
    refine (Int.zpow_le_iff_le_log (by norm_num) hpos).mp ?_
    rw [Nat.cast_ofNat]
    exact_mod_cast h
  have hu : ulpExp q = Int.log 2 |q| - 52 := by
    unfold ulpExp
    omega
  have h2 : (0 : ℚ) < 2 ^ ulpExp q := zpow_pos (by norm_num) _
  have hmant : (2 ^ 52 : Int) ≤ roundEven (q / 2 ^ ulpExp q) := by
    refine le_trans ?_ (floor_le_roundEven _)
    rw [Int.le_floor, le_div_iff₀ h2]
    calc ((2 ^ 52 : Int) : ℚ) * 2 ^ ulpExp q = ((2 : ℕ) : ℚ) ^ Int.log 2 q := by
          rw [hu, habs, Nat.cast_ofNat, zpow_sub₀ (by norm_num)]
          push_cast
          field_simp
      _ ≤ q := Int.zpow_log_le_self (by norm_num) hpos
  rw [round64, if_neg hpos.ne']
  calc (2 ^ 53 : ℚ) ≤ 2 ^ 52 * 2 ^ (1 : Int) := by norm_num
    _ ≤ 2 ^ 52 * 2 ^ ulpExp q := by
      refine mul_le_mul_of_nonneg_left ?_ (by positivity)
      exact zpow_le_zpow_right₀ (by norm_num) (by omega)
    _ ≤ roundEven (q / 2 ^ ulpExp q) * 2 ^ ulpExp q := by
      refine mul_le_mul_of_nonneg_right ?_ h2.le
      exact_mod_cast hmant

/-- Rounding is the same on both sides of zero. -/
theorem roundEven_neg (q : ℚ) : roundEven (-q) = -roundEven q := by
  by_cases hq : (⌊q⌋ : ℚ) = q
  · rw [← hq, ← Int.cast_neg, roundEven_intCast, roundEven_intCast]
  · have hlt : (⌊q⌋ : ℚ) < q := lt_of_le_of_ne (Int.floor_le q) hq
    have hlt' : q < ⌊q⌋ + 1 := Int.lt_floor_add_one q
    have hfloor : ⌊-q⌋ = -⌊q⌋ - 1 := by
      rw [Int.floor_eq_iff]
      push_cast
      constructor <;> linarith
    unfold roundEven
    simp only [hfloor]
    push_cast
    -- the distance to the floor of `-q` is what is missing to one for `q`
    have hdist : -q - (-(⌊q⌋ : ℚ) - 1) = 1 - (q - ⌊q⌋) := by ring
    rw [hdist]
    rcases lt_trichotomy (q - ⌊q⌋) (1 / 2) with h | h | h
    · rw [if_neg (by linarith), if_pos (by linarith), if_pos h]
      ring
    · have hsame : (1 : ℚ) - 1 / 2 = 1 / 2 := by norm_num
      rw [h, hsame, if_neg (lt_irrefl _), if_neg (lt_irrefl _)]
      by_cases heven : ⌊q⌋ % 2 = 0
      · rw [if_neg (show ¬ (-⌊q⌋ - 1) % 2 = 0 by omega), if_neg (lt_irrefl _), if_neg (lt_irrefl _),
          if_pos heven]
        ring
      · rw [if_pos (show (-⌊q⌋ - 1) % 2 = 0 by omega), if_neg (lt_irrefl _), if_neg (lt_irrefl _),
          if_neg heven]
        ring
    · rw [if_pos (by linarith), if_neg (by linarith), if_pos h]
      ring

theorem round64_neg (q : ℚ) : round64 (-q) = -round64 q := by
  have hulp : ulpExp (-q) = ulpExp q := by rw [ulpExp, ulpExp, abs_neg]
  unfold round64
  by_cases hq : q = 0
  · simp [hq]
  · rw [if_neg hq, if_neg (neg_ne_zero.mpr hq), hulp, neg_div, roundEven_neg]
    push_cast
    ring

/-- Nothing that is `2 ^ 53` or more away from zero is rounded to less. -/
theorem two_pow_53_le_abs_round64 {q : ℚ} (h : 2 ^ 53 ≤ |q|) : 2 ^ 53 ≤ |round64 q| := by
  rcases le_total 0 q with hq | hq
  · rw [abs_of_nonneg hq] at h
    exact (two_pow_53_le_round64 h).trans (le_abs_self _)
  · rw [abs_of_nonpos hq] at h
    have hneg := two_pow_53_le_round64 h
    rw [round64_neg] at hneg
    exact hneg.trans (neg_le_abs _)

/-- **Below `2 ^ 53` rounding keeps integers apart from all others.** -/
theorem intCast_eq_of_round64_eq {m n : Int} (hn : |n| < 2 ^ 53)
    (h : round64 (m : ℚ) = round64 (n : ℚ)) : m = n := by
  rw [round64_intCast hn] at h
  by_cases hm : |m| < 2 ^ 53
  · rw [round64_intCast hm] at h
    exact_mod_cast h
  · exfalso
    have hge : (2 ^ 53 : ℚ) ≤ |(m : ℚ)| := by exact_mod_cast not_lt.mp hm
    have hround := two_pow_53_le_abs_round64 hge
    rw [h] at hround
    have : (2 ^ 53 : Int) ≤ |n| := by exact_mod_cast hround
    omega

theorem natCast_eq_of_round64_eq {m n : Nat} (hn : n < 2 ^ 53)
    (h : round64 (m : ℚ) = round64 (n : ℚ)) : m = n := by
  have hlt : |(n : Int)| < 2 ^ 53 := by
    rw [abs_of_nonneg (Int.natCast_nonneg n)]
    exact_mod_cast hn
  have heq : (m : Int) = n := by
    refine intCast_eq_of_round64_eq hlt ?_
    exact_mod_cast h
  exact_mod_cast heq

/-! ## Binary64 numbers -/

/-- A finite binary64 number: its value, and whether it is the negative zero. -/
@[ext] structure Float64 where
  val : ℚ
  negZero : Bool
  exact : round64 val = val
  finite : |val| < 2 ^ 1024
  zero : negZero = true → val = 0
  deriving DecidableEq

namespace Float64

/-- `-0`. -/
def minusZero : Float64 := ⟨0, true, by simp [round64], by norm_num, fun _ => rfl⟩

theorem eq_minusZero {x : Float64} (h : x.negZero = true) : x = minusZero :=
  Float64.ext (x.zero h) h

/-- The number with `0` in the place of `-0`. -/
def plainZero (x : Float64) : Float64 := ⟨x.val, false, x.exact, x.finite, by simp⟩

theorem plainZero_of_not {x : Float64} (h : x.negZero = false) : x.plainZero = x :=
  Float64.ext rfl h.symm

/-- The nearest binary64 number. There is none beyond the largest finite one. -/
def ofRat? (q : ℚ) : Option Float64 :=
  if h : |round64 q| < 2 ^ 1024 then
    some ⟨round64 q, decide (q < 0 ∧ round64 q = 0), round64_idem q, h,
      fun hneg => (decide_eq_true_eq.mp hneg).2⟩
  else none

theorem val_of_ofRat? {q : ℚ} {x : Float64} (h : ofRat? q = some x) : x.val = round64 q := by
  unfold ofRat? at h
  split at h
  · rw [← Option.some.inj h]
  · cases h

/-- Nothing but a negative number is read as `-0`. -/
theorem plainZero_of_ofRat? {q : ℚ} {x : Float64} (hq : 0 ≤ q) (h : ofRat? q = some x) :
    x.plainZero = x := by
  unfold ofRat? at h
  split at h
  · rw [← Option.some.inj h]
    exact plainZero_of_not (decide_eq_false fun hneg => absurd hneg.1 (not_lt.mpr hq))
  · cases h

/-- Every unsigned 64-bit number is in range. -/
theorem exists_ofRat?_natCast {n : Nat} (h : n < 2 ^ 64) : ∃ x, ofRat? n = some x := by
  have hfinite : |round64 n| < 2 ^ 1024 := by
    unfold round64
    split
    · norm_num
    · next hne =>
      have hpos : (0 : ℚ) < |(n : ℚ)| := abs_pos.mpr hne
      have hlt : |(n : ℚ)| < ((2 : ℕ) : ℚ) ^ (64 : Int) := by
        rw [abs_of_nonneg (Nat.cast_nonneg n)]
        exact_mod_cast h
      have hlog := (Int.lt_zpow_iff_log_lt (by norm_num) hpos).mp hlt
      have hu : ulpExp n ≤ 11 := by
        unfold ulpExp
        omega
      have h2 : (0 : ℚ) < 2 ^ ulpExp n := zpow_pos (by norm_num) _
      have hmant : |(roundEven (n / 2 ^ ulpExp n) : ℚ)| ≤ 2 ^ 53 := by
        exact_mod_cast abs_roundEven_le n
      rw [abs_mul, abs_of_pos h2]
      calc |(roundEven (n / 2 ^ ulpExp n) : ℚ)| * 2 ^ ulpExp n
          ≤ 2 ^ 53 * 2 ^ (11 : Int) :=
            mul_le_mul hmant (zpow_le_zpow_right₀ (by norm_num) hu) h2.le (by norm_num)
        _ = 2 ^ 64 := by norm_num
        _ < 2 ^ 1024 := pow_lt_pow_right₀ (by norm_num) (by norm_num)
  exact ⟨_, dif_pos hfinite⟩

/-- An integer below `2 ^ 53` is one of the numbers. -/
theorem exists_ofRat?_intCast {n : Int} (h : |n| < 2 ^ 53) :
    ∃ x, ofRat? n = some x ∧ x.val = n := by
  have hround := round64_intCast h
  have hfinite : |round64 (n : ℚ)| < 2 ^ 1024 := by
    rw [hround]
    calc |(n : ℚ)| < 2 ^ 53 := by exact_mod_cast h
      _ < 2 ^ 1024 := pow_lt_pow_right₀ (by norm_num) (by norm_num)
  exact ⟨_, dif_pos hfinite, hround⟩

/-- The value with `p` significant decimal digits nearest to `q`. -/
def sigDigits (p : Nat) (q : ℚ) : Decimal :=
  let s := (p : Int) - 1 - Int.log 10 |q|
  Decimal.of (roundEven (q * 10 ^ s)) (-s)

/-- The exact decimal value of `m * 2 ^ u`. -/
def exactDecimal (m u : Int) : Decimal :=
  if 0 ≤ u then Decimal.of (m * 2 ^ u.toNat) 0 else Decimal.of (m * 5 ^ (-u).toNat) u

theorem toRat_exactDecimal (m u : Int) : (exactDecimal m u).toRat = m * 2 ^ u := by
  unfold exactDecimal
  split
  · next h =>
    obtain ⟨n, rfl⟩ := Int.eq_ofNat_of_zero_le h
    simp
  · next h =>
    obtain ⟨n, hn⟩ := Int.eq_ofNat_of_zero_le (show 0 ≤ -u by omega)
    have hu : u = -(n : Int) := by omega
    subst hu
    simp only [neg_neg, Int.toNat_natCast, Decimal.toRat_of, zpow_neg, zpow_natCast]
    push_cast
    rw [show (10 : ℚ) ^ n = 5 ^ n * 2 ^ n by rw [← mul_pow]; norm_num]
    field_simp

/-- The shortest decimal that reads back as `x`: one to seventeen digits suffice, so the exact
value at the end is never reached. -/
def shortest (x : Float64) : Decimal :=
  (((List.range 17).map fun i => sigDigits (i + 1) x.val).find?
    fun d => round64 d.toRat = x.val).getD
    (exactDecimal (roundEven (x.val / 2 ^ ulpExp x.val)) (ulpExp x.val))

/-- A binary64 number is a multiple of its quantum. -/
theorem roundEven_mul_ulp (x : Float64) :
    (roundEven (x.val / 2 ^ ulpExp x.val) : ℚ) * 2 ^ ulpExp x.val = x.val := by
  by_cases h0 : x.val = 0
  · simp [h0, roundEven]
  · have hx := x.exact
    rwa [round64, if_neg h0] at hx

theorem round64_shortest (x : Float64) : round64 x.shortest.toRat = x.val := by
  unfold shortest
  cases hf : ((List.range 17).map fun i => sigDigits (i + 1) x.val).find?
      fun d => round64 d.toRat = x.val with
  | some d =>
    have := List.find?_some hf
    simpa using this
  | none =>
    rw [Option.getD_none, toRat_exactDecimal, roundEven_mul_ulp]
    exact x.exact

/-- With `p` digits an integer is rounded to an integer. -/
theorem exists_toRat_sigDigits (p : Nat) (n : Int) : ∃ j : Int, (sigDigits p n).toRat = j := by
  unfold sigDigits
  dsimp only
  rw [Decimal.toRat_of]
  generalize (p : Int) - 1 - Int.log 10 |(n : ℚ)| = s
  rcases le_total 0 s with hs | hs
  · obtain ⟨k, rfl⟩ := Int.eq_ofNat_of_zero_le hs
    -- all digits are kept
    refine ⟨n, ?_⟩
    have hcast : (n : ℚ) * 10 ^ ((k : Nat) : Int) = ((n * 10 ^ k : Int) : ℚ) := by
      push_cast
      rw [zpow_natCast]
    rw [hcast, roundEven_intCast, ← hcast, mul_assoc, ← zpow_add₀ (by norm_num)]
    simp
  · obtain ⟨k, hk⟩ := Int.eq_ofNat_of_zero_le (neg_nonneg.mpr hs)
    rw [hk]
    refine ⟨roundEven (n * 10 ^ s) * 10 ^ k, ?_⟩
    push_cast
    rw [zpow_natCast]

/-- **An integer below `2 ^ 53` is printed with its own digits.** -/
theorem shortest_intCast {x : Float64} {n : Int} (hn : |n| < 2 ^ 53) (hx : x.val = n) :
    x.shortest = Decimal.of n 0 := by
  have hexists : ∃ j : Int, x.shortest.toRat = j := by
    unfold shortest
    cases hf : ((List.range 17).map fun i => sigDigits (i + 1) x.val).find?
        fun d => round64 d.toRat = x.val with
    | some d =>
      obtain ⟨i, -, rfl⟩ := List.mem_map.mp (List.mem_of_find?_eq_some hf)
      rw [hx]
      exact exists_toRat_sigDigits _ n
    | none =>
      rw [Option.getD_none, toRat_exactDecimal]
      exact ⟨n, (roundEven_mul_ulp x).trans hx⟩
  obtain ⟨j, hj⟩ := hexists
  have hround := round64_shortest x
  rw [hj, hx, ← round64_intCast hn] at hround
  refine Decimal.toRat_injective ?_
  rw [hj, intCast_eq_of_round64_eq hn hround, Decimal.toRat_of]
  simp

/-- **What a number is printed as reads back to it**, up to the sign of zero. -/
theorem ofRat?_shortest (x : Float64) : ofRat? x.shortest.toRat = some x.plainZero := by
  have hval := round64_shortest x
  have hsign : ¬ (x.shortest.toRat < 0 ∧ x.val = 0) := by
    rintro ⟨hneg, hzero⟩
    rw [shortest_intCast (n := 0) (by norm_num) (by simpa using hzero), Decimal.toRat_of] at hneg
    simp at hneg
  unfold ofRat?
  simp only [hval]
  rw [dif_pos x.finite, Option.some.injEq]
  exact Float64.ext rfl (decide_eq_false hsign)

end Float64

end Infra
