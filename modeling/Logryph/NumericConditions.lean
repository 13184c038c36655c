import Logryph.Infra.JsonValue
import Logryph.Observer

/-!
# Conditions on integers

`CheckConditions` parses both sides for the four orders, but for `eq` it compares the text that `%v`
gives for the parameter with the text of the condition. A parameter comes from a JSON body, so a
number in it is a binary64 number, and `%v` writes those with an exponent from a million on, and a
zero with its sign.

* `checkConditions_orders` — `gte` and `lte` together hold exactly for equal integers
* `checkConditions_eq` — `eq` holds for equal integers that are below a million
* `conditions_agree_iff` — so the operators agree on all pairs but the large equal ones and `-0`
-/

namespace Logryph

open Infra

/-- A condition that compares the parameter `key` with an integer. -/
def condition (key : Bytes) (operator : String) (m : Int) : SortedMap Bytes Bytes :=
  ((SortedMap.empty.insert (lit "key") key).insert (lit "operator") (lit operator)).insert
    (lit "value") (intText m)

theorem intText_eq (n : Int) : intText n = utf8 (intChars n) := by
  unfold intText intChars natText
  rw [utf8_append]
  split <;> rfl

theorem get?_condition (key : Bytes) (operator : String) (m : Int) :
    (condition key operator m).get? (lit "key") = some key ∧
      (condition key operator m).get? (lit "operator") = some (lit operator) ∧
      (condition key operator m).get? (lit "value") = some (utf8 (intChars m)) := by
  have hkey : lit "key" ≠ lit "operator" := by decide
  have hvalue : lit "key" ≠ lit "value" := by decide
  have hoperator : lit "operator" ≠ lit "value" := by decide
  simp [condition, intText_eq, hkey, hvalue, hoperator]

@[simp] theorem checkConditions_singleton (strict : Bool) (cond : SortedMap Bytes Bytes)
    (params : SortedMap Bytes Value) : checkConditions strict [cond] (some params) =
      .ok (checkCondition params cond) := by
  simp [checkConditions, answerCheck, maxConditions]

section

variable {strict : Bool} {params : SortedMap Bytes Value} {key : Bytes} {n m : Int}

theorem checkCondition_eq {val : Value} (hparam : params.get? key = some val) :
    checkCondition params (condition key "eq" m) = decide (sprint val = utf8 (intChars m)) := by
  obtain ⟨hkey, hoperator, hvalue⟩ := get?_condition key "eq" m
  simp [checkCondition, hkey, hoperator, hvalue, hparam]

theorem checkCondition_order {operator : String} {x : Float64}
    (horder : operator = "gte" ∨ operator = "lte") (hparam : params.get? key = some (.float64 x)) :
    checkCondition params (condition key operator m) =
      match Float64.ofRat? m with
      | none => false
      | some target => compareFloats (lit operator) (.finite x) (.finite target) := by
  obtain ⟨hkey, hoperator, hvalue⟩ := get?_condition key operator m
  have hne : ¬ lit operator = lit "eq" := by rcases horder with rfl | rfl <;> decide
  have hmem : lit operator = lit "gt" ∨ lit operator = lit "lt" ∨ lit operator = lit "gte" ∨
      lit operator = lit "lte" := by
    rcases horder with rfl | rfl <;> decide
  simp only [checkCondition, hkey, hoperator, hvalue, Option.getD_some, hparam, toFloat,
    parseFloat_intChars, if_neg hne, if_pos hmem]
  cases Float64.ofRat? m <;> rfl

/-- An integer in a JSON text is a decimal, or a zero with a sign. -/
theorem eq_of_value_int {j : Json} (hj : j.value = .num (.of n 0)) :
    j = .num (.of n 0) ∨ j = .negZero ∧ n = 0 := by
  cases j with
  | num d =>
    rw [Json.value, JsonValue.num.injEq] at hj
    exact .inl (congrArg Json.num hj)
  | negZero =>
    rw [Json.value, JsonValue.num.injEq] at hj
    have hval := congrArg Decimal.toRat hj
    rw [Decimal.toRat_of, Decimal.toRat_of] at hval
    exact .inr ⟨rfl, by simpa using hval.symm⟩
  | _ => cases hj

/-- The parameter is the number that an integer of the body is decoded to. -/
theorem exists_get?_int {j : Json} (hn : |n| < 2 ^ 53) (hj : j.value = .num (.of n 0))
    (hget : params.get? key = j.decode) :
    ∃ x : Float64, x.val = n ∧ (x.negZero = true ↔ j = .negZero) ∧
      params.get? key = some (.float64 x) := by
  rcases eq_of_value_int hj with rfl | ⟨rfl, rfl⟩
  · obtain ⟨x, hx, hval⟩ := Float64.exists_ofRat?_intCast hn
    refine ⟨x, hval, ?_, ?_⟩
    · -- an integer that is read as zero is zero, and has no sign
      have hplain : ¬ x.negZero = true := by
        intro hneg
        have hzero : n = 0 := by exact_mod_cast hval.symm.trans (x.zero hneg)
        subst hzero
        rw [← Float64.plainZero_of_ofRat? (by simp) hx] at hneg
        exact Bool.false_ne_true hneg
      simp [hplain]
    · rw [hget, Json.decode, Decimal.toRat_of, zpow_zero, mul_one, hx]
      rfl
  · exact ⟨.minusZero, by simp [Float64.minusZero], by simp [Float64.minusZero], hget⟩

/-- **`gte` and `lte` together hold exactly for equal integers**, however they are spelled. -/
theorem checkConditions_orders {j : Json} (hn : |n| < 2 ^ 53) (hj : j.value = .num (.of n 0))
    (hget : params.get? key = j.decode) :
    checkConditions strict [condition key "gte" m] (some params) = .ok true ∧
      checkConditions strict [condition key "lte" m] (some params) = .ok true ↔ n = m := by
  obtain ⟨x, hval, -, hparam⟩ := exists_get?_int hn hj hget
  rw [checkConditions_singleton, checkConditions_singleton, checkCondition_order (.inl rfl) hparam,
    checkCondition_order (.inr rfl) hparam]
  cases htarget : Float64.ofRat? m with
  | none =>
    -- the condition is beyond the finite range, where the parameter is not
    have hne : n ≠ m := by
      rintro rfl
      obtain ⟨y, hy, -⟩ := Float64.exists_ofRat?_intCast hn
      simp [hy] at htarget
    simp [hne]
  | some y =>
    have hy := Float64.val_of_ofRat? htarget
    have hge : compareFloats (lit "gte") (.finite x) (.finite y) = decide (y.val ≤ x.val) := rfl
    have hle : compareFloats (lit "lte") (.finite x) (.finite y) = decide (x.val ≤ y.val) := rfl
    simp only [hge, hle, Except.ok.injEq, decide_eq_true_eq]
    rw [← le_antisymm_iff, hy, hval]
    constructor
    · intro h
      refine (intCast_eq_of_round64_eq hn ?_).symm
      rw [h, round64_intCast hn]
    · rintro rfl
      exact round64_intCast hn

/-- **`eq` holds for equal integers below a million, and for no others.** A zero with a sign is not
equal to any. -/
theorem checkConditions_eq {j : Json} (hn : |n| < 2 ^ 53) (hj : j.value = .num (.of n 0))
    (hget : params.get? key = j.decode) :
    checkConditions strict [condition key "eq" m] (some params) = .ok true ↔
      n = m ∧ |n| < 10 ^ 6 ∧ j ≠ .negZero := by
  obtain ⟨x, hval, hsign, hparam⟩ := exists_get?_int hn hj hget
  rw [checkConditions_singleton, checkCondition_eq hparam, Except.ok.injEq, decide_eq_true_eq]
  by_cases hzero : j = .negZero
  · rw [Float64.eq_minusZero (hsign.mpr hzero)]
    exact iff_of_false (sprint_minusZero_ne m) fun h => h.2.2 hzero
  by_cases hsmall : |n| < 10 ^ 6
  · rw [sprint_int hval (Bool.not_eq_true _ ▸ mt hsign.mp hzero) hsmall]
    constructor
    · intro h
      exact ⟨intChars_injective (utf8_injective h), hsmall, hzero⟩
    · rintro ⟨rfl, -⟩
      rfl
  · constructor
    · intro h
      exact absurd h (sprint_int_ne hval hn (not_lt.mp hsmall) m)
    · rintro ⟨-, h, -⟩
      exact absurd h hsmall

end

/-- **The three operators agree on equality, unless the integers are equal and have more than six
digits, or the parameter is a zero that is written with a sign.** -/
theorem conditions_agree_iff (strict : Bool) (params : SortedMap Bytes Value) (key : Bytes)
    (j : Json) (n m : Int) (hn : |n| < 2 ^ 53) (hj : j.value = .num (.of n 0))
    (hget : params.get? key = j.decode) :
    (checkConditions strict [condition key "eq" m] (some params) = .ok true ↔
        checkConditions strict [condition key "gte" m] (some params) = .ok true ∧
          checkConditions strict [condition key "lte" m] (some params) = .ok true) ∧
      (checkConditions strict [condition key "eq" m] (some params) = .ok true ↔ n = m) ↔
    n ≠ m ∨ |n| < 10 ^ 6 ∧ j ≠ .negZero := by
  rw [checkConditions_orders hn hj hget, checkConditions_eq hn hj hget, and_self]
  constructor
  · intro h
    by_cases heq : n = m
    · exact .inr (h.mpr heq).2
    · exact .inl heq
  · intro h
    constructor
    · exact And.left
    · intro heq
      exact ⟨heq, h.resolve_left (absurd heq)⟩

/-- An amount of six digits is equal to itself. -/
theorem conditions_agree_100000 : ∃ params : SortedMap Bytes Value,
    params.get? (lit "amount") = (Json.num (.of 100000 0)).decode ∧
    checkConditions false [condition (lit "amount") "eq" 100000] (some params) = .ok true := by
  obtain ⟨x, hx, -⟩ := Float64.exists_ofRat?_intCast (n := 100000) (by decide)
  have hget : (SortedMap.empty.insert (lit "amount") (Value.float64 x)).get? (lit "amount") =
      (Json.num (.of 100000 0)).decode := by
    rw [Json.decode, Decimal.toRat_of, zpow_zero, mul_one, hx]
    simp
  refine ⟨_, hget, ?_⟩
  exact ((conditions_agree_iff false _ (lit "amount") (.num (.of 100000 0)) 100000 100000
    (by decide) rfl hget).mpr (.inr ⟨by decide, by simp⟩)).2.mpr rfl

/-- The answer to one condition on the amount in a body. -/
def checkAmount (body : Bytes) (operator : String) (m : Int) : Option (Except Fault Bool) :=
  (unmarshalObject body).map (checkConditions false [condition (lit "amount") operator m])

/-- An amount of seven digits satisfies both orders, but is not equal to itself: it is printed as
`1e+06`. -/
theorem conditions_disagree_1000000 :
    checkAmount (lit "\x7b\"amount\":1000000\x7d") "gte" 1000000 = some (.ok true) ∧
    checkAmount (lit "\x7b\"amount\":1000000\x7d") "lte" 1000000 = some (.ok true) ∧
    checkAmount (lit "\x7b\"amount\":1000000\x7d") "eq" 1000000 = some (.ok false) := by
  decide +kernel

-- a zero with a sign satisfies both orders, and is not equal to `0`
example : checkAmount (lit "\x7b\"amount\":-0\x7d") "gte" 0 = some (.ok true) ∧
    checkAmount (lit "\x7b\"amount\":-0\x7d") "lte" 0 = some (.ok true) ∧
    checkAmount (lit "\x7b\"amount\":-0\x7d") "eq" 0 = some (.ok false) := by
  decide +kernel

end Logryph
