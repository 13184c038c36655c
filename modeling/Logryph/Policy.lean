import Logryph.Passive

/-!
# Policy selection

`evaluatePolicy` has three nested loops, over the rules, the patterns of a rule and its conditions,
with checks of their lengths in between. For policies within the limits it is a search for the first
rule that qualifies.

* `Qualifies` — what a rule asks of a request
* `selectRule_eq` — the loop over the rules as a search
* `evaluatePolicy_first_match` — the selected rule, and that the order of patterns and conditions in
  a rule does not matter
-/

namespace Logryph

open Infra

variable (strict : Bool)

/-! ## What a rule asks for -/

/-- The pattern is the method, or a text that the method begins with, and a star. -/
def PatternMatches (pattern method : Bytes) : Prop :=
  pattern = method ∨ ∃ q, pattern = q ++ lit "*" ∧ q <+: method

/-- The two numbers are there, and in the relation. -/
def Ordered (r : GoFloat → GoFloat → Bool) (x target : Option GoFloat) : Prop :=
  ∃ a b, x = some a ∧ target = some b ∧ r a b = true

/-- An entry of a condition. -/
def conditionField (cond : SortedMap Bytes Bytes) (name : Bytes) : Bytes := (cond.get? name).getD []

/-- The key is present. The value under it is printed as the given text, or compares with the given
number as the operator says. Any other operator asks for nothing more. -/
def ConditionHolds (params : SortedMap Bytes Value) (cond : SortedMap Bytes Bytes) : Prop :=
  ∃ val, params.get? (conditionField cond (lit "key")) = some val ∧
    (conditionField cond (lit "operator") = lit "eq" →
      sprint val = conditionField cond (lit "value")) ∧
    (conditionField cond (lit "operator") = lit "gt" →
      Ordered (fun x y => y.lt x) (toFloat val) (parseFloat (conditionField cond (lit "value")))) ∧
    (conditionField cond (lit "operator") = lit "lt" →
      Ordered GoFloat.lt (toFloat val) (parseFloat (conditionField cond (lit "value")))) ∧
    (conditionField cond (lit "operator") = lit "gte" →
      Ordered (fun x y => y.le x) (toFloat val) (parseFloat (conditionField cond (lit "value")))) ∧
    (conditionField cond (lit "operator") = lit "lte" →
      Ordered GoFloat.le (toFloat val) (parseFloat (conditionField cond (lit "value"))))

/-- One of the patterns matches, and all conditions hold. -/
def Qualifies (method : Bytes) (params : SortedMap Bytes Value) (rule : Rule) : Prop :=
  (∃ pattern ∈ rule.matchMethods, PatternMatches pattern method) ∧
    ∀ cond ∈ rule.matchConditions, ConditionHolds params cond

/-- The limits on the loops of `evaluatePolicy`. -/
structure RuleLimits (rule : Rule) : Prop where
  patterns_le : rule.matchMethods.length ≤ maxPatterns
  patterns_ne : ∀ pattern ∈ rule.matchMethods, pattern ≠ []
  conditions_le : rule.matchConditions.length ≤ maxConditions

structure PolicyLimits (policies : List Rule) : Prop where
  length_le : policies.length ≤ maxPolicies
  rules : ∀ rule ∈ policies, RuleLimits rule

/-! ## The loops -/

theorem patternMatches_iff {pattern method : Bytes} :
    patternMatches pattern method = true ↔ PatternMatches pattern method := by
  unfold patternMatches PatternMatches
  rw [Bool.or_eq_true, Bool.and_eq_true, decide_eq_true_eq, decide_eq_true_eq,
    List.isPrefixOf_iff_prefix]
  refine or_congr_right ⟨?_, ?_⟩
  · rintro ⟨hlast, hprefix⟩
    exact ⟨_, (List.dropLast_append_getLast? _ hlast).symm, hprefix⟩
  · rintro ⟨q, rfl, hprefix⟩
    have hstar : lit "*" = [0x2A] := rfl
    rw [hstar, List.getLast?_concat, List.dropLast_concat]
    exact ⟨rfl, hprefix⟩

/-- **What the loop over the conditions checks.** -/
theorem checkCondition_iff {params : SortedMap Bytes Value} {cond : SortedMap Bytes Bytes} :
    checkCondition params cond = true ↔ ConditionHolds params cond := by
  unfold checkCondition ConditionHolds conditionField Ordered
  dsimp only
  generalize (cond.get? (lit "operator")).getD [] = operator
  generalize parseFloat ((cond.get? (lit "value")).getD []) = target
  generalize (cond.get? (lit "value")).getD [] = value
  cases params.get? ((cond.get? (lit "key")).getD []) with
  | none => simp
  | some val =>
    simp only [Option.some.injEq, exists_eq_left']
    generalize toFloat val = x
    -- The five operators are different texts, so at most one of the implications says something.
    by_cases heq : operator = lit "eq"
    · subst heq
      simp +decide
    by_cases hgt : operator = lit "gt"
    · subst hgt
      cases x <;> cases target <;> simp +decide [compareFloats]
    by_cases hlt : operator = lit "lt"
    · subst hlt
      cases x <;> cases target <;> simp +decide [compareFloats]
    by_cases hgte : operator = lit "gte"
    · subst hgte
      cases x <;> cases target <;> simp +decide [compareFloats]
    by_cases hlte : operator = lit "lte"
    · subst hlte
      cases x <;> cases target <;> simp +decide [compareFloats]
    simp [heq, hgt, hlt, hgte, hlte]

/-- Whether a rule qualifies, as the loops find it. -/
def qualifies (method : Bytes) (params : SortedMap Bytes Value) (rule : Rule) : Bool :=
  rule.matchMethods.any (patternMatches · method) &&
    rule.matchConditions.all (checkCondition params)

theorem qualifies_iff {method : Bytes} {params : SortedMap Bytes Value} {rule : Rule} :
    qualifies method params rule = true ↔ Qualifies method params rule := by
  unfold qualifies Qualifies
  simp only [Bool.and_eq_true, List.any_eq_true, List.all_eq_true, patternMatches_iff,
    checkCondition_iff]

/-- The action that goes with the selected rule. -/
def actionFor : Option Rule → PolicyAction
  | none => .allow
  | some rule => if rule.redact.isEmpty then .tag else .redact

/-- **The loop over the rules is a search.** -/
theorem selectRule_eq {method : Bytes} {params : SortedMap Bytes Value} (hmethod : method ≠ []) :
    ∀ {rules : List Rule}, (∀ rule ∈ rules, RuleLimits rule) →
      selectRule strict method (some params) rules =
        .ok (actionFor (rules.find? (qualifies method params)),
          rules.find? (qualifies method params))
  | [], _ => rfl
  | rule :: rules, hrules => by
    rw [List.forall_mem_cons] at hrules
    obtain ⟨hrule, hrest⟩ := hrules
    have hmatch : matchRule strict rule method (some params) rule.matchMethods =
        .ok (qualifies method params rule) := by
      rw [matchRule_eq hmethod hrule.patterns_ne, checkConditions_some params hrule.conditions_le,
        qualifies]
      cases rule.matchMethods.any (patternMatches · method) with
      | true => rfl
      | false => rfl
    rw [selectRule, decide_eq_true hrule.patterns_le, decide_eq_true hrule.conditions_le, hmatch]
    show (if qualifies method params rule = true then _ else _) = _
    by_cases hq : qualifies method params rule = true
    · rw [if_pos hq, List.find?_cons_of_pos hq]
      rfl
    · rw [if_neg hq, List.find?_cons_of_neg hq]
      exact selectRule_eq hmethod hrest

/-! ## Acting on the selected rule -/

section

variable {env : MessageEnv} {eng : Engine} {body taskID method : Bytes} {req : MCPRequest}

/-- Without keys to redact, the body stays. -/
theorem applyRedactionAndSubmit_plain {rule : Option Rule} (hmethod : method ≠ [])
    (hplain : ∀ r, rule = some r → r.redact = []) :
    applyRedactionAndSubmit strict env eng (actionFor rule) rule body taskID method req
      = logAndSubmit strict env eng rule taskID req := by
  unfold applyRedactionAndSubmit
  rw [decide_eq_true hmethod, check_true]
  cases rule with
  | none => rfl
  | some r =>
    rw [actionFor, hplain r rfl]
    rfl

theorem applyRedactionAndSubmit_redact {rule : Rule} {scrubbed : Bytes} (hmethod : method ≠ [])
    (hredact : rule.redact ≠ []) (h : redactSensitiveData strict body rule.redact = .ok scrubbed) :
    applyRedactionAndSubmit strict env eng (actionFor (some rule)) (some rule) body taskID method
        req
      = ((logAndSubmit strict env eng (some rule) taskID req).1,
        { (logAndSubmit strict env eng (some rule) taskID req).2 with body := some scrubbed }) := by
  unfold applyRedactionAndSubmit
  rw [decide_eq_true hmethod, check_true, actionFor, if_neg (by simpa using hredact)]
  simp only [h]

theorem applyRedactionAndSubmit_fails {rule : Rule} {f : Fault} (hmethod : method ≠ [])
    (hredact : rule.redact ≠ []) (h : redactSensitiveData strict body rule.redact = .error f) :
    applyRedactionAndSubmit strict env eng (actionFor (some rule)) (some rule) body taskID method
        req
      = (.error f, ⟨eng, none, none⟩) := by
  unfold applyRedactionAndSubmit
  rw [decide_eq_true hmethod, check_true, actionFor, if_neg (by simpa using hredact)]
  simp only [h]

end

/-! ## Without the limits -/

/-- The two rules differ at most in the order and repetition of their patterns and conditions. -/
structure SameRule (rule rule' : Rule) : Prop where
  others : rule' = { rule with
    matchMethods := rule'.matchMethods, matchConditions := rule'.matchConditions }
  patterns : ∀ pattern, pattern ∈ rule'.matchMethods ↔ pattern ∈ rule.matchMethods
  conditions : ∀ cond, cond ∈ rule'.matchConditions ↔ cond ∈ rule.matchConditions

theorem SameRule.qualifies_eq {rule rule' : Rule} (h : SameRule rule rule') (method : Bytes)
    (params : SortedMap Bytes Value) :
    qualifies method params rule' = qualifies method params rule := by
  rw [Bool.eq_iff_iff, qualifies_iff, qualifies_iff]
  unfold Qualifies
  simp only [h.patterns, h.conditions]

theorem findIdx_sameRules {method : Bytes} {params : SortedMap Bytes Value}
    {rules rules' : List Rule} (h : List.Forall₂ SameRule rules rules') :
    rules'.findIdx (qualifies method params) = rules.findIdx (qualifies method params) := by
  induction h with
  | nil => rfl
  | cons hrule _ ih => rw [List.findIdx_cons, List.findIdx_cons, hrule.qualifies_eq, ih]

theorem actionFor_sameRules {rules rules' : List Rule} (h : List.Forall₂ SameRule rules rules')
    (i : Nat) : actionFor rules'[i]? = actionFor rules[i]? := by
  induction h generalizing i with
  | nil => rfl
  | cons hrule _ ih =>
    cases i with
    | zero =>
      rw [List.getElem?_cons_zero, List.getElem?_cons_zero, hrule.others]
      rfl
    | succ i =>
      rw [List.getElem?_cons_succ, List.getElem?_cons_succ]
      exact ih i

/-- **Policy selection is first match.** For policies within the limits, a method that is not empty
and parameters that are there, `evaluatePolicy` returns the rule with the smallest index that
qualifies, with the action `redact` if it has keys to redact and `tag` if not. It returns `allow`
without a rule exactly when no rule qualifies. If patterns or conditions inside the rules are put in
another order or repeated, within the limits, the action and the index stay the same. -/
theorem evaluatePolicy_first_match {policies : List Rule} {method : Bytes}
    {params : SortedMap Bytes Value} (hlimits : PolicyLimits policies) (hmethod : method ≠ []) :
    ∃ i action, evaluatePolicy strict policies method (some params) = .ok (action, policies[i]?) ∧
      (∀ (j : Nat) rule, j < i → policies[j]? = some rule → ¬ Qualifies method params rule) ∧
      (∀ rule, policies[i]? = some rule →
        Qualifies method params rule ∧ action = if rule.redact = [] then .tag else .redact) ∧
      (policies[i]? = none ↔ ∀ rule ∈ policies, ¬ Qualifies method params rule) ∧
      (action = .allow ↔ policies[i]? = none) ∧
      ∀ policies', PolicyLimits policies' → List.Forall₂ SameRule policies policies' →
        evaluatePolicy strict policies' method (some params) = .ok (action, policies'[i]?) := by
  have heval : ∀ {rules}, PolicyLimits rules → evaluatePolicy strict rules method (some params) =
      .ok (actionFor rules[rules.findIdx (qualifies method params)]?,
        rules[rules.findIdx (qualifies method params)]?) := by
    intro rules h
    rw [evaluatePolicy_eq strict hmethod h.length_le, selectRule_eq strict hmethod h.rules,
      List.find?_eq_getElem?_findIdx]
  refine ⟨policies.findIdx (qualifies method params), _, heval hlimits, ?_, ?_, ?_, ?_, ?_⟩
  · intro j rule hj hrule hq
    obtain ⟨hlt, rfl⟩ := List.getElem?_eq_some_iff.mp hrule
    have hnot := List.not_of_lt_findIdx hj
    rw [qualifies_iff.mpr hq] at hnot
    cases hnot
  · intro rule hrule
    rw [← List.find?_eq_getElem?_findIdx] at hrule ⊢
    refine ⟨qualifies_iff.mp (List.find?_some hrule), ?_⟩
    rw [hrule, actionFor]
    simp only [List.isEmpty_iff]
  · rw [← List.find?_eq_getElem?_findIdx, List.find?_eq_none]
    simp only [qualifies_iff]
  · cases policies[policies.findIdx (qualifies method params)]? with
    | none => simp [actionFor]
    | some rule =>
      rw [actionFor]
      split <;> simp
  · intro policies' hlimits' hsame
    rw [heval hlimits', findIdx_sameRules hsame, actionFor_sameRules hsame]

/-- A payment with an amount as a text. -/
def amountParams : SortedMap Bytes Value := SortedMap.ofList [(lit "amount", .string (lit "250"))]

theorem amountRule_qualifies : Qualifies (lit "tools/pay") amountParams amountRule :=
  qualifies_iff.mp (by decide +kernel)

/-- A rule for the same calls, with a condition on a parameter that the payment does not have. -/
def refundRule : Rule :=
  { amountRule with
    id := lit "refunds"
    matchConditions := [SortedMap.ofList [(lit "key", lit "refund"), (lit "operator", lit "gt"),
      (lit "value", lit "0")]]
    redact := [] }

theorem refundRule_not_qualifies : ¬ Qualifies (lit "tools/pay") amountParams refundRule := by
  rw [← qualifies_iff]
  decide +kernel

/-- Policies of two rules within the limits. -/
theorem policyLimits_pair {rule rule' : Rule} (h : RuleLimits rule) (h' : RuleLimits rule') :
    PolicyLimits [rule, rule'] := by
  refine ⟨show 2 ≤ maxPolicies by decide, fun r hr => ?_⟩
  rcases List.mem_pair.mp hr with rfl | rfl
  · exact h
  · exact h'

/-- The second rule is selected for the payment, since the first one does not qualify; with its
patterns and conditions in any order. -/
theorem evaluatePolicy_first_match_amount :
    evaluatePolicy true [refundRule, amountRule] (lit "tools/pay") (some amountParams) =
      .ok (.redact, some amountRule) ∧
    evaluatePolicy true
      [refundRule, { amountRule with matchMethods := [lit "tools/*", lit "tools/*"] }]
      (lit "tools/pay") (some amountParams) =
      .ok (.redact, some { amountRule with matchMethods := [lit "tools/*", lit "tools/*"] }) := by
  have hrefund : RuleLimits refundRule := ⟨by decide, by decide, by decide⟩
  obtain ⟨i, action, heval, hbefore, hrule, hnone, -, hsame⟩ :=
    @evaluatePolicy_first_match true [refundRule, amountRule] (lit "tools/pay") amountParams
      (policyLimits_pair hrefund ⟨by decide, by decide, by decide⟩) (by decide)
  -- the first rule does not qualify and the second one does, so the index is that of the second
  have hi : i = 1 := by
    match i with
    | 0 => exact absurd (hrule refundRule rfl).1 refundRule_not_qualifies
    | 1 => rfl
    | i + 2 => exact absurd amountRule_qualifies (hnone.mp rfl amountRule (by simp))
  subst hi
  obtain ⟨-, haction⟩ := hrule amountRule rfl
  rw [if_neg (by decide)] at haction
  subst haction
  refine ⟨heval, hsame _ (policyLimits_pair hrefund ⟨by decide, by decide, by decide⟩)
    (.cons ⟨rfl, fun _ => Iff.rfl, fun _ => Iff.rfl⟩ (.cons ⟨rfl, ?_, fun _ => Iff.rfl⟩ .nil))⟩
  intro pattern
  simp [amountRule]

end Logryph
