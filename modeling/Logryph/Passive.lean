import Logryph.RedactBody

/-!
# Passive interception

`InterceptRequest` returns nothing, and forwards a message that it cannot make sense of. What it
checks on the way are assertions, though, and in strict mode a failed one aborts the connection.

* `panics_extractTaskMetadata` — reading the request panics on what is no JSON-RPC 2.0 request,
  unless it is not JSON at all
* `panics_evaluatePolicy` — with rules in order, selecting one panics only at a rule with
  conditions, for a request without parameters
* `interceptRequest_passive_iff` — the requests for which the interception is passive
-/

namespace Logryph

open Infra

/-! ## What is asked of the surroundings -/

/-- A rule whose fields are there, and within the limits of the documentation. -/
structure RuleOk (rule : Rule) : Prop where
  id_ne : rule.id ≠ []
  riskLevel_ne : rule.riskLevel ≠ []
  patterns_ne : ∀ pattern ∈ rule.matchMethods, pattern ≠ []
  patterns_le : rule.matchMethods.length ≤ maxPatterns
  conditions_le : rule.matchConditions.length ≤ maxConditions
  redact_le : rule.redact.length ≤ maxRedactKeys

structure PoliciesOk (policies : List Rule) : Prop where
  length_le : policies.length ≤ maxPolicies
  rules : ∀ rule ∈ policies, RuleOk rule

/-- A worker between two calls: the buffer is in order, and the channel is closed only after the
flag was set. -/
structure Worker.Running (w : Worker) : Prop where
  ring : ∃ q, w.ringBuffer.Holds q
  closing : w.signalClosed = true → w.closing = true

/-- **`Submit` returns**, and leaves the worker as it should be. -/
theorem Worker.Running.submit {w : Worker} (h : w.Running) (e : Event) :
    (w.submit true e).1 = .ok () ∧ (w.submit true e).2.Running := by
  unfold Worker.submit
  split
  · exact ⟨rfl, h.ring, h.closing⟩
  · next hopen =>
    obtain ⟨q, hq⟩ := h.ring
    have hclosed : ¬ w.signalClosed = true := fun hc => hopen (h.closing hc)
    split
    · split
      · exact ⟨rfl, h.ring, h.closing⟩
      · exact ⟨rfl, h.ring, h.closing⟩
    · next hfull =>
      have hroom : q.length < w.ringBuffer.capacity :=
        lt_of_le_of_ne hq.length_le fun heq => hfull (hq.isFull_iff.mpr heq)
      obtain ⟨ring, hpush, hring, -⟩ := Buffer.push_ok true hq hroom e
      unfold Worker.pushEvent
      rw [hpush]
      dsimp only
      rw [if_neg hclosed]
      exact ⟨rfl, ⟨_, hring⟩, h.closing⟩

/-! ## Reading -/

/-- What has to hold for reading a request not to panic. -/
theorem panics_extractTaskMetadata {body : Bytes} : Panics (extractTaskMetadata true body) ↔
    ¬ (0 < body.length ∧ body.length < 1024 * 1024 ∧ ∀ req, unmarshalRequest body = some req →
      req.method ≠ [] ∧ req.jsonrpc = lit "2.0") := by
  unfold extractTaskMetadata
  rw [panics_check_bind, panics_check_bind]
  cases unmarshalRequest body with
  | none => simp
  | some req =>
    dsimp only
    rw [panics_check_bind, panics_check_bind]
    simp only [decide_eq_true_eq, not_panics_ok, Option.some.injEq, forall_eq']
    tauto

/-- A body that is turned down without a panic is no request at all. -/
theorem unmarshalRequest_of_rejected {body msg : Bytes}
    (h : extractTaskMetadata true body = .error (.error msg)) : unmarshalRequest body = none := by
  have hnot : ¬ Panics (extractTaskMetadata true body) := by
    rw [h]
    exact not_panics_error msg
  obtain ⟨hpos, hlt, hrequest⟩ := not_not.mp (mt panics_extractTaskMetadata.mpr hnot)
  cases hread : unmarshalRequest body with
  | none => rfl
  | some req =>
    obtain ⟨hmethod, hversion⟩ := hrequest req hread
    rw [(extractTaskMetadata_eq_ok true).mpr ⟨hpos, hlt, hread, hmethod, hversion, rfl, rfl⟩] at h
    cases h

/-! ## Selecting a rule -/

/-- Whether a pattern matches, once neither text is empty. -/
def patternMatches (pattern method : Bytes) : Bool :=
  pattern = method || pattern.getLast? = some 0x2A && pattern.dropLast.isPrefixOf method

/-- The first rule with a pattern that matches. -/
def firstMatch (policies : List Rule) (method : Bytes) : Option Rule :=
  policies.find? fun rule => rule.matchMethods.any (patternMatches · method)

theorem matchPattern_eq {strict : Bool} {pattern method : Bytes} (hpattern : pattern ≠ [])
    (hmethod : method ≠ []) :
    matchPattern strict pattern method = .ok (patternMatches pattern method) := by
  unfold matchPattern patternMatches answerCheck
  rw [if_pos (by simpa using hpattern), if_pos (by simpa using hmethod)]
  by_cases heq : pattern = method
  · simp [heq]
  · by_cases hstar : pattern.getLast? = some 0x2A
    · simp [heq, hstar]
    · simp [heq, hstar]

theorem checkConditions_some {strict : Bool} {conditions : List (SortedMap Bytes Bytes)}
    (params : SortedMap Bytes Value) (hlen : conditions.length ≤ maxConditions) :
    checkConditions strict conditions (some params)
      = .ok (conditions.all (checkCondition params)) := by
  unfold checkConditions
  split
  · next hempty => rw [List.isEmpty_iff.mp hempty, List.all_nil]
  · exact if_pos (decide_eq_true hlen)

/-- Without parameters there is nothing to compare with. -/
theorem panics_checkConditions_none {conditions : List (SortedMap Bytes Bytes)}
    (hne : conditions ≠ []) : Panics (checkConditions true conditions none) := by
  unfold checkConditions
  rw [if_neg (by simpa using hne)]
  exact panics_assertionFailed _

/-- The loop over the patterns, by induction. The conditions are the same for every pattern that
matches, so the loop ends as they do. It fails an assertion at an empty pattern. -/
theorem matchRule_cases {strict : Bool} {rule : Rule} {method : Bytes} {params : Object}
    (hmethod : method ≠ []) : ∀ patterns : List Bytes,
      [] ∈ patterns ∧ (strict = true → Panics (matchRule strict rule method params patterns)) ∨
      matchRule strict rule method params patterns =
        if patterns.any (patternMatches · method) then
          checkConditions strict rule.matchConditions params
        else .ok false
  | [] => Or.inr rfl
  | pattern :: patterns => by
    rw [matchRule]
    by_cases hpattern : pattern = []
    · subst hpattern
      refine Or.inl ⟨List.mem_cons_self, fun hstrict => ?_⟩
      subst hstrict
      exact ⟨_, rfl⟩
    rw [matchPattern_eq hpattern hmethod, List.any_cons]
    have hrest := @matchRule_cases strict rule method params hmethod patterns
    cases patternMatches pattern method with
    | false => exact hrest.imp (And.imp_left (List.mem_cons_of_mem _)) id
    | true =>
      by_cases hempty : rule.matchConditions.isEmpty = true
      · right
        rw [List.isEmpty_iff.mp hempty]
        rfl
      show _ ∧ (_ → Panics (if rule.matchConditions.isEmpty = true then _ else _)) ∨
        (if rule.matchConditions.isEmpty = true then _ else _) = _
      rw [if_neg hempty]
      cases hcheck : checkConditions strict rule.matchConditions params with
      | error f => exact Or.inr rfl
      | ok b =>
        cases b with
        | true => exact Or.inr rfl
        | false =>
          -- no later pattern changes the answer
          rw [hcheck, ite_self] at hrest
          exact hrest.imp (And.imp_left (List.mem_cons_of_mem _)) id

theorem matchRule_eq {strict : Bool} {rule : Rule} {method : Bytes} {params : Object}
    (hmethod : method ≠ []) {patterns : List Bytes}
    (hpatterns : ∀ pattern ∈ patterns, pattern ≠ []) :
    matchRule strict rule method params patterns =
      if patterns.any (patternMatches · method) then
        checkConditions strict rule.matchConditions params
      else .ok false :=
  (matchRule_cases hmethod patterns).resolve_left fun h => hpatterns [] h.1 rfl

theorem firstMatch_cons (rule : Rule) (rules : List Rule) (method : Bytes) :
    firstMatch (rule :: rules) method =
      if rule.matchMethods.any (patternMatches · method) then some rule
      else firstMatch rules method := by
  rw [firstMatch, List.find?_cons]
  split
  · next h => rw [if_pos h]
  · next h => rw [if_neg (by simp [h])]; rfl

theorem selectRule_cons {rule : Rule} {rules : List Rule} {method : Bytes} {params : Object}
    (h : RuleOk rule) : selectRule true method params (rule :: rules)
      = matchRule true rule method params rule.matchMethods >>= fun selected =>
          if selected then .ok (if rule.redact.isEmpty then .tag else .redact, some rule)
          else selectRule true method params rules := by
  rw [selectRule, decide_eq_true h.patterns_le, decide_eq_true h.conditions_le]
  rfl

/-- The loop over the rules, by induction: the first match decides if there are no parameters, and
nothing panics if there are. -/
theorem panics_selectRule {method : Bytes} {params : Object} (hmethod : method ≠ []) :
    ∀ {rules : List Rule}, (∀ rule ∈ rules, RuleOk rule) →
      (Panics (selectRule true method params rules) ↔ params = none ∧
        ∃ rule, firstMatch rules method = some rule ∧ rule.matchConditions ≠ [])
  | [], _ => by simp [selectRule, firstMatch]
  | rule :: rules, hrules => by
    rw [List.forall_mem_cons] at hrules
    obtain ⟨hrule, hrest⟩ := hrules
    have ih := @panics_selectRule method params hmethod rules hrest
    rw [selectRule_cons hrule, matchRule_eq hmethod hrule.patterns_ne, panics_bind, firstMatch_cons]
    by_cases hany : rule.matchMethods.any (patternMatches · method) = true
    · rw [if_pos hany, if_pos hany]
      cases params with
      | some m =>
        rw [checkConditions_some m hrule.conditions_le]
        cases rule.matchConditions.all (checkCondition m) with
        | true => simp
        | false => simpa using ih
      | none =>
        by_cases hnil : rule.matchConditions = []
        · rw [hnil]
          simp [checkConditions, hnil]
        · simp [panics_checkConditions_none hnil, hnil]
    · rw [if_neg hany, if_neg hany]
      simpa using ih

/-- What has to hold for the selection of a rule to panic. -/
theorem panics_evaluatePolicy {policies : List Rule} {method : Bytes} {params : Object}
    (h : PoliciesOk policies) (hmethod : method ≠ []) :
    Panics (evaluatePolicy true policies method params) ↔ params = none ∧
      ∃ rule, firstMatch policies method = some rule ∧ rule.matchConditions ≠ [] := by
  rw [evaluatePolicy_eq true hmethod h.length_le]
  exact panics_selectRule hmethod h.rules

/-- The action that goes with a rule. -/
theorem selectRule_action {method : Bytes} {params : Object} {action : PolicyAction}
    {rule : Option Rule} : ∀ {rules : List Rule},
      selectRule true method params rules = .ok (action, rule) →
      action = .redact ∧ (∃ r, rule = some r ∧ r.redact ≠ []) ∨
        action ≠ .redact ∧ ∀ r, rule = some r → r.redact = []
  | [], h => by
    cases h
    exact Or.inr ⟨by decide, fun r hr => by cases hr⟩
  | r :: rules, h => by
    rw [selectRule, bind_eq_ok] at h
    obtain ⟨_, -, h⟩ := h
    rw [bind_eq_ok] at h
    obtain ⟨_, -, h⟩ := h
    rw [bind_eq_ok] at h
    obtain ⟨selected, -, h⟩ := h
    cases selected with
    | false => exact selectRule_action h
    | true =>
      cases h
      by_cases hredact : r.redact = []
      · exact Or.inr ⟨by simp [hredact], fun r' hr' => by cases hr'; exact hredact⟩
      · exact Or.inl ⟨by simp [hredact], r, rfl, hredact⟩

/-! ## Redacting and submitting -/

theorem fieldOrEmpty_ok {value missing tooLong : Bytes} {limit : Nat} (hne : value ≠ [])
    (hlen : value.length ≤ limit) : fieldOrEmpty true value limit missing tooLong = .ok value := by
  unfold fieldOrEmpty quietCheck
  rw [decide_eq_true hne, decide_eq_true hlen]
  rfl

theorem panics_fieldOrEmpty {value missing tooLong : Bytes} {limit : Nat} (hne : value ≠ [])
    (hlen : ¬ value.length ≤ limit) :
    Panics (fieldOrEmpty true value limit missing tooLong) := by
  unfold fieldOrEmpty quietCheck
  rw [decide_eq_true hne, decide_eq_false hlen]
  exact ⟨_, rfl⟩

/-- The fields that are logged are short enough. This limit stands nowhere but in the checks. -/
def Rule.FieldsFit (rule : Rule) : Prop := rule.id.length ≤ 128 ∧ rule.riskLevel.length ≤ 32

/-- Once the request is accepted, logging and submitting it returns. -/
theorem logAndSubmit_ok {env : MessageEnv} {eng : Engine} {rule : Option Rule} {taskID : Bytes}
    {req : MCPRequest} (hworker : eng.worker.Running) (hrule : ∀ r, rule = some r → RuleOk r)
    (hfit : ∀ r, rule = some r → r.FieldsFit) :
    (logAndSubmit true env eng rule taskID req).1 = .ok () := by
  have hid : ∃ id, policyIDOrEmpty true rule = .ok id := by
    cases rule with
    | none => exact ⟨[], rfl⟩
    | some r => exact ⟨_, fieldOrEmpty_ok (hrule r rfl).id_ne (hfit r rfl).1⟩
  have hrisk : ∃ risk, riskLevelOrEmpty true rule = .ok risk := by
    cases rule with
    | none => exact ⟨[], rfl⟩
    | some r => exact ⟨_, fieldOrEmpty_ok (hrule r rfl).riskLevel_ne (hfit r rfl).2⟩
  have hrecord : ∀ (eng' : Engine) fill, eng'.worker = eng.worker →
      (eng'.record true env fill).1 = .ok () := by
    intro eng' fill heq
    unfold Engine.record
    have hrunning : Worker.Running { eng'.worker with
        state := { eng'.worker.state with
          pool := (getEvent env.pick eng'.worker.state.pool).2 } } := by
      rw [heq]
      exact ⟨hworker.ring, hworker.closing⟩
    exact (hrunning.submit _).1
  obtain ⟨id, hid⟩ := hid
  obtain ⟨risk, hrisk⟩ := hrisk
  unfold logAndSubmit
  rw [hid, hrisk]
  dsimp only
  unfold submitToolCallEvent
  split
  · exact hrecord eng _ rfl
  · exact hrecord _ _ rfl

/-- Logging panics if a field of the rule is too long. -/
theorem panics_logAndSubmit {env : MessageEnv} {eng : Engine} {rule : Option Rule} {taskID : Bytes}
    {req : MCPRequest} (hworker : eng.worker.Running) (hrule : ∀ r, rule = some r → RuleOk r) :
    Panics (logAndSubmit true env eng rule taskID req).1 ↔ ∃ r, rule = some r ∧ ¬ r.FieldsFit := by
  by_cases hfit : ∀ r, rule = some r → r.FieldsFit
  · rw [logAndSubmit_ok hworker hrule hfit]
    refine iff_of_false (not_panics_ok ()) ?_
    rintro ⟨r, hr, hno⟩
    exact hno (hfit r hr)
  · push Not at hfit
    obtain ⟨r, rfl, hno⟩ := hfit
    refine iff_of_true ?_ ⟨r, rfl, hno⟩
    have hok := hrule r rfl
    unfold logAndSubmit
    by_cases hid : r.id.length ≤ 128
    · obtain ⟨msg, hmsg⟩ : Panics (riskLevelOrEmpty true (some r)) :=
        panics_fieldOrEmpty hok.riskLevel_ne fun hle => hno ⟨hid, hle⟩
      rw [show policyIDOrEmpty true (some r) = .ok r.id from fieldOrEmpty_ok hok.id_ne hid, hmsg]
      exact ⟨msg, rfl⟩
    · obtain ⟨msg, hmsg⟩ : Panics (policyIDOrEmpty true (some r)) :=
        panics_fieldOrEmpty hok.id_ne hid
      rw [hmsg]
      exact ⟨msg, rfl⟩

/-- Applying the selected rule panics only if it redacts too large a request, or has a field that
is too long. -/
theorem panics_applyRedactionAndSubmit {env : MessageEnv} {eng : Engine} {action : PolicyAction}
    {rule : Option Rule} {body taskID : Bytes} {req : MCPRequest} (hworker : eng.worker.Running)
    (hrule : ∀ r, rule = some r → RuleOk r) (hbody : 0 < body.length) (hmethod : req.method ≠ [])
    (hread : unmarshalRequest body = some req)
    (haction : action = .redact ∧ (∃ r, rule = some r ∧ r.redact ≠ []) ∨
      action ≠ .redact ∧ ∀ r, rule = some r → r.redact = []) :
    Panics (applyRedactionAndSubmit true env eng action rule body taskID req.method req).1 ↔
      ∃ r, rule = some r ∧
        (r.redact ≠ [] ∧ maxParams < mapLen req.params ∨ ¬ r.FieldsFit) := by
  have hlog := @panics_logAndSubmit env eng rule taskID req hworker hrule
  unfold applyRedactionAndSubmit
  rw [decide_eq_true hmethod]
  dsimp only [check_true]
  rcases haction with ⟨rfl, r, rfl, hne⟩ | ⟨hne, hnone⟩
  · have hpanics : Panics (redactSensitiveData true body r.redact) ↔
        maxParams < mapLen req.params := by
      rw [panics_redactSensitiveData hne, hread]
      simp [hbody, (hrule r rfl).redact_le]
    have hreturns := @exists_redactSensitiveData true body r.redact req hne (hrule r rfl).redact_le
      hread
    dsimp only
    cases hscrub : redactSensitiveData true body r.redact with
    | error f =>
      have hlarge : maxParams < mapLen req.params := by
        by_contra hle
        obtain ⟨scrubbed, hok⟩ := hreturns.mpr (not_lt.mp hle)
        rw [hscrub] at hok
        cases hok
      obtain ⟨msg, hmsg⟩ := hpanics.mpr hlarge
      rw [hscrub] at hmsg
      cases hmsg
      exact iff_of_true ⟨msg, rfl⟩ ⟨r, rfl, Or.inl ⟨hne, hlarge⟩⟩
    | ok scrubbed =>
      have hsmall : ¬ maxParams < mapLen req.params :=
        not_lt.mpr (hreturns.mp ⟨scrubbed, hscrub⟩)
      dsimp only
      rw [hlog]
      simp [hsmall]
  · split
    · exact absurd rfl hne
    · rw [hlog]
      constructor
      · rintro ⟨r, hr, hno⟩
        exact ⟨r, hr, Or.inr hno⟩
      · rintro ⟨r, hr, ⟨hredact, -⟩ | hno⟩
        · exact absurd (hnone r hr) hredact
        · exact ⟨r, hr, hno⟩

/-! ## The whole call -/

/-- The rule in the result of a selection. -/
def ruleOf : Except Fault (PolicyAction × Option Rule) → Option Rule
  | .error _ => none
  | .ok (_, rule) => rule

/-- The rule that is selected for a body, if it is accepted. -/
def selectedRule (policies : List Rule) (body : Bytes) : Option Rule :=
  match extractTaskMetadata true body with
  | .error _ => none
  | .ok (req, _, method) => ruleOf (evaluatePolicy true policies method req.params)

/-- A rule is selected for a body that is read as a request. -/
theorem selectedRule_eq_some {policies : List Rule} {body : Bytes} {rule : Rule}
    (h : selectedRule policies body = some rule) : ∃ req action, unmarshalRequest body = some req ∧
      evaluatePolicy true policies req.method req.params = .ok (action, some rule) := by
  unfold selectedRule at h
  cases hextract : extractTaskMetadata true body with
  | error f =>
    rw [hextract] at h
    cases h
  | ok r =>
    obtain ⟨req, taskID, method⟩ := r
    obtain ⟨-, -, hread, -, -, -, rfl⟩ := (extractTaskMetadata_eq_ok true).mp hextract
    rw [hextract] at h
    dsimp only at h
    cases hrule : evaluatePolicy true policies req.method req.params with
    | error f =>
      rw [hrule] at h
      cases h
    | ok p =>
      obtain ⟨action, selected⟩ := p
      rw [hrule] at h
      cases h
      exact ⟨req, action, hread, hrule⟩

theorem mem_of_selectedRule {policies : List Rule} {body : Bytes} {rule : Rule}
    (h : selectedRule policies body = some rule) : rule ∈ policies := by
  obtain ⟨_, _, -, heval⟩ := selectedRule_eq_some h
  exact evaluatePolicy_mem true heval

/-- The interception of a POST request returns, and leaves the body as it was unless a rule with a
list of keys to redact was selected. -/
def Passive (env : MessageEnv) (eng : Engine) (body : Bytes) : Prop :=
  (interceptRequest true env eng ⟨true, some (.ok body)⟩).1 = .ok () ∧
    ((∀ rule, selectedRule eng.policies body = some rule → rule.redact = []) →
      (interceptRequest true env eng ⟨true, some (.ok body)⟩).2.body.getD body = body)

/-- The bodies that no assertion objects to. -/
structure Admitted (policies : List Rule) (body : Bytes) : Prop where
  nonempty : 0 < body.length
  small : body.length < 1024 * 1024
  request : ∀ req, unmarshalRequest body = some req → req.method ≠ [] ∧ req.jsonrpc = lit "2.0"
  params : ∀ req rule, unmarshalRequest body = some req → req.params = none →
    firstMatch policies req.method = some rule → rule.matchConditions = []
  redact : ∀ req rule, unmarshalRequest body = some req →
    selectedRule policies body = some rule → rule.redact ≠ [] → mapLen req.params ≤ maxParams
  fields : ∀ rule, selectedRule policies body = some rule → rule.FieldsFit

theorem admitted_of_no_request {policies : List Rule} {body : Bytes} (hpos : 0 < body.length)
    (hlt : body.length < 1024 * 1024) (hnone : unmarshalRequest body = none) :
    Admitted policies body := by
  refine ⟨hpos, hlt, ?_, ?_, ?_, ?_⟩
  · intro req h
    cases hnone.symm.trans h
  · intro req rule h
    cases hnone.symm.trans h
  · intro req rule h
    cases hnone.symm.trans h
  · intro rule h
    obtain ⟨_, _, hread, -⟩ := selectedRule_eq_some h
    cases hnone.symm.trans hread

/-- A body that is a request is admitted if the rules can be evaluated for it and the selected one
can be applied. -/
theorem admitted_iff_of_request {policies : List Rule} {body : Bytes} {req : MCPRequest}
    (hpolicies : PoliciesOk policies) (hpos : 0 < body.length) (hlt : body.length < 1024 * 1024)
    (hun : unmarshalRequest body = some req) (hmethod : req.method ≠ [])
    (hversion : req.jsonrpc = lit "2.0") :
    Admitted policies body ↔
      ¬ Panics (evaluatePolicy true policies req.method req.params) ∧
        ∀ rule, selectedRule policies body = some rule →
          (rule.redact ≠ [] → mapLen req.params ≤ maxParams) ∧ rule.FieldsFit := by
  rw [panics_evaluatePolicy hpolicies hmethod]
  constructor
  · intro h
    refine ⟨?_, fun rule hrule => ⟨h.redact req rule hun hrule, h.fields rule hrule⟩⟩
    rintro ⟨hnone, rule, hfirst, hne⟩
    exact hne (h.params req rule hun hnone hfirst)
  · rintro ⟨hparams, happlied⟩
    refine ⟨hpos, hlt, fun req' h => ?_, fun req' rule h hnone hfirst => ?_,
      fun req' rule h hrule => ?_, fun rule hrule => (happlied rule hrule).2⟩
    · cases hun.symm.trans h
      exact ⟨hmethod, hversion⟩
    · cases hun.symm.trans h
      by_contra hne
      exact hparams ⟨hnone, rule, hfirst, hne⟩
    · cases hun.symm.trans h
      exact (happlied rule hrule).1

theorem onlyPanic_fst {x : Except Fault Unit × Effect} :
    (onlyPanic x).1 = .ok () ↔ ¬ Panics x.1 := by
  obtain ⟨r, eff⟩ := x
  rcases r with (msg | msg) | u
  · exact iff_of_true rfl (not_panics_error msg)
  · refine iff_of_false (fun h => ?_) (not_not_intro (panics_panic msg))
    cases h
  · exact iff_of_true rfl (not_panics_ok u)

/-- The body that is left: another one only if the selected rule redacts. -/
theorem interceptBody_body_none {env : MessageEnv} {eng : Engine} {body : Bytes}
    (h : ∀ rule, selectedRule eng.policies body = some rule → rule.redact = []) :
    (interceptBody true env eng body).2.body = none := by
  rw [interceptBody_body]
  unfold ownRedaction
  unfold selectedRule at h
  cases hextract : extractTaskMetadata true body with
  | error f => rfl
  | ok r =>
    obtain ⟨req, taskID, method⟩ := r
    rw [hextract] at h
    dsimp only at h ⊢
    split
    · next rule heval =>
      rw [heval] at h
      have hempty : rule.redact = [] := h rule rfl
      -- the action is to redact only for a rule that does
      rw [evaluatePolicy, bind_eq_ok] at heval
      obtain ⟨_, -, heval⟩ := heval
      rw [bind_eq_ok] at heval
      obtain ⟨_, -, heval⟩ := heval
      rcases selectRule_action heval with ⟨-, r, hr, hne⟩ | ⟨hne, -⟩
      · cases hr
        exact absurd hempty hne
      · exact absurd rfl hne
    · rfl

/-- **When the interception is passive.** With rules in order and a worker that is running, the
interception of a POST request returns, and leaves the body alone where no rule redacts it, if and
only if the body has between one byte and one megabyte, is either no request at all or one of
JSON-RPC 2.0 with a method, comes with parameters where the first rule that matches has conditions,
and has at most 256 of them where the selected rule redacts. The selected rule also needs an id of
at most 128 bytes and a risk level of at most 32, which no documented limit asks for. -/
theorem interceptRequest_passive_iff (env : MessageEnv) {eng : Engine} (body : Bytes)
    (hworker : eng.worker.Running) (hpolicies : PoliciesOk eng.policies) :
    Passive env eng body ↔ Admitted eng.policies body := by
  have hbody : (∀ rule, selectedRule eng.policies body = some rule → rule.redact = []) →
      (interceptRequest true env eng ⟨true, some (.ok body)⟩).2.body.getD body = body := by
    intro h
    rw [show (interceptRequest true env eng ⟨true, some (.ok body)⟩).2.body = none from
      interceptBody_body_none h]
    rfl
  rw [Passive, and_iff_left hbody]
  show (interceptBody true env eng body).1 = .ok () ↔ _
  unfold interceptBody
  by_cases hread : 0 < body.length ∧ body.length < 1024 * 1024 ∧
      ∀ req, unmarshalRequest body = some req → req.method ≠ [] ∧ req.jsonrpc = lit "2.0"
  · have hnot : ¬ Panics (extractTaskMetadata true body) := fun h =>
      panics_extractTaskMetadata.mp h hread
    obtain ⟨hpos, hlt, hrequest⟩ := hread
    cases hextract : extractTaskMetadata true body with
    | error f =>
      cases f with
      | panic msg => exact absurd (hextract ▸ panics_panic msg) hnot
      | error msg =>
        have hnone := unmarshalRequest_of_rejected hextract
        exact iff_of_true rfl (admitted_of_no_request hpos hlt hnone)
    | ok r =>
      obtain ⟨req, taskID, method⟩ := r
      obtain ⟨-, -, hun, hmethod, -, -, rfl⟩ := (extractTaskMetadata_eq_ok true).mp hextract
      have hselected : selectedRule eng.policies body
          = ruleOf (evaluatePolicy true eng.policies req.method req.params) := by
        rw [selectedRule, hextract]
      rw [admitted_iff_of_request hpolicies hpos hlt hun hmethod (hrequest req hun).2]
      dsimp only
      cases hrule : evaluatePolicy true eng.policies req.method req.params with
      | error f =>
        rw [hrule] at hselected
        rw [hselected]
        dsimp only [ruleOf]
        rw [onlyPanic_fst, panics_error_iff, panics_error_iff]
        exact (and_iff_left fun rule h => by cases h).symm
      | ok p =>
        obtain ⟨action, rule⟩ := p
        rw [hrule] at hselected
        rw [hselected]
        dsimp only [ruleOf]
        have hmem : ∀ r, rule = some r → RuleOk r := by
          rintro r rfl
          exact hpolicies.rules r (evaluatePolicy_mem true hrule)
        rw [evaluatePolicy_eq true hmethod hpolicies.length_le] at hrule
        rw [onlyPanic_fst, panics_applyRedactionAndSubmit hworker hmem hpos hmethod hun
          (selectRule_action hrule), and_iff_right (not_panics_ok _)]
        constructor
        · intro h r hr
          refine ⟨fun hne => not_lt.mp fun hlt => h ⟨r, hr, Or.inl ⟨hne, hlt⟩⟩, ?_⟩
          by_contra hno
          exact h ⟨r, hr, Or.inr hno⟩
        · rintro h ⟨r, hr, ⟨hne, hlt⟩ | hno⟩
          · exact absurd ((h r hr).1 hne) (not_le.mpr hlt)
          · exact hno (h r hr).2
  · refine iff_of_false ?_ fun h => hread ⟨h.nonempty, h.small, h.request⟩
    obtain ⟨msg, hmsg⟩ := panics_extractTaskMetadata.mpr hread
    rw [hmsg]
    exact fun h => onlyPanic_fst.mp h (panics_panic msg)

/-! ## A rule with a condition -/

/-- Calls for a large amount, whose account is not to be passed on. -/
def amountRule : Rule where
  id := lit "payments"
  matchMethods := [lit "tools/*"]
  riskLevel := lit "high"
  matchConditions := [SortedMap.ofList [(lit "key", lit "amount"), (lit "operator", lit "gt"),
    (lit "value", lit "100")]]
  redact := [lit "account"]

def amountEngine : Engine := { plainEngine with policies := [amountRule] }

def amountEnv : MessageEnv where
  id := lit "evt-1"
  now := recordedEnv.now

theorem amountEngine_running : amountEngine.worker.Running := by
  refine ⟨⟨[], by decide, rfl, by decide, rfl, rfl, by decide, fun i x hx => ?_⟩, fun h => h⟩
  cases hx

theorem amountEngine_policies : PoliciesOk amountEngine.policies := by
  refine ⟨by decide, fun rule hrule => ?_⟩
  rw [List.mem_singleton.mp hrule]
  exact ⟨by decide, by decide, by decide, by decide, by decide, by decide⟩

/-- A call with an amount. -/
def amountBody : Bytes :=
  lit "\x7b\"jsonrpc\":\"2.0\",\"method\":\"tools/pay\",\"params\":\x7b\"amount\":250\x7d\x7d"

/-- What is read from the body. -/
def isPayment (req : MCPRequest) : Bool :=
  req.method = lit "tools/pay" && req.jsonrpc = lit "2.0" && req.params.isSome &&
    mapLen req.params = 1

theorem amountBody_read : (unmarshalRequest amountBody).any isPayment = true := by decide +kernel

/-- The call is passed on. -/
theorem interceptRequest_passive_amount : Passive amountEnv amountEngine amountBody := by
  have hread : ∀ req, unmarshalRequest amountBody = some req → req.method = lit "tools/pay" ∧
      req.jsonrpc = lit "2.0" ∧ req.params ≠ none ∧ mapLen req.params = 1 := by
    intro req hreq
    have h := amountBody_read
    rw [hreq, Option.any_some, isPayment] at h
    simp only [Bool.and_eq_true, decide_eq_true_eq, Option.isSome_iff_ne_none] at h
    exact ⟨h.1.1.1, h.1.1.2, h.1.2, h.2⟩
  refine (interceptRequest_passive_iff amountEnv amountBody amountEngine_running
    amountEngine_policies).mpr ⟨by decide, by decide, ?_, ?_, ?_, ?_⟩
  · intro req hreq
    obtain ⟨hmethod, hversion, -, -⟩ := hread req hreq
    rw [hmethod]
    exact ⟨by decide, hversion⟩
  · intro req rule hreq hnone
    exact absurd hnone (hread req hreq).2.2.1
  · intro req rule hreq _ _
    rw [(hread req hreq).2.2.2]
    decide
  · intro rule hrule
    have hmem : rule ∈ amountEngine.policies := mem_of_selectedRule hrule
    rw [List.mem_singleton.mp hmem]
    exact ⟨by decide, by decide⟩

/-- A call without parameters, which a rule with conditions matches. -/
def listBody : Bytes := lit "\x7b\"jsonrpc\":\"2.0\",\"method\":\"tools/list\"\x7d"

/-- **Two requests that are not passed on**: an empty body, and a call without parameters that meets
a rule with conditions. -/
theorem interceptRequest_panics : amountEngine.worker.Running ∧ PoliciesOk amountEngine.policies ∧
    (interceptRequest true amountEnv amountEngine ⟨true, some (.ok [])⟩).1
      = .error (.panic (lit "ASSERTION FAILED: request body is empty")) ∧
    (interceptRequest true amountEnv amountEngine ⟨true, some (.ok listBody)⟩).1
      = .error (.panic (lit "ASSERTION FAILED: params must not be nil")) :=
  ⟨amountEngine_running, amountEngine_policies, by decide +kernel, by decide +kernel⟩

end Logryph
