import Logryph.Policy
import Logryph.RedactBody

/-!
# Loaded policies

`NewObserverEngine` and `Reload` take any file that the parser takes. The limits on rules are
assertions in the code that runs for each request, where a failed one panics.

* `accepted_iff` — every configuration that can be read and parsed is accepted
* `observe_submitted_iff` — with a configuration within the limits, the requests whose event is
  submitted
* `loaded_policy_evaluable_iff` — the configurations and requests for which loading and evaluating
  agree
-/

namespace Logryph

open Infra

/-! ## Loading -/

/-- The configuration is taken over by one of the two functions that load one. -/
inductive Accepted (strict : Bool) (files : PolicyFiles) : Config → Prop
  | new {path : Bytes} {e : ObserverEngine} (h : newObserverEngine strict files path = .ok e) :
      Accepted strict files e.config
  | reload {e e' : ObserverEngine} (h : e.reload files = (.ok (), e')) :
      Accepted strict files e'.config

/-- **Nothing is validated**: a configuration is accepted if its file can be read and parsed. -/
theorem accepted_iff {strict : Bool} {files : PolicyFiles} {config : Config} :
    Accepted strict files config ↔
      ∃ path data, files.readFile path = .ok data ∧ files.unmarshal data = .ok config := by
  constructor
  · rintro (h | h)
    · next path e =>
      exact ⟨_, loadConfig_eq_ok.mp (loadConfig_of_newObserverEngine h)⟩
    · next e e' =>
      unfold ObserverEngine.reload at h
      cases hload : loadConfig files e.configPath with
      | error f =>
        rw [hload] at h
        cases h
      | ok config =>
        rw [hload] at h
        cases h
        exact ⟨_, loadConfig_eq_ok.mp hload⟩
  · rintro ⟨path, hload⟩
    have h : ObserverEngine.reload files ⟨config, path⟩ = (.ok (), ⟨config, path⟩) := by
      rw [ObserverEngine.reload, loadConfig_eq_ok.mpr hload]
    exact Accepted.reload h

/-- The limits of the documentation, and that no field is empty. -/
structure ConfigLimits (config : Config) : Prop where
  policies : PolicyLimits config.policies
  redact_le : ∀ rule ∈ config.policies, rule.redact.length ≤ maxRedactKeys
  id_ne : ∀ rule ∈ config.policies, rule.id ≠ []
  riskLevel_ne : ∀ rule ∈ config.policies, rule.riskLevel ≠ []

/-! ## Evaluating -/

/-- What `InterceptRequest` does with a request that it has read: `evaluatePolicy` and
`applyRedactionAndSubmit`. -/
def observe (strict : Bool) (env : MessageEnv) (eng : Engine) (body taskID : Bytes)
    (req : MCPRequest) : Except Fault Unit × Effect :=
  match evaluatePolicy strict eng.policies req.method req.params with
  | .error f => (.error f, ⟨eng, none, none⟩)
  | .ok (action, rule) =>
    applyRedactionAndSubmit strict env eng action rule body taskID req.method req

theorem interceptBody_eq_observe {strict : Bool} {env : MessageEnv} {eng : Engine}
    {body taskID method : Bytes} {req : MCPRequest}
    (h : extractTaskMetadata strict body = .ok (req, taskID, method)) :
    interceptBody strict env eng body = onlyPanic (observe strict env eng body taskID req) := by
  obtain ⟨-, -, -, -, -, -, rfl⟩ := (extractTaskMetadata_eq_ok strict).mp h
  unfold interceptBody observe
  rw [h]
  dsimp only
  cases evaluatePolicy strict eng.policies req.method req.params with
  | error f => cases f <;> rfl
  | ok p => rfl

variable {env : MessageEnv} {eng : Engine} {body taskID : Bytes} {req : MCPRequest}

theorem fieldOrEmpty_eq_ok {value missing tooLong : Bytes} {limit : Nat} :
    (∃ field, fieldOrEmpty true value limit missing tooLong = .ok field) ↔
      value ≠ [] ∧ value.length ≤ limit := by
  constructor
  · rintro ⟨field, h⟩
    unfold fieldOrEmpty quietCheck at h
    by_cases hne : value = []
    · simp [hne, bind, Except.bind] at h
    by_cases hle : value.length ≤ limit
    · exact ⟨hne, hle⟩
    · simp [hne, hle, bind, Except.bind] at h
  · exact fun h => ⟨value, fieldOrEmpty_ok h.1 h.2⟩

/-- The fields for the log are checked before the event is submitted. -/
theorem logAndSubmit_submitted_iff {rule : Option Rule} :
    (logAndSubmit true env eng rule taskID req).2.submitted.isSome ↔ ∀ r, rule = some r →
      (r.id ≠ [] ∧ r.id.length ≤ 128) ∧ r.riskLevel ≠ [] ∧ r.riskLevel.length ≤ 32 := by
  obtain ⟨parentID, hsubmitted⟩ := submitToolCallEvent_submitted true env eng taskID req rule
  unfold logAndSubmit
  cases rule with
  | none =>
    refine iff_of_true ?_ fun r hr => ?_
    · show (submitToolCallEvent true env eng taskID req none).2.submitted.isSome
      rw [hsubmitted, Option.isSome_some]
    · cases hr
  | some r =>
    simp only [Option.some.injEq, forall_eq']
    rw [← @fieldOrEmpty_eq_ok r.id (lit "policy ID missing") (lit "policy ID too long: ") 128,
      ← @fieldOrEmpty_eq_ok r.riskLevel (lit "risk level missing") (lit "risk level too long: ") 32,
      ← policyIDOrEmpty, ← riskLevelOrEmpty]
    cases policyIDOrEmpty true (some r) with
    | error f => simp
    | ok id =>
      cases riskLevelOrEmpty true (some r) with
      | error f => simp
      | ok risk => simp [hsubmitted]

/-- What the selected rule has to be like for the event to be submitted. -/
def RuleUsable (params : SortedMap Bytes Value) (rule : Rule) : Prop :=
  rule.id.length ≤ 128 ∧ rule.riskLevel.length ≤ 32 ∧
    (rule.redact ≠ [] → params.size ≤ maxParams)

/-- **With a configuration within the limits, evaluation can still fail**, at the rule that is
selected: it may have an id or a risk level that is too long, or redact a request with too many
parameters. -/
theorem observe_submitted_iff {config : Config} {params : SortedMap Bytes Value}
    (hlimits : ConfigLimits config) (heng : eng.policies = config.policies)
    (hread : unmarshalRequest body = some req) (hmethod : req.method ≠ [])
    (hparams : req.params = some params) :
    (observe true env eng body taskID req).2.submitted.isSome ↔
      ∀ rule, config.policies.find? (qualifies req.method params) = some rule →
        RuleUsable params rule := by
  have heval : evaluatePolicy true eng.policies req.method req.params
      = .ok (actionFor (config.policies.find? (qualifies req.method params)),
        config.policies.find? (qualifies req.method params)) := by
    rw [heng, hparams, evaluatePolicy_eq true hmethod hlimits.policies.length_le,
      selectRule_eq true hmethod hlimits.policies.rules]
  unfold observe
  rw [heval]
  dsimp only
  cases hfind : config.policies.find? (qualifies req.method params) with
  | none =>
    rw [applyRedactionAndSubmit_plain true hmethod (by simp)]
    refine iff_of_true (logAndSubmit_submitted_iff.mpr fun r hr => ?_) fun r hr => ?_
    · cases hr
    · cases hr
  | some rule =>
    have hmem : rule ∈ config.policies := List.mem_of_find?_eq_some hfind
    have hlog : (logAndSubmit true env eng (some rule) taskID req).2.submitted.isSome ↔
        rule.id.length ≤ 128 ∧ rule.riskLevel.length ≤ 32 := by
      rw [logAndSubmit_submitted_iff]
      simp [hlimits.id_ne rule hmem, hlimits.riskLevel_ne rule hmem]
    simp only [Option.some.injEq, forall_eq', RuleUsable]
    by_cases hredact : rule.redact = []
    · rw [applyRedactionAndSubmit_plain true hmethod (by simp [hredact])]
      simpa [hredact] using hlog
    · have hsize := @exists_redactSensitiveData true body rule.redact req hredact
        (hlimits.redact_le rule hmem) hread
      rw [hparams] at hsize
      cases hscrub : redactSensitiveData true body rule.redact with
      | error f =>
        rw [hscrub] at hsize
        rw [applyRedactionAndSubmit_fails true hmethod hredact hscrub]
        refine iff_of_false (by simp) ?_
        rintro ⟨-, -, hle⟩
        obtain ⟨scrubbed, h⟩ := hsize.mpr (hle hredact)
        cases h
      | ok scrubbed =>
        have hle : params.size ≤ maxParams := hsize.mp ⟨scrubbed, hscrub⟩
        rw [applyRedactionAndSubmit_redact true hmethod hredact hscrub]
        simpa [hle] using hlog

/-- **A loaded policy is evaluable exactly if it is as it should be.** Whatever is accepted has to
be within the limits, and the request has to reach `submitToolCallEvent`. -/
theorem loaded_policy_evaluable_iff {files : PolicyFiles} {config : Config}
    {params : SortedMap Bytes Value} (heng : eng.policies = config.policies)
    (hread : unmarshalRequest body = some req) (hmethod : req.method ≠ [])
    (hparams : req.params = some params) :
    (Accepted true files config →
      ConfigLimits config ∧ (observe true env eng body taskID req).2.submitted.isSome) ↔
    ∀ path data, files.readFile path = .ok data → files.unmarshal data = .ok config →
      ConfigLimits config ∧
        ∀ rule, config.policies.find? (qualifies req.method params) = some rule →
          RuleUsable params rule := by
  rw [accepted_iff]
  constructor
  · intro h path data hdata hconfig
    obtain ⟨hlimits, hsubmitted⟩ := h ⟨path, data, hdata, hconfig⟩
    exact ⟨hlimits, (observe_submitted_iff hlimits heng hread hmethod hparams).mp hsubmitted⟩
  · rintro h ⟨path, data, hdata, hconfig⟩
    obtain ⟨hlimits, husable⟩ := h path data hdata hconfig
    exact ⟨hlimits, (observe_submitted_iff hlimits heng hread hmethod hparams).mpr husable⟩

/-! ## Three policy files -/

def configOf (rule : Rule) : Config := ⟨lit "2026.1", [rule]⟩

/-- The text of a policy file with one rule. -/
def yamlOf (id pattern : Bytes) : Bytes :=
  lit "version: \"2026.1\"\npolicies:\n" ++ lit "  - id: \"" ++ id ++ lit "\"\n" ++
    lit "    match_methods: [\"" ++ pattern ++ lit "\"]\n" ++
    lit "    risk_level: \"high\"\n" ++ lit "    redact: [\"password\"]\n"

/-- There is one policy file, whose text is that of the rule. -/
def filesOf (text : Bytes) (rule : Rule) : PolicyFiles where
  readFile path :=
    if path = lit "policy.yaml" then .ok text
    else .error (lit "open " ++ path ++ lit ": no such file or directory")
  unmarshal data :=
    if data = text then .ok (configOf rule)
    else .error (lit "yaml: line 1: did not find expected node content")
  abs := some

theorem newObserverEngine_filesOf (text : Bytes) (rule : Rule) :
    newObserverEngine true (filesOf text rule) (lit "policy.yaml")
      = .ok ⟨configOf rule, lit "policy.yaml"⟩ := by
  have hload : loadConfig (filesOf text rule) (lit "policy.yaml") = .ok (configOf rule) := by
    rw [loadConfig_eq_ok]
    exact ⟨text, by simp [filesOf], by simp [filesOf]⟩
  rw [newObserverEngine, bind_eq_ok]
  refine ⟨(), rfl, bind_eq_ok.mpr ⟨_, hload, rfl⟩⟩

/-- The request of the call with a password. -/
def passwordRequest : MCPRequest := (unmarshalRequest passwordBody).getD {}

def engineOf (config : Config) : Engine := { passwordEngine with policies := config.policies }

/-- What becomes of the call under a configuration. -/
def observePassword (config : Config) : Except Fault Unit × Effect :=
  observe true passwordEnv (engineOf config) passwordBody [] passwordRequest

theorem unmarshalRequest_passwordBody : unmarshalRequest passwordBody = some passwordRequest := by
  unfold passwordRequest
  have hread : (unmarshalRequest passwordBody).isSome = true := by decide +kernel
  exact eq_some_getD hread {}

theorem configLimits_configOf {rule : Rule} (hrule : RuleLimits rule)
    (hredact : rule.redact.length ≤ maxRedactKeys) (hid : rule.id ≠ [])
    (hrisk : rule.riskLevel ≠ []) : ConfigLimits (configOf rule) := by
  have hall : ∀ {P : Rule → Prop}, P rule → ∀ r ∈ (configOf rule).policies, P r := by
    intro P hP r hr
    rw [List.mem_singleton.mp hr]
    exact hP
  have hone : (configOf rule).policies.length ≤ maxPolicies := show 1 ≤ maxPolicies by decide
  exact ⟨⟨hone, hall hrule⟩, hall hredact, hall hid, hall hrisk⟩

/-- The file of the rule about passwords. -/
def passwordFiles : PolicyFiles := filesOf (yamlOf (lit "pii") (lit "tools/*")) passwordRule

/-- The rule about passwords is loaded, and the call is submitted. -/
theorem loaded_policy_evaluable_password :
    Accepted true passwordFiles (configOf passwordRule) ∧
      (observePassword (configOf passwordRule)).2.submitted.isSome := by
  have haccepted : Accepted true passwordFiles (configOf passwordRule) :=
    Accepted.new (newObserverEngine_filesOf _ passwordRule)
  have hlimits : ConfigLimits (configOf passwordRule) :=
    configLimits_configOf ⟨by decide, by decide, by decide⟩ (by decide) (by decide) (by decide)
  have hparams : passwordRequest.params = some (passwordRequest.params.getD SortedMap.empty) :=
    eq_some_getD (by decide +kernel) _
  have hmethod : passwordRequest.method ≠ [] := by decide +kernel
  have hsize : (passwordRequest.params.getD SortedMap.empty).size ≤ maxParams := by decide +kernel
  have hiff := @loaded_policy_evaluable_iff passwordEnv (engineOf (configOf passwordRule))
    passwordBody [] passwordRequest passwordFiles (configOf passwordRule) _ rfl
    unmarshalRequest_passwordBody hmethod hparams
  have husable : ∀ rule, (configOf passwordRule).policies.find? (qualifies passwordRequest.method
      (passwordRequest.params.getD SortedMap.empty)) = some rule →
        RuleUsable (passwordRequest.params.getD SortedMap.empty) rule := by
    intro rule hrule
    rw [List.mem_singleton.mp (List.mem_of_find?_eq_some hrule)]
    exact ⟨by decide, by decide, fun _ => hsize⟩
  unfold observePassword
  exact ⟨haccepted, (hiff.mpr (fun _ _ _ _ => ⟨hlimits, husable⟩) haccepted).2⟩

/-- A rule with an empty pattern. -/
def blankRule : Rule := { passwordRule with matchMethods := [[]] }

/-- A rule within the limits, with an id of 129 bytes. -/
def verboseRule : Rule := { passwordRule with id := List.replicate 129 0x61 }

def blankFiles : PolicyFiles := filesOf (yamlOf (lit "pii") []) blankRule

def verboseFiles : PolicyFiles := filesOf (yamlOf verboseRule.id (lit "tools/*")) verboseRule

/-- **Policies that are accepted, and panic when a request meets them.** -/
theorem loaded_policy_panics :
    (newObserverEngine true blankFiles (lit "policy.yaml")
        = .ok ⟨configOf blankRule, lit "policy.yaml"⟩ ∧
      (observePassword (configOf blankRule)).1
        = .error (.panic (lit "ASSERTION FAILED: pattern is non-empty"))) ∧
    (newObserverEngine true verboseFiles (lit "policy.yaml")
        = .ok ⟨configOf verboseRule, lit "policy.yaml"⟩ ∧
      ConfigLimits (configOf verboseRule) ∧
      (observePassword (configOf verboseRule)).1
        = .error (.panic (lit "ASSERTION FAILED: policy ID too long: 129"))) := by
  refine ⟨⟨newObserverEngine_filesOf _ blankRule, by decide +kernel⟩,
    newObserverEngine_filesOf _ verboseRule, ?_, by decide +kernel⟩
  exact configLimits_configOf ⟨by decide, by decide, by decide⟩ (by decide) (by decide) (by decide)

end Logryph
