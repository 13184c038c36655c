import Logryph.Mcp
import Logryph.Observer
import Logryph.Worker

/-!
# The interceptor

`InterceptRequest` reads a request, selects a rule for it, replaces the body if the rule redacts,
and submits an event. `InterceptResponse` submits an event for a response. Neither answers the
client: whatever goes wrong, the message is forwarded, unless an assertion panics.

The functions follow the source one by one. A call leaves an `Effect`: the state, the body that
replaces the one that was read, and the event that was given to `Submit`.

* `interceptBody_submitted` — the event of a request, in terms of what was read from its body
* `interceptBody_body` — a body is replaced by its own redaction, or not at all
* `interceptBody_policies` — no message changes the rules
-/

namespace Logryph

open Infra

/-- `core.Engine`, with the rules of its observer. -/
structure Engine where
  worker : Worker
  policies : List Rule
  activeTasks : SortedMap Bytes Bytes
  lastEventByTask : SortedMap Bytes Bytes

/-- `PolicyAction`. -/
inductive PolicyAction where
  | allow
  | tag
  | redact
  deriving DecidableEq

def maxPolicies : Nat := 256
def maxPatterns : Nat := 128
def maxRedactKeys : Nat := 128
def maxParams : Nat := 256

/-- What a request or response takes from outside: the event that the pool hands out, the id and
the time. -/
structure MessageEnv where
  pick : Option Nat := none
  id : Bytes
  now : Time

/-- What a call leaves behind. `submitted` is a record of the event given to `Submit`, which the
program itself does not keep. -/
structure Effect where
  engine : Engine
  body : Option Bytes := none
  submitted : Option Event := none

variable (strict : Bool)

/-! ## Reading the request -/

/-- The string under a key, or the empty one. -/
def stringField (o : Object) (key : Bytes) : Bytes :=
  match o with
  | none => []
  | some m =>
    match m.get? key with
    | some (.string s) => s
    | _ => []

/-- `extractTaskMetadata`. -/
def extractTaskMetadata (body : Bytes) : Except Fault (MCPRequest × Bytes × Bytes) := do
  check strict (0 < body.length) (lit "request body is empty")
  check strict (body.length < 1024 * 1024)
    (lit "request body too large: size=" ++ natText body.length)
  match unmarshalRequest body with
  | none => .error (.error (lit "invalid JSON-RPC: unmarshal failed"))
  | some req =>
    check strict (req.method ≠ []) (lit "method must not be empty")
    check strict (req.jsonrpc = lit "2.0") (lit "invalid JSON-RPC version: " ++ req.jsonrpc)
    .ok (req, stringField req.params (lit "task_id"), req.method)

/-! ## Selecting a rule -/

/-- The loop over the patterns of a rule: whether one of them selects it. -/
def matchRule (rule : Rule) (method : Bytes) (params : Object) : List Bytes → Except Fault Bool
  | [] => .ok false
  | pattern :: patterns => do
    if ← matchPattern strict pattern method then
      if rule.matchConditions.isEmpty then .ok true
      else if ← checkConditions strict rule.matchConditions params then .ok true
      else matchRule rule method params patterns
    else matchRule rule method params patterns

/-- The loop over the rules. -/
def selectRule (method : Bytes) (params : Object) :
    List Rule → Except Fault (PolicyAction × Option Rule)
  | [] => .ok (.allow, none)
  | rule :: rules => do
    check strict (rule.matchMethods.length ≤ maxPatterns)
      (lit "match_methods exceeds max in rule=" ++ rule.id)
    check strict (rule.matchConditions.length ≤ maxConditions)
      (lit "conditions exceeds max in rule=" ++ rule.id)
    if ← matchRule strict rule method params rule.matchMethods then
      .ok (if rule.redact.isEmpty then .tag else .redact, some rule)
    else selectRule method params rules

/-- `evaluatePolicy`. -/
def evaluatePolicy (policies : List Rule) (method : Bytes) (params : Object) :
    Except Fault (PolicyAction × Option Rule) := do
  check strict (method ≠ []) (lit "method name is non-empty")
  check strict (policies.length ≤ maxPolicies)
    (lit "policy count exceeds max: " ++ natText policies.length)
  selectRule strict method params policies

/-! ## Redacting -/

/-- What stands in the place of a redacted value. -/
def redacted : Value := .string (lit "[REDACTED]")

/-- The loop over the keys: each one that is present gets the placeholder. -/
def redactKeys (keys : List Bytes) (params : Object) : Object :=
  params.map fun m =>
    keys.foldl (fun m key => if (m.get? key).isSome then m.insert key redacted else m) m

/-- `redactSensitiveData`. -/
def redactSensitiveData (body : Bytes) (keys : List Bytes) : Except Fault Bytes := do
  check strict (0 < body.length) (lit "body must not be empty")
  if ← quietCheck strict (0 < keys.length) (lit "redaction keys must be defined") then
    check strict (keys.length ≤ maxRedactKeys)
      (lit "redaction keys exceed max: " ++ natText keys.length)
    match unmarshalRequest body with
    | none => .error (.error (lit "unmarshal failed"))
    | some req =>
      check strict (mapLen req.params ≤ maxParams)
        (lit "excessive parameters in request: " ++ natText (mapLen req.params))
      match marshalRequest { req with params := redactKeys keys req.params } with
      | none => .error (.error (lit "marshal failed"))
      | some bytes => .ok bytes
  else .ok body

/-! ## Submitting -/

/-- `policyIDOrEmpty` and `riskLevelOrEmpty`: a field for the log. -/
def fieldOrEmpty (value : Bytes) (limit : Nat) (missing tooLong : Bytes) : Except Fault Bytes := do
  if ← quietCheck strict (value ≠ []) missing then
    if ← quietCheck strict (value.length ≤ limit) (tooLong ++ natText value.length) then .ok value
    else .ok []
  else .ok []

def policyIDOrEmpty : Option Rule → Except Fault Bytes
  | none => .ok []
  | some rule =>
    fieldOrEmpty strict rule.id 128 (lit "policy ID missing") (lit "policy ID too long: ")

def riskLevelOrEmpty : Option Rule → Except Fault Bytes
  | none => .ok []
  | some rule =>
    fieldOrEmpty strict rule.riskLevel 32 (lit "risk level missing") (lit "risk level too long: ")

/-- The fields that a tool call is given. -/
def toolCallEvent (env : MessageEnv) (taskID : Bytes) (req : MCPRequest) (rule : Option Rule)
    (parentID : Option Bytes) (e : Event) : Event :=
  { e with
    id := env.id
    timestamp := env.now
    eventType := lit "tool_call"
    method := req.method
    params := req.params
    taskID
    policyID := (rule.map Rule.id).getD e.policyID
    riskLevel := (rule.map Rule.riskLevel).getD e.riskLevel
    parentID := parentID.getD e.parentID }

/-- An event is taken from the pool, filled in and submitted. -/
def Engine.record (eng : Engine) (env : MessageEnv) (fill : Event → Event) :
    Except Fault Unit × Effect :=
  let (e, pool) := getEvent env.pick eng.worker.state.pool
  let (r, worker) := { eng.worker with
    state := { eng.worker.state with pool } }.submit strict (fill e)
  (r, { engine := { eng with worker }, submitted := some (fill e) })

/-- `submitToolCallEvent`. -/
def submitToolCallEvent (env : MessageEnv) (eng : Engine) (taskID : Bytes) (req : MCPRequest)
    (rule : Option Rule) : Except Fault Unit × Effect :=
  if taskID = [] then eng.record strict env (toolCallEvent env taskID req rule none)
  else
    { eng with lastEventByTask := eng.lastEventByTask.insert taskID env.id }.record strict env
      (toolCallEvent env taskID req rule (eng.lastEventByTask.get? taskID))

/-- The end of `applyRedactionAndSubmit`: the log entry, whose fields are checked, and the event. -/
def logAndSubmit (env : MessageEnv) (eng : Engine) (rule : Option Rule) (taskID : Bytes)
    (req : MCPRequest) : Except Fault Unit × Effect :=
  match policyIDOrEmpty strict rule with
  | .error f => (.error f, ⟨eng, none, none⟩)
  | .ok _ =>
    match riskLevelOrEmpty strict rule with
    | .error f => (.error f, ⟨eng, none, none⟩)
    | .ok _ => submitToolCallEvent strict env eng taskID req rule

/-- `applyRedactionAndSubmit`. -/
def applyRedactionAndSubmit (env : MessageEnv) (eng : Engine) (action : PolicyAction)
    (rule : Option Rule) (body taskID method : Bytes) (req : MCPRequest) :
    Except Fault Unit × Effect :=
  match check strict (method ≠ []) (lit "method must not be empty") with
  | .error f => (.error f, ⟨eng, none, none⟩)
  | .ok () =>
    match action, rule with
    | .redact, some r =>
      match redactSensitiveData strict body r.redact with
      | .error f => (.error f, ⟨eng, none, none⟩)
      | .ok scrubbed =>
        let (res, eff) := logAndSubmit strict env eng rule taskID req
        (res, { eff with body := some scrubbed })
    | _, _ => logAndSubmit strict env eng rule taskID req

/-! ## Messages -/

/-- What a function that returns nothing lets through: only a panic. -/
def onlyPanic {α : Type} : Except Fault α × Effect → Except Fault Unit × Effect
  | (.error (.panic msg), eff) => (.error (.panic msg), eff)
  | (_, eff) => (.ok (), eff)

/-- `InterceptRequest`, from the body that was read on. -/
def interceptBody (env : MessageEnv) (eng : Engine) (body : Bytes) : Except Fault Unit × Effect :=
  match extractTaskMetadata strict body with
  | .error f => onlyPanic ((.error f : Except Fault Unit), ⟨eng, none, none⟩)
  | .ok (req, taskID, method) =>
    match evaluatePolicy strict eng.policies method req.params with
    | .error f => onlyPanic ((.error f : Except Fault Unit), ⟨eng, none, none⟩)
    | .ok (action, rule) =>
      onlyPanic (applyRedactionAndSubmit strict env eng action rule body taskID method req)

/-- An HTTP request: its method, and the body if it has one. A body that cannot be read to the end
is an error. -/
structure Request where
  post : Bool
  body : Option (Except Fault Bytes)

/-- `InterceptRequest`. -/
def interceptRequest (env : MessageEnv) (eng : Engine) (req : Request) :
    Except Fault Unit × Effect :=
  if req.post then
    match req.body with
    | some (.ok body) => interceptBody strict env eng body
    | _ => (.ok (), ⟨eng, none, none⟩)
  else (.ok (), ⟨eng, none, none⟩)

/-- The fields that a tool response is given. -/
def toolResponseEvent (env : MessageEnv) (resp : MCPResponse) (e : Event) : Event :=
  { e with
    id := env.id
    timestamp := env.now
    eventType := lit "tool_response"
    response := resp.result
    taskID := stringField resp.result (lit "task_id")
    taskState := stringField resp.result (lit "state") }

/-- The state that a response reports for a task, if it does. -/
def reportedState (resp : MCPResponse) : Option (Bytes × Bytes) :=
  match resp.result with
  | none => none
  | some m =>
    match m.get? (lit "state") with
    | some (.string state) =>
      if stringField resp.result (lit "task_id") = [] then none
      else some (stringField resp.result (lit "task_id"), state)
    | _ => none

/-- `InterceptResponse`, from the body that was read on. -/
def interceptResponse (env : MessageEnv) (eng : Engine) (body : Bytes) :
    Except Fault Unit × Effect :=
  match unmarshalResponse body with
  | none => (.ok (), ⟨eng, none, none⟩)
  | some resp =>
    if eng.worker.isHealthy then
      let activeTasks := match reportedState resp with
        | some (taskID, state) => eng.activeTasks.insert taskID state
        | none => eng.activeTasks
      { eng with activeTasks }.record strict env (toolResponseEvent env resp)
    else (.ok (), ⟨eng, none, none⟩)

/-! ## What a message leaves behind -/

/-- The requests that are accepted. -/
theorem extractTaskMetadata_eq_ok {body : Bytes} {req : MCPRequest} {taskID method : Bytes} :
    extractTaskMetadata strict body = .ok (req, taskID, method) ↔
      0 < body.length ∧ body.length < 1024 * 1024 ∧ unmarshalRequest body = some req ∧
        req.method ≠ [] ∧ req.jsonrpc = lit "2.0" ∧
        taskID = stringField req.params (lit "task_id") ∧ method = req.method := by
  unfold extractTaskMetadata
  simp only [bind_eq_ok, check_eq_ok, decide_eq_true_eq, exists_const]
  refine and_congr_right fun _ => and_congr_right fun _ => ?_
  cases unmarshalRequest body with
  | none => simp
  | some r =>
    simp only [bind_eq_ok, check_eq_ok, decide_eq_true_eq, exists_const, Option.some.injEq,
      Except.ok.injEq, Prod.mk.injEq]
    constructor
    · rintro ⟨hmethod, hversion, rfl, htask, hm⟩
      exact ⟨rfl, hmethod, hversion, htask.symm, hm.symm⟩
    · rintro ⟨rfl, hmethod, hversion, htask, hm⟩
      exact ⟨hmethod, hversion, rfl, htask.symm, hm.symm⟩

theorem evaluatePolicy_eq {policies : List Rule} {method : Bytes} {params : Object}
    (hmethod : method ≠ []) (hlen : policies.length ≤ maxPolicies) :
    evaluatePolicy strict policies method params = selectRule strict method params policies := by
  rw [evaluatePolicy, decide_eq_true hmethod, decide_eq_true hlen]
  rfl

/-- The first rule of the list is selected if one of its patterns does so. -/
theorem selectRule_head {rule : Rule} {rules : List Rule} {method : Bytes} {params : Object}
    (hpatterns : rule.matchMethods.length ≤ maxPatterns)
    (hconditions : rule.matchConditions.length ≤ maxConditions)
    (hmatch : matchRule strict rule method params rule.matchMethods = .ok true) :
    selectRule strict method params (rule :: rules)
      = .ok (if rule.redact.isEmpty then .tag else .redact, some rule) := by
  rw [selectRule, decide_eq_true hpatterns, decide_eq_true hconditions, hmatch]
  rfl

/-- What has to hold for a redaction not to panic. -/
theorem panics_redactSensitiveData {body : Bytes} {keys : List Bytes} (hkeys : keys ≠ []) :
    Panics (redactSensitiveData true body keys) ↔
      ¬ (0 < body.length ∧ keys.length ≤ maxRedactKeys ∧
        ∀ req, unmarshalRequest body = some req → mapLen req.params ≤ maxParams) := by
  unfold redactSensitiveData quietCheck
  rw [decide_eq_true (List.length_pos_of_ne_nil hkeys), panics_check_bind]
  show _ → Panics (check true (decide (keys.length ≤ maxRedactKeys)) _ >>= fun _ => _) ↔ _
  rw [panics_check_bind]
  cases unmarshalRequest body with
  | none => simp
  | some req =>
    dsimp only
    rw [panics_check_bind]
    -- writing the request fails with an error, which is no panic
    cases marshalRequest { req with params := redactKeys keys req.params } with
    | none => simp
    | some bytes => simp

@[simp] theorem onlyPanic_snd {α : Type} (x : Except Fault α × Effect) : (onlyPanic x).2 = x.2 := by
  obtain ⟨r, eff⟩ := x
  rcases r with (_ | _) | _ <;> rfl

theorem submitToolCallEvent_submitted (env : MessageEnv) (eng : Engine) (taskID : Bytes)
    (req : MCPRequest) (rule : Option Rule) : ∃ parentID,
      (submitToolCallEvent strict env eng taskID req rule).2.submitted = some
        (toolCallEvent env taskID req rule parentID
          (getEvent env.pick eng.worker.state.pool).1) := by
  unfold submitToolCallEvent
  split
  · exact ⟨_, rfl⟩
  · exact ⟨_, rfl⟩

theorem submitToolCallEvent_body (env : MessageEnv) (eng : Engine) (taskID : Bytes)
    (req : MCPRequest) (rule : Option Rule) :
    (submitToolCallEvent strict env eng taskID req rule).2.body = none := by
  unfold submitToolCallEvent
  split <;> rfl

/-- The log entry does not change what is submitted, but may keep it from being so. -/
theorem logAndSubmit_cases (env : MessageEnv) (eng : Engine) (rule : Option Rule) (taskID : Bytes)
    (req : MCPRequest) :
    (∃ f, logAndSubmit strict env eng rule taskID req = (.error f, ⟨eng, none, none⟩)) ∨
      logAndSubmit strict env eng rule taskID req
        = submitToolCallEvent strict env eng taskID req rule := by
  unfold logAndSubmit
  split
  · exact Or.inl ⟨_, rfl⟩
  · split
    · exact Or.inl ⟨_, rfl⟩
    · exact Or.inr rfl

theorem logAndSubmit_body (env : MessageEnv) (eng : Engine) (rule : Option Rule) (taskID : Bytes)
    (req : MCPRequest) : (logAndSubmit strict env eng rule taskID req).2.body = none := by
  rcases logAndSubmit_cases strict env eng rule taskID req with ⟨f, h⟩ | h
  · rw [h]
  · rw [h, submitToolCallEvent_body]

/-- What `applyRedactionAndSubmit` can do: fail, or redact as it was told and go on. -/
theorem applyRedactionAndSubmit_cases (env : MessageEnv) (eng : Engine) (action : PolicyAction)
    (rule : Option Rule) (body taskID method : Bytes) (req : MCPRequest) :
    (∃ f, applyRedactionAndSubmit strict env eng action rule body taskID method req
        = (.error f, ⟨eng, none, none⟩)) ∨
      ∃ replaced : Option Bytes,
        (∀ scrubbed, replaced = some scrubbed → ∃ r, rule = some r ∧
          redactSensitiveData strict body r.redact = .ok scrubbed) ∧
        applyRedactionAndSubmit strict env eng action rule body taskID method req
          = ((logAndSubmit strict env eng rule taskID req).1,
            { (logAndSubmit strict env eng rule taskID req).2 with body := replaced }) := by
  unfold applyRedactionAndSubmit
  split
  · exact Or.inl ⟨_, rfl⟩
  · split
    · next r =>
      split
      · exact Or.inl ⟨_, rfl⟩
      · next scrubbed h =>
        refine Or.inr ⟨some scrubbed, fun s hs => ?_, rfl⟩
        cases hs
        exact ⟨r, rfl, h⟩
    · refine Or.inr ⟨none, fun s hs => ?_, ?_⟩
      · cases hs
      · rw [← logAndSubmit_body strict env eng rule taskID req]

/-- What a request leaves behind: nothing, or what `logAndSubmit` leaves of it under the rule that
was selected, and perhaps its redaction. -/
theorem interceptBody_cases (env : MessageEnv) (eng : Engine) (body : Bytes) :
    (interceptBody strict env eng body).2 = ⟨eng, none, none⟩ ∨
      ∃ req taskID method action rule, ∃ replaced : Option Bytes,
        extractTaskMetadata strict body = .ok (req, taskID, method) ∧
        evaluatePolicy strict eng.policies method req.params = .ok (action, rule) ∧
        (∀ scrubbed, replaced = some scrubbed → ∃ r, rule = some r ∧
          redactSensitiveData strict body r.redact = .ok scrubbed) ∧
        (interceptBody strict env eng body).2
          = { (logAndSubmit strict env eng rule taskID req).2 with body := replaced } := by
  unfold interceptBody
  split
  · exact Or.inl (onlyPanic_snd _)
  · next req taskID method hextract =>
    split
    · exact Or.inl (onlyPanic_snd _)
    · next action rule hrule =>
      rw [onlyPanic_snd]
      rcases applyRedactionAndSubmit_cases strict env eng action rule body taskID method req with
        ⟨f, hfail⟩ | ⟨replaced, hreplaced, hdone⟩
      · rw [hfail]
        exact Or.inl rfl
      · rw [hdone]
        exact Or.inr ⟨req, taskID, method, action, rule, replaced, hextract, hrule, hreplaced, rfl⟩

/-- **The event of a request**: what was read from the body, under the rule that was selected. -/
theorem interceptBody_submitted {env : MessageEnv} {eng : Engine} {body : Bytes} {e : Event}
    (h : (interceptBody strict env eng body).2.submitted = some e) :
    ∃ req taskID method action rule parentID,
      extractTaskMetadata strict body = .ok (req, taskID, method) ∧
      evaluatePolicy strict eng.policies method req.params = .ok (action, rule) ∧
      e = toolCallEvent env taskID req rule parentID
        (getEvent env.pick eng.worker.state.pool).1 := by
  rcases interceptBody_cases strict env eng body with
    hnone | ⟨req, taskID, method, action, rule, replaced, hextract, hrule, -, heff⟩
  · rw [hnone] at h
    cases h
  · rw [heff] at h
    obtain ⟨parentID, hparent⟩ := submitToolCallEvent_submitted strict env eng taskID req rule
    refine ⟨req, taskID, method, action, rule, parentID, hextract, hrule, ?_⟩
    dsimp only at h
    rcases logAndSubmit_cases strict env eng rule taskID req with ⟨f, hfail⟩ | hsubmit
    · rw [hfail] at h
      cases h
    · rw [hsubmit, hparent, Option.some.injEq] at h
      exact h.symm

/-- The rule that is selected is one of the list. -/
theorem selectRule_mem {method : Bytes} {params : Object} {action : PolicyAction} {rule : Rule} :
    ∀ {rules : List Rule}, selectRule strict method params rules = .ok (action, some rule) →
      rule ∈ rules
  | [], h => by cases h
  | r :: rules, h => by
    rw [selectRule, bind_eq_ok] at h
    obtain ⟨_, -, h⟩ := h
    rw [bind_eq_ok] at h
    obtain ⟨_, -, h⟩ := h
    rw [bind_eq_ok] at h
    obtain ⟨selected, -, h⟩ := h
    cases selected with
    | true =>
      cases h
      exact List.mem_cons_self
    | false => exact List.mem_cons_of_mem _ (selectRule_mem h)

theorem evaluatePolicy_mem {policies : List Rule} {method : Bytes} {params : Object}
    {action : PolicyAction} {rule : Rule}
    (h : evaluatePolicy strict policies method params = .ok (action, some rule)) :
    rule ∈ policies := by
  rw [evaluatePolicy, bind_eq_ok] at h
  obtain ⟨_, -, h⟩ := h
  rw [bind_eq_ok] at h
  obtain ⟨_, -, h⟩ := h
  exact selectRule_mem strict h

/-- The redaction of a request by the rule that is selected for it, if that redacts. -/
def ownRedaction (policies : List Rule) (body : Bytes) : Option Bytes :=
  match extractTaskMetadata strict body with
  | .error _ => none
  | .ok (req, _, method) =>
    match evaluatePolicy strict policies method req.params with
    | .ok (.redact, some rule) => (redactSensitiveData strict body rule.redact).toOption
    | _ => none

/-- **A body is replaced exactly by its own redaction.** -/
theorem interceptBody_body (env : MessageEnv) (eng : Engine) (body : Bytes) :
    (interceptBody strict env eng body).2.body = ownRedaction strict eng.policies body := by
  unfold interceptBody ownRedaction
  cases hextract : extractTaskMetadata strict body with
  | error f => exact congrArg Effect.body (onlyPanic_snd _)
  | ok r =>
    obtain ⟨req, taskID, method⟩ := r
    obtain ⟨-, -, -, hmethod, -, -, rfl⟩ := (extractTaskMetadata_eq_ok strict).mp hextract
    dsimp only
    cases evaluatePolicy strict eng.policies req.method req.params with
    | error f => exact congrArg Effect.body (onlyPanic_snd _)
    | ok selected =>
      obtain ⟨action, rule⟩ := selected
      dsimp only
      rw [onlyPanic_snd]
      unfold applyRedactionAndSubmit
      rw [decide_eq_true hmethod]
      dsimp only [check_true]
      cases action with
      | redact =>
        cases rule with
        | none => exact logAndSubmit_body strict env eng none taskID req
        | some rule =>
          dsimp only
          cases redactSensitiveData strict body rule.redact <;> rfl
      | _ => exact logAndSubmit_body strict env eng rule taskID req

theorem interceptResponse_body (env : MessageEnv) (eng : Engine) (body : Bytes) :
    (interceptResponse strict env eng body).2.body = none := by
  unfold interceptResponse
  split
  · rfl
  · split <;> rfl

/-- A request leaves the rules and the states of the tasks alone. -/
theorem interceptBody_engine (env : MessageEnv) (eng : Engine) (body : Bytes) :
    ∃ worker lastEventByTask, (interceptBody strict env eng body).2.engine
      = { eng with worker, lastEventByTask } := by
  have hsubmit : ∀ taskID req rule, ∃ worker lastEventByTask,
      (submitToolCallEvent strict env eng taskID req rule).2.engine
        = { eng with worker, lastEventByTask } := by
    intro taskID req rule
    unfold submitToolCallEvent
    split
    · exact ⟨_, _, rfl⟩
    · exact ⟨_, _, rfl⟩
  rcases interceptBody_cases strict env eng body with
    hnone | ⟨req, taskID, method, action, rule, replaced, -, -, -, heff⟩
  · rw [hnone]
    exact ⟨_, _, rfl⟩
  · rw [heff]
    dsimp only
    rcases logAndSubmit_cases strict env eng rule taskID req with ⟨f, hfail⟩ | hlog
    · rw [hfail]
      exact ⟨_, _, rfl⟩
    · rw [hlog]
      exact hsubmit taskID req rule

/-- **No message changes the rules.** -/
theorem interceptBody_policies (env : MessageEnv) (eng : Engine) (body : Bytes) :
    (interceptBody strict env eng body).2.engine.policies = eng.policies := by
  obtain ⟨worker, lastEventByTask, h⟩ := interceptBody_engine strict env eng body
  rw [h]

theorem interceptResponse_policies (env : MessageEnv) (eng : Engine) (body : Bytes) :
    (interceptResponse strict env eng body).2.engine.policies = eng.policies := by
  unfold interceptResponse
  split
  · rfl
  · split <;> rfl

/-! ## An engine without rules -/

/-- A worker with room for four events, and no rules. -/
def plainEngine : Engine where
  worker := { ringBuffer := ⟨List.replicate 4 {}, 4, 0, 0, 0⟩
              state := initialState recordedSigner [] }
  policies := []
  activeTasks := SortedMap.empty
  lastEventByTask := SortedMap.empty

/-- Without rules, every request that is accepted is submitted. -/
theorem interceptBody_plain {body taskID method : Bytes} {req : MCPRequest}
    (h : extractTaskMetadata true body = .ok (req, taskID, method)) (env : MessageEnv) :
    ∃ e, (interceptBody true env plainEngine body).2.submitted = some e := by
  obtain ⟨-, -, -, hmethod, -, -, rfl⟩ := (extractTaskMetadata_eq_ok true).mp h
  unfold interceptBody
  rw [h]
  dsimp only
  rw [evaluatePolicy_eq true hmethod (by decide), plainEngine, selectRule, onlyPanic_snd]
  unfold applyRedactionAndSubmit
  rw [decide_eq_true hmethod]
  obtain ⟨parentID, he⟩ := submitToolCallEvent_submitted true env plainEngine taskID req none
  exact ⟨_, he⟩

end Logryph
