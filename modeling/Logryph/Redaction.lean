import Logryph.Interceptor

/-!
# Redaction and the ledger

A rule names parameters whose values are to be redacted. The interceptor replaces them in the body
that is forwarded, in a second copy of the request, and submits the event with the first copy. What
is recorded is what was sent.

* `Observation.event_params` — the event has the parameters of the request
* `Observation.column_params` — and so has the stored row
* `redaction_confined_iff` — the values under the keys of the rule stay out of the ledger exactly
  when there are none
-/

namespace Logryph

open Infra

variable {strict : Bool} {eng eng' : Engine}

/-- A request whose event was submitted under a rule, with what was found out on the way. -/
structure Observation (strict : Bool) (eng : Engine) where
  env : MessageEnv
  body : Bytes
  req : MCPRequest
  taskID : Bytes
  method : Bytes
  action : PolicyAction
  rule : Rule
  event : Event
  extracted : extractTaskMetadata strict body = .ok (req, taskID, method)
  selected : evaluatePolicy strict eng.policies method req.params = .ok (action, some rule)
  submitted : (interceptRequest strict env eng ⟨true, some (.ok body)⟩).2.submitted = some event

/-- The value under a key. -/
def lookup (o : Object) (k : Bytes) : Option Value := o.bind fun m => m.get? k

/-! ## What is recorded -/

namespace Observation

/-- **The event has the parameters of the request**, with or without a redaction. -/
theorem event_params (a : Observation strict eng) : a.event.params = a.req.params := by
  obtain ⟨req, _, _, _, _, _, hextract, -, hevent⟩ := interceptBody_submitted strict a.submitted
  rw [a.extracted, Except.ok.injEq] at hextract
  cases hextract
  rw [hevent]
  rfl

/-- **The stored column is read as the parameters of the request.** The processor gives the event
its place in the chain and leaves the parameters alone. -/
theorem column_params (a : Observation strict eng) {stored : Event} {row : EventRow}
    (hparams : stored.params = a.event.params) (henc : encodeEvent stored = .ok row) :
    decodeColumn row.params = a.req.params := by
  obtain ⟨-, -, hread, -⟩ := (extractTaskMetadata_eq_ok strict).mp a.extracted
  obtain ⟨params, response, hmarshal, -, rfl⟩ := encodeEvent_eq_ok henc
  rw [hparams, a.event_params] at hmarshal
  exact Object.value_injective
    (decodeColumn_marshal hmarshal (readsAs_of_shallow (unmarshalRequest_shallow hread)))

end Observation

/-! ## What is kept out -/

/-- No value that stands under one of the keys in `sent` is in `recorded`. -/
def ConfinedIn (keys : List Bytes) (sent recorded : Object) : Prop :=
  ∀ k ∈ keys, ∀ v, lookup sent k = some v → ∀ k', lookup recorded k' ≠ some v

/-- The redacted values of a request are neither in its event nor in the column stored for it. -/
structure Observation.Confined (a : Observation strict eng) : Prop where
  event : ConfinedIn a.rule.redact a.req.params a.event.params
  column : ∀ stored row, stored.params = a.event.params → encodeEvent stored = .ok row →
    ConfinedIn a.rule.redact a.req.params (decodeColumn row.params)

/-- The two maps have the same keys, and the same values except under `keys`. -/
def DifferOnlyIn (keys : List Bytes) : Object → Object → Prop
  | none, none => True
  | some m, some m' => (∀ k, (m.get? k).isSome = (m'.get? k).isSome) ∧
    ∀ k, k ∉ keys → m.get? k = m'.get? k
  | _, _ => False

theorem DifferOnlyIn.lookup_eq_none {keys : List Bytes} {o o' : Object} (h : DifferOnlyIn keys o o')
    {k : Bytes} (hk : lookup o k = none) : lookup o' k = none := by
  cases o with
  | none =>
    cases o' with
    | none => rfl
    | some m' => cases h
  | some m =>
    cases o' with
    | none => cases h
    | some m' =>
      have hm : m.get? k = none := hk
      have hsome := h.1 k
      rw [hm, Option.isSome_none] at hsome
      exact Option.isNone_iff_eq_none.mp (Option.isSome_eq_false_iff.mp hsome.symm)

/-- Maps that differ only in keys that they do not have are equal. -/
theorem DifferOnlyIn.eq {keys : List Bytes} {o o' : Object} (h : DifferOnlyIn keys o o')
    (hnone : ∀ k ∈ keys, lookup o k = none) : o = o' := by
  have hnone' : ∀ k ∈ keys, lookup o' k = none := fun k hk => h.lookup_eq_none (hnone k hk)
  cases o with
  | none =>
    cases o' with
    | none => rfl
    | some m' => cases h
  | some m =>
    cases o' with
    | none => cases h
    | some m' =>
      refine congrArg some (SortedMap.ext_get? fun k => ?_)
      by_cases hk : k ∈ keys
      · exact Eq.trans (hnone k hk) (hnone' k hk).symm
      · exact h.2 k hk

/-- Nothing is kept out: a value that is sent under one of the keys is recorded. -/
theorem Observation.confined_iff (a : Observation strict eng) :
    a.Confined ↔ ∀ k ∈ a.rule.redact, lookup a.req.params k = none := by
  constructor
  · intro h k hk
    cases hv : lookup a.req.params k with
    | none => rfl
    | some v =>
      have hleak : lookup a.event.params k = some v := by rw [a.event_params, hv]
      exact absurd hleak (h.event k hk v hv k)
  · intro h
    have hvacuous : ∀ recorded, ConfinedIn a.rule.redact a.req.params recorded := by
      intro recorded k hk v hv
      rw [h k hk] at hv
      cases hv
    exact ⟨hvacuous _, fun _ _ _ _ => hvacuous _⟩

/-- **Redacted values reach the ledger.** For any two requests under the same rule that differ only
in the values of its redacted keys: these values are kept out of both records, and the records are
the same, exactly when none of the keys is present. -/
theorem redaction_confined_iff (a : Observation strict eng) (b : Observation strict eng')
    (hrule : b.rule = a.rule) (hdiff : DifferOnlyIn a.rule.redact a.req.params b.req.params) :
    (a.Confined ∧ b.Confined ∧ a.event.params = b.event.params) ↔
      ∀ k ∈ a.rule.redact, lookup a.req.params k = none := by
  rw [a.confined_iff, b.confined_iff, hrule, a.event_params, b.event_params]
  constructor
  · exact fun h => h.1
  · intro h
    exact ⟨h, fun k hk => hdiff.lookup_eq_none (h k hk), hdiff.eq h⟩

/-! ## A policy that redacts a password -/

def passwordRule : Rule where
  id := lit "pii"
  matchMethods := [lit "tools/*"]
  riskLevel := lit "high"
  redact := [lit "password"]

/-- A worker with room for one event, and the rule. -/
def passwordEngine : Engine where
  worker := { ringBuffer := ⟨[{}], 1, 0, 0, 0⟩, state := initialState recordedSigner [] }
  policies := [passwordRule]
  activeTasks := SortedMap.empty
  lastEventByTask := SortedMap.empty

def passwordEnv : MessageEnv where
  id := lit "evt-1"
  now := recordedEnv.now

/-- A call of a tool with the given parameters. -/
def toolsCall (params : Bytes) : Bytes :=
  lit "\x7b\"jsonrpc\":\"2.0\",\"id\":1,\"method\":\"tools/call\",\"params\":" ++ params ++
    lit "\x7d"

/-- What the interceptor does with the call. -/
def intercepted (params : Bytes) : Effect :=
  (interceptRequest true passwordEnv passwordEngine
    ⟨true, some (.ok (toolsCall params))⟩).2

/-- The request that is read from the call. -/
def readCall (params : Bytes) : MCPRequest := (unmarshalRequest (toolsCall params)).getD {}

theorem eq_some_getD {α : Type} {o : Option α} (h : o.isSome = true) (d : α) :
    o = some (o.getD d) := by
  obtain ⟨x, rfl⟩ := Option.isSome_iff_exists.mp h
  rfl

/-- What has to be evaluated for a call to be an observation. -/
def observable (params : Bytes) : Bool :=
  decide (0 < (toolsCall params).length) && decide ((toolsCall params).length < 1024 * 1024) &&
    (unmarshalRequest (toolsCall params)).isSome &&
    decide ((readCall params).method = lit "tools/call") &&
    decide ((readCall params).jsonrpc = lit "2.0") && (intercepted params).submitted.isSome

theorem matchRule_password (params : Object) : matchRule true passwordRule (lit "tools/call")
    params passwordRule.matchMethods = .ok true := by
  have hpattern : matchPattern true (lit "tools/*") (lit "tools/call") = .ok true := by
    decide +kernel
  show (matchPattern true (lit "tools/*") (lit "tools/call") >>= _) = _
  rw [hpattern]
  rfl

/-- A call of a tool as an observation. -/
def observeCall (params : Bytes) (h : observable params = true) :
    Observation true passwordEngine where
  env := passwordEnv
  body := toolsCall params
  req := readCall params
  taskID := stringField (readCall params).params (lit "task_id")
  method := (readCall params).method
  action := .redact
  rule := passwordRule
  event := (intercepted params).submitted.getD {}
  extracted := by
    simp only [observable, Bool.and_eq_true, decide_eq_true_eq] at h
    obtain ⟨⟨⟨⟨⟨hpos, hlt⟩, hread⟩, hmethod⟩, hversion⟩, -⟩ := h
    refine (extractTaskMetadata_eq_ok true).mpr
      ⟨hpos, hlt, eq_some_getD hread {}, ?_, hversion, rfl, rfl⟩
    rw [hmethod]
    decide
  selected := by
    simp only [observable, Bool.and_eq_true, decide_eq_true_eq] at h
    rw [h.1.1.2, evaluatePolicy_eq true (by decide) (by decide)]
    exact selectRule_head true (by decide) (by decide) (matchRule_password _)
  submitted := by
    simp only [observable, Bool.and_eq_true] at h
    exact eq_some_getD h.2 {}

/-- The keys of a map. -/
def keysOf (o : Object) : Option (List Bytes) := o.map fun m => m.entries.map Prod.fst

theorem mem_keysOf {m : SortedMap Bytes Value} {k : Bytes} :
    (m.get? k).isSome = true ↔ k ∈ m.entries.map Prod.fst := by
  rw [Option.isSome_iff_exists, List.mem_map]
  constructor
  · rintro ⟨v, hv⟩
    exact ⟨(k, v), mem_of_mapGet hv, rfl⟩
  · rintro ⟨p, hp, rfl⟩
    exact ⟨p.2, mapGet_of_mem m.sorted hp⟩

/-- Maps with the same keys, all of them among `keys`. -/
theorem differOnlyIn_of_keysOf {keys ks : List Bytes} {o o' : Object} (h : keysOf o = some ks)
    (h' : keysOf o' = some ks) (hsub : ∀ k ∈ ks, k ∈ keys) : DifferOnlyIn keys o o' := by
  obtain ⟨m, rfl, hm⟩ := Option.map_eq_some_iff.mp h
  obtain ⟨m', rfl, hm'⟩ := Option.map_eq_some_iff.mp h'
  have hsome : ∀ k, (m.get? k).isSome = (m'.get? k).isSome := by
    intro k
    rw [Bool.eq_iff_iff, mem_keysOf, mem_keysOf, hm, hm']
  refine ⟨hsome, fun k hk => ?_⟩
  have hnone : (m.get? k).isSome ≠ true := by
    rw [ne_eq, mem_keysOf, hm]
    exact fun hmem => hk (hsub k hmem)
  have hnone' : (m'.get? k).isSome ≠ true := by
    rw [← hsome]
    exact hnone
  rw [Option.not_isSome_iff_eq_none.mp hnone, Option.not_isSome_iff_eq_none.mp hnone']

/-- The parameters name a user, and nothing else. -/
def namesUser : Object → Bool
  | some ⟨[(k, .string s)], _⟩ => k = lit "user" && s = lit "ann"
  | _ => false

theorem entries_of_namesUser {o : Object} (h : namesUser o = true) :
    ∃ m, o = some m ∧ m.entries = [(lit "user", .string (lit "ann"))] := by
  unfold namesUser at h
  split at h
  · rw [Bool.and_eq_true, decide_eq_true_eq, decide_eq_true_eq] at h
    obtain ⟨rfl, rfl⟩ := h
    exact ⟨_, rfl, rfl⟩
  · cases h

/-- A call without a password, written in two ways. -/
def userParams : Bytes := lit "\x7b\"user\":\"ann\"\x7d"

def spacedParams : Bytes := lit "\x7b \"user\" : \"ann\" \x7d"

/-- What is evaluated for two calls without a password, and two with one. -/
theorem calls_evaluated :
    (observable userParams = true ∧ observable spacedParams = true ∧
      namesUser (readCall userParams).params = true ∧
      namesUser (readCall spacedParams).params = true) ∧
    observable (lit "\x7b\"password\":\"hunter2\"\x7d") = true ∧
    observable (lit "\x7b\"password\":\"swordfish\"\x7d") = true ∧
    keysOf (readCall (lit "\x7b\"password\":\"hunter2\"\x7d")).params = some [lit "password"] ∧
    keysOf (readCall (lit "\x7b\"password\":\"swordfish\"\x7d")).params
      = some [lit "password"] := by
  decide +kernel

theorem observable_user : observable userParams = true := calls_evaluated.1.1

theorem observable_spaced : observable spacedParams = true := calls_evaluated.1.2.1

/-- Two calls with a parameter that the rule does not name. -/
theorem redaction_confined_user :
    (observeCall _ observable_user).Confined ∧ (observeCall _ observable_spaced).Confined ∧
      (observeCall _ observable_user).event.params
        = (observeCall _ observable_spaced).event.params ∧
      lookup (observeCall _ observable_user).event.params (lit "user")
        = some (.string (lit "ann")) := by
  obtain ⟨m, hm, hentries⟩ := entries_of_namesUser calls_evaluated.1.2.2.1
  obtain ⟨m', hm', hentries'⟩ := entries_of_namesUser calls_evaluated.1.2.2.2
  have hsame : m = m' := SortedMap.ext_entries (hentries.trans hentries'.symm)
  have hdiff : DifferOnlyIn passwordRule.redact (readCall userParams).params
      (readCall spacedParams).params := by
    rw [hm, hm', hsame]
    exact ⟨fun _ => rfl, fun _ _ => rfl⟩
  obtain ⟨huser, hspaced, hparams⟩ := (redaction_confined_iff (observeCall _ observable_user)
    (observeCall _ observable_spaced) rfl hdiff).mpr fun k hk => by
      show lookup (readCall userParams).params k = none
      rw [List.mem_singleton.mp hk, hm]
      show mapGet (lit "password") m.entries = none
      rw [hentries]
      rfl
  refine ⟨huser, hspaced, hparams, ?_⟩
  rw [(observeCall _ observable_user).event_params]
  show lookup (readCall userParams).params (lit "user") = _
  rw [hm]
  show mapGet (lit "user") m.entries = _
  rw [hentries]
  rfl

theorem observable_hunter2 : observable (lit "\x7b\"password\":\"hunter2\"\x7d") = true :=
  calls_evaluated.2.1

theorem observable_swordfish :
    observable (lit "\x7b\"password\":\"swordfish\"\x7d") = true :=
  calls_evaluated.2.2.1

theorem keysOf_hunter2 :
    keysOf (readCall (lit "\x7b\"password\":\"hunter2\"\x7d")).params
      = some [lit "password"] :=
  calls_evaluated.2.2.2.1

theorem keysOf_swordfish :
    keysOf (readCall (lit "\x7b\"password\":\"swordfish\"\x7d")).params
      = some [lit "password"] :=
  calls_evaluated.2.2.2.2

/-- A call that has the password is not confined. -/
theorem not_confined_of_keysOf {params : Bytes} {h : observable params = true}
    (hkeys : keysOf (readCall params).params = some [lit "password"]) :
    ¬ (observeCall params h).Confined := by
  rw [Observation.confined_iff]
  intro hnone
  obtain ⟨m, hm, hks⟩ := Option.map_eq_some_iff.mp hkeys
  have hsome : (m.get? (lit "password")).isSome = true := by
    rw [mem_keysOf, hks]
    exact List.mem_singleton_self _
  have hlookup : lookup (readCall params).params (lit "password") = none :=
    hnone _ (List.mem_singleton_self _)
  rw [hm] at hlookup
  rw [show m.get? (lit "password") = none from hlookup] at hsome
  cases hsome

/-- Two calls with different passwords. The same redacted body is forwarded for both, and each
password is in the column that is stored. -/
theorem redaction_leaks : ∃ a b : Observation true passwordEngine,
    a.rule = passwordRule ∧ b.rule = passwordRule ∧
    DifferOnlyIn passwordRule.redact a.req.params b.req.params ∧
    (interceptRequest true a.env passwordEngine ⟨true, some (.ok a.body)⟩).2.body
      = some (toolsCall (lit "\x7b\"password\":\"[REDACTED]\"\x7d")) ∧
    (interceptRequest true b.env passwordEngine ⟨true, some (.ok b.body)⟩).2.body
      = some (toolsCall (lit "\x7b\"password\":\"[REDACTED]\"\x7d")) ∧
    marshal a.event.params.value = some (lit "\x7b\"password\":\"hunter2\"\x7d") ∧
    marshal b.event.params.value = some (lit "\x7b\"password\":\"swordfish\"\x7d") ∧
    ¬ a.Confined ∧ ¬ b.Confined ∧ a.event.params ≠ b.event.params := by
  have ha : marshal (observeCall _ observable_hunter2).event.params.value
      = some (lit "\x7b\"password\":\"hunter2\"\x7d") := by
    decide +kernel
  have hb : marshal (observeCall _ observable_swordfish).event.params.value
      = some (lit "\x7b\"password\":\"swordfish\"\x7d") := by
    decide +kernel
  refine ⟨observeCall _ observable_hunter2, observeCall _ observable_swordfish, rfl, rfl,
    differOnlyIn_of_keysOf keysOf_hunter2 keysOf_swordfish (fun _ hk => hk), by decide +kernel,
    by decide +kernel, ha, hb, not_confined_of_keysOf keysOf_hunter2,
    not_confined_of_keysOf keysOf_swordfish, fun heq => ?_⟩
  rw [heq, hb] at ha
  exact absurd ha (by decide +kernel)

end Logryph
