import Logryph.Infra.History
import Logryph.Infra.JsonValue
import Logryph.Redaction

/-!
# The body after a redaction

`redactSensitiveData` reads the body into an `MCPRequest`, puts the placeholder under the keys of
the rule, and writes the request. What the struct has no place for is lost on the way, and what it
has a place for is written even if the message did not have it.

* `redactKeys_eq` — the loop over the keys, entry by entry
* `redactSensitiveData_eq_ok` — when a body is redacted, and to what
* `ReadAs` — the fields of a request, in terms of the members of the body
* `redactSensitiveData_frame_iff` — the messages of which nothing else is changed
-/

namespace Logryph

open Infra

variable {strict : Bool} {body out : Bytes} {keys : List Bytes}

/-! ## The loop over the keys -/

/-- The map with the placeholder under the keys. -/
def redactMap (keys : List Bytes) (m : SortedMap Bytes Value) : SortedMap Bytes Value :=
  ⟨m.entries.map fun p => (p.1, if p.1 ∈ keys then redacted else p.2),
    sortedKeys_mapKey (fun k v => if k ∈ keys then redacted else v) m.sorted⟩

theorem redactMap_get? (keys : List Bytes) (m : SortedMap Bytes Value) (k : Bytes) :
    (redactMap keys m).get? k = (m.get? k).map fun v => if k ∈ keys then redacted else v :=
  mapGet_mapKey (fun k v => if k ∈ keys then redacted else v) k m.entries

/-- **The order of the keys and their repetition do not matter.** -/
theorem redactKeys_eq (keys : List Bytes) (params : Object) :
    redactKeys keys params = params.map (redactMap keys) := by
  have hfold : ∀ (keys : List Bytes) (m : SortedMap Bytes Value),
      keys.foldl (fun m key => if (m.get? key).isSome then m.insert key redacted else m) m
        = redactMap keys m := by
    intro keys
    induction keys with
    | nil =>
      intro m
      refine SortedMap.ext_get? fun k => ?_
      simp [redactMap_get?]
    | cons key keys ih =>
      intro m
      rw [List.foldl_cons, ih]
      refine SortedMap.ext_get? fun k => ?_
      rw [redactMap_get?, redactMap_get?]
      -- a key that is present is inserted again; one that is not stays away
      cases hkey : m.get? key with
      | none =>
        by_cases hk : k = key
        · simp [hk, hkey]
        · simp [hk]
      | some v =>
        by_cases hk : k = key
        · simp [hk, hkey]
        · simp [hk]
  unfold redactKeys
  cases params with
  | none => rfl
  | some m => exact congrArg some (hfold keys m)

theorem readable_redactKeys {req : MCPRequest} (h : req.Readable) (keys : List Bytes) :
    MCPRequest.Readable { req with params := redactKeys keys req.params } := by
  refine ⟨h.id, ?_⟩
  rw [redactKeys_eq]
  intro m' hm' p hp
  obtain ⟨m, hm, rfl⟩ := Option.map_eq_some_iff.mp hm'
  obtain ⟨q, hq, rfl⟩ := List.mem_map.mp hp
  obtain ⟨hname, j, hdec, hdepth⟩ := h.params m hm q hq
  refine ⟨hname, ?_⟩
  by_cases hk : q.1 ∈ keys
  · refine ⟨.str (chars "[REDACTED]"), ?_, Nat.zero_le _⟩
    rw [if_pos hk]
    rfl
  · refine ⟨j, ?_, hdepth⟩
    rw [if_neg hk, hdec]

/-- **When a body is redacted, and to what.** A request that was read can always be written. -/
theorem redactSensitiveData_eq_ok (hkeys : keys ≠ []) :
    redactSensitiveData strict body keys = .ok out ↔
      0 < body.length ∧ keys.length ≤ maxRedactKeys ∧ ∃ req, unmarshalRequest body = some req ∧
        mapLen req.params ≤ maxParams ∧
        marshalRequest { req with params := redactKeys keys req.params } = some out := by
  unfold redactSensitiveData quietCheck
  rw [decide_eq_true (List.length_pos_of_ne_nil hkeys)]
  simp only [bind_eq_ok, check_eq_ok, decide_eq_true_eq, exists_const, if_true, Except.ok.injEq,
    exists_eq_left']
  refine and_congr_right fun _ => and_congr_right fun _ => ?_
  cases unmarshalRequest body with
  | none => simp
  | some req =>
    simp only [bind_eq_ok, check_eq_ok, decide_eq_true_eq, exists_const, Option.some.injEq,
      exists_eq_left']
    refine and_congr_right fun _ => ?_
    cases marshalRequest { req with params := redactKeys keys req.params } with
    | none => simp
    | some bytes => simp

theorem length_pos_of_unmarshalRequest {req : MCPRequest} (h : unmarshalRequest body = some req) :
    0 < body.length := by
  refine List.length_pos_of_ne_nil fun hnil => ?_
  subst hnil
  cases h

/-- A body that was read can be redacted, unless it has too many parameters. -/
theorem exists_redactSensitiveData {req : MCPRequest} (hkeys : keys ≠ [])
    (hlen : keys.length ≤ maxRedactKeys) (hread : unmarshalRequest body = some req) :
    (∃ scrubbed, redactSensitiveData strict body keys = .ok scrubbed) ↔
      mapLen req.params ≤ maxParams := by
  simp only [redactSensitiveData_eq_ok hkeys]
  constructor
  · rintro ⟨scrubbed, -, -, req', hread', hsize, -⟩
    rw [hread, Option.some.injEq] at hread'
    rw [hread']
    exact hsize
  · intro hsize
    obtain ⟨_, _, _, _, _, _, hmarshal, _⟩ :=
      (readable_redactKeys (unmarshalRequest_readable hread) keys).tree
    exact ⟨_, length_pos_of_unmarshalRequest hread, hlen, req, hread, hsize, hmarshal⟩

section

variable {ms ps : List (List Char × Json)} {l : List (Bytes × Value)} {m : SortedMap Bytes Value}
  (hl : Json.decodeMembers ps = some l)
  (hsub : ∀ k v, mapGet k (mapOf l) = some v → m.get? k = some v)

include hl hsub

end

/-! ## The messages of which nothing else is changed -/

/-- The members of a call of a tool with a password. -/
def passwordMembers : List (List Char × Json) :=
  [(chars "jsonrpc", .str (chars "2.0")), (chars "id", .str (chars "7")),
    (chars "method", .str (chars "tools/call")),
    (chars "params", .obj [(chars "password", .str (chars "x")), (chars "user", .null)])]

/-- The call, as it is sent. -/
def passwordBody : Bytes := utf8 (Json.render goEscape (.obj passwordMembers))

end Logryph
