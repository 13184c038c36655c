import Logryph.Infra.GoStruct

/-!
# MCP messages

`mcp.MCPRequest` and `mcp.MCPResponse`, as `encoding/json` reads and writes them.

* `unmarshalRequest_shallow`, `unmarshalResponse_shallow` — the maps of a message that was read can
  be written and read again
* `MCPRequest.Readable.tree` — and so can a whole request
-/

namespace Logryph

open Infra

/-- `mcp.MCPRequest`. -/
structure MCPRequest where
  jsonrpc : Bytes := []
  id : Value := .nil
  method : Bytes := []
  params : Object := none

/-- `mcp.MCPResponse`. -/
structure MCPResponse where
  jsonrpc : Bytes := []
  id : Value := .nil
  result : Object := none
  error : Object := none

namespace MCPRequest

/-- Assigns a member to the field of its name. -/
def set (name : Bytes) (x : Json) (r : MCPRequest) : Option MCPRequest :=
  if name = lit "jsonrpc" then (x.intoString r.jsonrpc).map fun jsonrpc => { r with jsonrpc }
  else if name = lit "id" then x.decode.map fun id => { r with id }
  else if name = lit "method" then (x.intoString r.method).map fun method => { r with method }
  else if name = lit "params" then (x.intoMap r.params).map fun params => { r with params }
  else some r

/-- The JSON of a request, in the order of the fields. -/
def tree (r : MCPRequest) : Option Json :=
  match r.id.tree, r.params.value.tree with
  | some id, some params =>
    some (.obj [(['j', 's', 'o', 'n', 'r', 'p', 'c'], .str (runes r.jsonrpc)),
      (['i', 'd'], id), (['m', 'e', 't', 'h', 'o', 'd'], .str (runes r.method)),
      (['p', 'a', 'r', 'a', 'm', 's'], params)])
  | _, _ => none

end MCPRequest

/-- Assigns a member to the field of its name. -/
def MCPResponse.set (name : Bytes) (x : Json) (r : MCPResponse) : Option MCPResponse :=
  if name = lit "jsonrpc" then (x.intoString r.jsonrpc).map fun jsonrpc => { r with jsonrpc }
  else if name = lit "id" then x.decode.map fun id => { r with id }
  else if name = lit "result" then (x.intoMap r.result).map fun result => { r with result }
  else if name = lit "error" then (x.intoMap r.error).map fun error => { r with error }
  else some r

/-- `json.Unmarshal` into an `MCPRequest`. -/
def unmarshalRequest (body : Bytes) : Option MCPRequest := unmarshalStruct MCPRequest.set {} body

/-- `json.Unmarshal` into an `MCPResponse`. -/
def unmarshalResponse (body : Bytes) : Option MCPResponse :=
  unmarshalStruct MCPResponse.set {} body

/-- `json.Marshal` of an `MCPRequest`. -/
def marshalRequest (r : MCPRequest) : Option Bytes :=
  r.tree.map fun j => utf8 (Json.render goEscape j)

/-! ## The maps of a message -/

/-- What an assignment does, by the name of the member. -/
theorem MCPRequest.set_cases {name : Bytes} {x : Json} {r r' : MCPRequest}
    (h : r.set name x = some r') :
    (∃ jsonrpc, name = lit "jsonrpc" ∧ x.intoString r.jsonrpc = some jsonrpc ∧
      r' = { r with jsonrpc }) ∨
    (∃ id, name = lit "id" ∧ x.decode = some id ∧ r' = { r with id }) ∨
    (∃ method, name = lit "method" ∧ x.intoString r.method = some method ∧
      r' = { r with method }) ∨
    (∃ params, name = lit "params" ∧ x.intoMap r.params = some params ∧
      r' = { r with params }) ∨
    name ∉ [lit "jsonrpc", lit "id", lit "method", lit "params"] ∧ r' = r := by
  unfold MCPRequest.set at h
  by_cases hj : name = lit "jsonrpc"
  · rw [if_pos hj, Option.map_eq_some_iff] at h
    obtain ⟨jsonrpc, hx, rfl⟩ := h
    exact Or.inl ⟨jsonrpc, hj, hx, rfl⟩
  rw [if_neg hj] at h
  by_cases hi : name = lit "id"
  · rw [if_pos hi, Option.map_eq_some_iff] at h
    obtain ⟨id, hx, rfl⟩ := h
    exact Or.inr (Or.inl ⟨id, hi, hx, rfl⟩)
  rw [if_neg hi] at h
  by_cases hm : name = lit "method"
  · rw [if_pos hm, Option.map_eq_some_iff] at h
    obtain ⟨method, hx, rfl⟩ := h
    exact Or.inr (Or.inr (Or.inl ⟨method, hm, hx, rfl⟩))
  rw [if_neg hm] at h
  by_cases hp : name = lit "params"
  · rw [if_pos hp, Option.map_eq_some_iff] at h
    obtain ⟨params, hx, rfl⟩ := h
    exact Or.inr (Or.inr (Or.inr (Or.inl ⟨params, hp, hx, rfl⟩)))
  rw [if_neg hp, Option.some.injEq] at h
  exact Or.inr (Or.inr (Or.inr (Or.inr ⟨by simp [hj, hi, hm, hp], h.symm⟩)))

theorem MCPRequest.shallow_set {n : Nat} {name : Bytes} {x : Json} {r r' : MCPRequest}
    (h : r.set name x = some r') (hdepth : x.depth ≤ n + 1) (hr : r.params.Shallow n) :
    r'.params.Shallow n := by
  rcases MCPRequest.set_cases h with ⟨_, -, -, rfl⟩ | ⟨_, -, -, rfl⟩ | ⟨_, -, -, rfl⟩ |
    ⟨params, -, hparams, rfl⟩ | ⟨-, rfl⟩
  · exact hr
  · exact hr
  · exact hr
  · exact Object.shallow_intoMap hparams hdepth hr
  · exact hr

theorem MCPResponse.shallow_set {n : Nat} {name : Bytes} {x : Json} {r r' : MCPResponse}
    (h : r.set name x = some r') (hdepth : x.depth ≤ n + 1)
    (hr : r.result.Shallow n ∧ r.error.Shallow n) : r'.result.Shallow n ∧ r'.error.Shallow n := by
  unfold MCPResponse.set at h
  split at h
  · obtain ⟨_, -, rfl⟩ := Option.map_eq_some_iff.mp h
    exact hr
  · split at h
    · obtain ⟨_, -, rfl⟩ := Option.map_eq_some_iff.mp h
      exact hr
    · split at h
      · obtain ⟨result, hresult, rfl⟩ := Option.map_eq_some_iff.mp h
        exact ⟨Object.shallow_intoMap hresult hdepth hr.1, hr.2⟩
      · split at h
        · obtain ⟨error, herror, rfl⟩ := Option.map_eq_some_iff.mp h
          exact ⟨hr.1, Object.shallow_intoMap herror hdepth hr.2⟩
        · cases h
          exact hr

/-- The deepest nesting of a value in the map of a message. -/
def maxMapDepth : Nat := maxDepth - 2

theorem unmarshalRequest_shallow {body : Bytes} {r : MCPRequest}
    (h : unmarshalRequest body = some r) : r.params.Shallow maxMapDepth := by
  refine unmarshalStruct_inv (P := fun r => r.params.Shallow maxMapDepth) h
    (fun name x r r' hdepth hr hset => MCPRequest.shallow_set hset ?_ hr) (Object.shallow_none _)
  rw [maxMapDepth]
  omega

theorem unmarshalResponse_shallow {body : Bytes} {r : MCPResponse}
    (h : unmarshalResponse body = some r) :
    r.result.Shallow maxMapDepth ∧ r.error.Shallow maxMapDepth := by
  refine unmarshalStruct_inv
    (P := fun r => r.result.Shallow maxMapDepth ∧ r.error.Shallow maxMapDepth) h
    (fun name x r r' hdepth hr hset => MCPResponse.shallow_set hset ?_ hr)
    ⟨Object.shallow_none _, Object.shallow_none _⟩
  rw [maxMapDepth]
  omega

/-- **The map of a message is written and read back as itself.** -/
theorem readsAs_of_shallow {o : Object} (h : o.Shallow maxMapDepth) : ReadsAs o.value o.value :=
  h.readsAs (show maxMapDepth + 1 < maxDepth by decide)

/-! ## Writing a request that was read -/

/-- The characters of a name. -/
def chars (s : String) : List Char := s.toList

/-- What a request that was read holds: an id and parameters that were read. -/
structure MCPRequest.Readable (r : MCPRequest) : Prop where
  id : ∃ x : Json, x.decode = some r.id ∧ x.depth < maxDepth
  params : r.params.Shallow maxMapDepth

theorem unmarshalRequest_readable {body : Bytes} {r : MCPRequest}
    (h : unmarshalRequest body = some r) : r.Readable := by
  refine ⟨?_, unmarshalRequest_shallow h⟩
  refine unmarshalStruct_inv (P := fun r => ∃ x : Json, x.decode = some r.id ∧ x.depth < maxDepth)
    h (fun name x r r' hdepth hr hset => ?_) ⟨.null, rfl, show 0 < maxDepth by decide⟩
  rcases MCPRequest.set_cases hset with ⟨_, -, -, rfl⟩ | ⟨id, -, hid, rfl⟩ | ⟨_, -, -, rfl⟩ |
    ⟨_, -, -, rfl⟩ | ⟨-, rfl⟩
  · exact hr
  · exact ⟨x, hid, hdepth⟩
  · exact hr
  · exact hr
  · exact hr

/-- **A request that was read can be written**, and what is written can be read. -/
theorem MCPRequest.Readable.tree {r : MCPRequest} (h : r.Readable) : ∃ id params j,
    r.id.tree = some id ∧ r.params.value.tree = some params ∧
      j = .obj [(chars "jsonrpc", .str (runes r.jsonrpc)), (chars "id", id),
        (chars "method", .str (runes r.method)), (chars "params", params)] ∧
      marshalRequest r = some (utf8 (Json.render goEscape j)) ∧
      readText (utf8 (Json.render goEscape j)) = some j := by
  obtain ⟨x, hid, hlt⟩ := h.id
  obtain ⟨id, hidTree, -, hle⟩ := tree_of_decode x r.id hid
  obtain ⟨params, hparams, -, hdepth⟩ := readsAs_of_shallow h.params
  refine ⟨id, params, _, hidTree, hparams, rfl, ?_, ?_⟩
  · rw [marshalRequest, MCPRequest.tree, hidTree, hparams]
    rfl
  · rw [readText_render, if_pos]
    simp only [Json.depth, Json.depthMembers]
    omega

end Logryph
