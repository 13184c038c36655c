import Logryph.Infra.GoJsonRoundtrip

/-!
# Events and their hashed payload

`models.Event` with all its fields, and the map of fourteen fields that is hashed. The payload is
written out three times in the source (for the genesis event, for a processed event and for
verification), with the same fifteen lines each time; here it is one function of its fields.

`normalForm_payload` says what two payloads with the same normal form have in common: strings
agree up to the replacement of invalid UTF-8, the sequence number as `float64`, and the two maps
as JSON values.
-/

namespace Logryph

open Infra

/-- `models.Event`. Times are calendar times, and a nil map is `none`. -/
structure Event where
  id : Bytes := []
  runID : Bytes := []
  seqIndex : Nat := 0
  timestamp : Time := .zero
  actor : Bytes := []
  eventType : Bytes := []
  method : Bytes := []
  params : Object := none
  response : Object := none
  taskID : Bytes := []
  taskState : Bytes := []
  parentID : Bytes := []
  policyID : Bytes := []
  riskLevel : Bytes := []
  prevHash : Bytes := []
  currentHash : Bytes := []
  signature : Bytes := []
  wasBlocked : Bool := false

/-- The `prev_hash` of the first event of a run. -/
def zeroHash : Bytes := List.replicate 64 0x30

/-- The fourteen hashed fields, the timestamp as its text. A Go map has no order, so the members
stand in the order of their names. -/
def payload (id runID : Bytes) (seqIndex : Nat) (timestamp actor eventType method : Bytes)
    (params response : Object) (taskID taskState parentID policyID riskLevel : Bytes) : Value :=
  .map [
    (lit "actor", .string actor),
    (lit "event_type", .string eventType),
    (lit "id", .string id),
    (lit "method", .string method),
    (lit "params", params.value),
    (lit "parent_id", .string parentID),
    (lit "policy_id", .string policyID),
    (lit "response", response.value),
    (lit "risk_level", .string riskLevel),
    (lit "run_id", .string runID),
    (lit "seq_index", .uint64 seqIndex),
    (lit "task_id", .string taskID),
    (lit "task_state", .string taskState),
    (lit "timestamp", .string timestamp)]

/-- `Timestamp.Format(time.RFC3339Nano)`. -/
def Event.timestampText (e : Event) : Bytes := utf8 e.timestamp.format

def Event.payload (e : Event) : Value :=
  Logryph.payload e.id e.runID e.seqIndex e.timestampText e.actor e.eventType e.method e.params
    e.response e.taskID e.taskState e.parentID e.policyID e.riskLevel

/-! ## Normal form -/

theorem readsAs_string {s : Bytes} {w : Value} :
    ReadsAs (.string s) w ↔ w = .string (sanitize s) := by
  constructor
  · rintro ⟨j, hj, hdec, -⟩
    cases hj
    cases hdec
    rfl
  · rintro rfl
    exact ⟨.str (runes s), rfl, rfl, show 0 < maxDepth by decide⟩

theorem readsAs_uint64 {n : Nat} {w : Value} :
    ReadsAs (.uint64 n) w ↔ ∃ x, Float64.ofRat? n = some x ∧ w = .float64 x := by
  constructor
  · rintro ⟨j, hj, hdec, -⟩
    cases hj
    rw [Json.decode, Decimal.toRat_ofNat, Option.map_eq_some_iff] at hdec
    obtain ⟨x, hx, rfl⟩ := hdec
    exact ⟨x, hx, rfl⟩
  · rintro ⟨x, hx, rfl⟩
    refine ⟨.num (Decimal.ofNat n), rfl, ?_, show 0 < maxDepth by decide⟩
    rw [Json.decode, Decimal.toRat_ofNat, hx]
    rfl

theorem reads_string (s : Bytes) : Reads (.string s) (.string (sanitize s)) :=
  (readsAs_string.mpr rfl).reads

theorem reads_uint64 {n : Nat} {w : Value} :
    Reads (.uint64 n) w ↔ ∃ x, Float64.ofRat? n = some x ∧ w = .float64 x := by
  have hplain : ∀ {x}, Float64.ofRat? n = some x → (Value.float64 x).plainZeros = .float64 x := by
    intro x hx
    rw [Value.plainZeros, Float64.plainZero_of_ofRat? (Nat.cast_nonneg n) hx]
  constructor
  · rintro ⟨u, hu, rfl⟩
    obtain ⟨x, hx, rfl⟩ := readsAs_uint64.mp hu
    exact ⟨x, hx, hplain hx⟩
  · rintro ⟨x, hx, rfl⟩
    exact ⟨.float64 x, readsAs_uint64.mpr ⟨x, hx, rfl⟩, hplain hx⟩

/-- The payload after normalisation. -/
def normalPayload (id runID : Bytes) (seqIndex : Float64)
    (timestamp actor eventType method : Bytes) (params response : Value)
    (taskID taskState parentID policyID riskLevel : Bytes) : Value :=
  .map [
    (lit "actor", .string (sanitize actor)),
    (lit "event_type", .string (sanitize eventType)),
    (lit "id", .string (sanitize id)),
    (lit "method", .string (sanitize method)),
    (lit "params", params),
    (lit "parent_id", .string (sanitize parentID)),
    (lit "policy_id", .string (sanitize policyID)),
    (lit "response", response),
    (lit "risk_level", .string (sanitize riskLevel)),
    (lit "run_id", .string (sanitize runID)),
    (lit "seq_index", .float64 seqIndex),
    (lit "task_id", .string (sanitize taskID)),
    (lit "task_state", .string (sanitize taskState)),
    (lit "timestamp", .string (sanitize timestamp))]

/-- The names of the fields. -/
def payloadKeys : List Bytes :=
  [lit "actor", lit "event_type", lit "id", lit "method", lit "params", lit "parent_id",
    lit "policy_id", lit "response", lit "risk_level", lit "run_id", lit "seq_index",
    lit "task_id", lit "task_state", lit "timestamp"]

theorem payloadKeys_sorted : payloadKeys.Pairwise (· < ·) := by decide +kernel

theorem payloadKeys_valid : ∀ k ∈ payloadKeys, ValidUtf8 k := by decide +kernel

theorem normalForm_members {ms : List (Bytes × Value)} (h : ms.map Prod.fst = payloadKeys)
    {w : Value} : normalForm (.map ms) = some w ↔
      ∃ ws, w = .map ws ∧ List.Forall₂ (fun m p => m.1 = p.1 ∧ Reads m.2 p.2) ms ws := by
  refine normalForm_map (sortedKeys_iff_keys.mpr ?_) fun m hm => payloadKeys_valid m.1 ?_
  · rw [h]
    exact payloadKeys_sorted
  · rw [← h]
    exact List.mem_map_of_mem hm

section

variable {id runID : Bytes} {seqIndex : Nat} {timestamp actor eventType method : Bytes}
  {params response : Object} {taskID taskState parentID policyID riskLevel : Bytes}

theorem normalForm_payload_of {x : Float64} {p r : Value} (hx : Float64.ofRat? seqIndex = some x)
    (hp : Reads params.value p) (hr : Reads response.value r) :
    normalForm (payload id runID seqIndex timestamp actor eventType method params response taskID
        taskState parentID policyID riskLevel)
      = some (normalPayload id runID x timestamp actor eventType method p r taskID taskState
          parentID policyID riskLevel) := by
  have hs : ∀ s, Reads (.string s) (.string (sanitize s)) := reads_string
  have hn : Reads (.uint64 seqIndex) (.float64 x) := reads_uint64.mpr ⟨x, hx, rfl⟩
  exact (normalForm_members rfl).mpr ⟨_, rfl,
    .cons ⟨rfl, hs _⟩ (.cons ⟨rfl, hs _⟩ (.cons ⟨rfl, hs _⟩ (.cons ⟨rfl, hs _⟩ (.cons ⟨rfl, hp⟩
      (.cons ⟨rfl, hs _⟩ (.cons ⟨rfl, hs _⟩ (.cons ⟨rfl, hr⟩ (.cons ⟨rfl, hs _⟩ (.cons ⟨rfl, hs _⟩
        (.cons ⟨rfl, hn⟩ (.cons ⟨rfl, hs _⟩ (.cons ⟨rfl, hs _⟩
          (.cons ⟨rfl, hs _⟩ .nil)))))))))))))⟩

/-- **The payload is normalised field by field.** -/
theorem normalForm_payload {w : Value} :
    normalForm (payload id runID seqIndex timestamp actor eventType method params response taskID
        taskState parentID policyID riskLevel) = some w ↔
      ∃ x p r, Float64.ofRat? seqIndex = some x ∧ Reads params.value p ∧ Reads response.value r ∧
        w = normalPayload id runID x timestamp actor eventType method p r taskID taskState parentID
          policyID riskLevel := by
  constructor
  · intro h
    obtain ⟨ws, -, hws⟩ := (normalForm_members rfl).mp h
    -- each member of the payload is read as something
    have hmem : ∀ i k v, _[i]? = some (k, v) → ∃ w, Reads v w := fun i k v hi =>
      have ⟨p, _, _, hp⟩ := mem_of_forall₂_right hws.flip (List.mem_of_getElem? hi)
      ⟨p.2, hp⟩
    obtain ⟨p, hp⟩ := hmem 4 _ _ rfl
    obtain ⟨r, hr⟩ := hmem 7 _ _ rfl
    obtain ⟨s, hs⟩ := hmem 10 _ _ rfl
    obtain ⟨x, hx, -⟩ := reads_uint64.mp hs
    exact ⟨x, p, r, hx, hp, hr,
      Option.some.inj (h.symm.trans (normalForm_payload_of hx hp hr))⟩
  · rintro ⟨x, p, r, hx, hp, hr, rfl⟩
    exact normalForm_payload_of hx hp hr

end

end Logryph
