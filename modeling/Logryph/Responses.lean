import Logryph.WorkerOk

/-!
# What is recorded of a response

`InterceptResponse` copies the result of a response to its event, with the task and the state that
it finds there. The error of a response is read, and then left.

* `ToldApart` — two events differ in a field that is hashed and stored
* `ToldApart.hashInput_ne`, `ToldApart.row_ne` — so what is hashed for them differs, and the rows
* `responses_told_apart_iff` — the responses whose events differ are those with different results
* `errors_alike` — two kinds of failure leave the same event
-/

namespace Logryph

open Infra

/-! ## Events that differ -/

/-- The fields that are hashed. Each of them is a column, too. -/
def Event.members (e : Event) : List (Bytes × Value) :=
  match e.payload with
  | .map ms => ms
  | _ => []

theorem Event.payload_eq_members (e : Event) : e.payload = .map e.members := rfl

theorem Event.members_keys (e : Event) : e.members.map Prod.fst = payloadKeys := rfl

/-- A field of the two events is recorded as two different JSON values. -/
def ToldApart (e e' : Event) : Prop :=
  ∃ key v v' w w', (key, v) ∈ e.members ∧ (key, v') ∈ e'.members ∧ Reads v w ∧ Reads v' w' ∧ w ≠ w'

/-- No field is there twice. -/
theorem eq_of_keys {ms : List (Bytes × Value)} (hkeys : ms.map Prod.fst = payloadKeys) {key : Bytes}
    {v v' : Value} (h : (key, v) ∈ ms) (h' : (key, v') ∈ ms) : v = v' := by
  have hsorted : SortedKeys ms := sortedKeys_iff_keys.mpr (hkeys ▸ payloadKeys_sorted)
  exact Option.some.inj ((mapGet_of_mem hsorted h).symm.trans (mapGet_of_mem hsorted h'))

/-- The normal form has the same fields, each as it is read. -/
theorem members_of_normalForm {e : Event} {w : Value} (h : normalForm e.payload = some w) :
    ∃ ws, w = .map ws ∧ ws.map Prod.fst = payloadKeys ∧
      ∀ key v x, (key, v) ∈ e.members → Reads v x → (key, x) ∈ ws := by
  rw [e.payload_eq_members, normalForm_members e.members_keys] at h
  obtain ⟨ws, rfl, hall⟩ := h
  refine ⟨ws, rfl, ?_, fun key v x hmem hread => ?_⟩
  · have hsame : List.Forall₂ Eq (e.members.map Prod.fst) (ws.map Prod.fst) := by
      rw [List.forall₂_map_left_iff, List.forall₂_map_right_iff]
      exact hall.imp fun _ _ h => h.1
    rw [List.forall₂_eq_eq_eq] at hsame
    exact hsame.symm
  · obtain ⟨⟨key', x'⟩, hmem', hkey, hread'⟩ := mem_of_forall₂_right hall.flip hmem
    cases hkey
    rw [hread.unique hread']
    exact hmem'

section

variable {e e' : Event}

theorem ToldApart.normalForm_ne (h : ToldApart e e') {w : Value}
    (hw : normalForm e.payload = some w) : normalForm e'.payload ≠ some w := by
  intro hw'
  obtain ⟨key, v, v', x, x', hmem, hmem', hread, hread', hne⟩ := h
  obtain ⟨ws, rfl, hkeys, hall⟩ := members_of_normalForm hw
  obtain ⟨ws', hws, -, hall'⟩ := members_of_normalForm hw'
  cases hws
  -- both values would be the one of the key in the common normal form
  exact hne (eq_of_keys hkeys (hall key v x hmem hread) (hall' key v' x' hmem' hread'))

/-- **What is hashed for them differs**, wherever they are linked. -/
theorem ToldApart.hashInput_ne (h : ToldApart e e') {prevHash prevHash' x x' : Bytes}
    (hx : hashInput prevHash e.payload = some x) (hx' : hashInput prevHash' e'.payload = some x') :
    x ≠ x' := by
  rintro rfl
  obtain ⟨-, w, hw, hw'⟩ := hashInput_injective hx hx'
  exact h.normalForm_ne hw hw'

/-- **Their rows differ**, if they can be hashed. -/
theorem ToldApart.row_ne (h : ToldApart e e') {prevHash prevHash' x x' : Bytes}
    {row row' : EventRow}
    (hx : hashInput prevHash e.payload = some x) (hx' : hashInput prevHash' e'.payload = some x')
    (henc : encodeEvent e = .ok row) (henc' : encodeEvent e' = .ok row') : row ≠ row' := by
  rintro rfl
  obtain ⟨w, hw⟩ := exists_normalForm hx
  obtain ⟨w', hw'⟩ := exists_normalForm hx'
  have hsame := (normalForm_rowPayload henc hw).symm.trans (normalForm_rowPayload henc' hw')
  cases hsame
  exact h.normalForm_ne hw hw'

theorem not_toldApart_self (e : Event) : ¬ ToldApart e e := by
  rintro ⟨key, v, v', w, w', hmem, hmem', hread, hread', hne⟩
  cases eq_of_keys e.members_keys hmem hmem'
  exact hne (hread.unique hread')

end

/-! ## Responses -/

theorem plainZeros_eq_string {v : Value} {s : Bytes} :
    v.plainZeros = .string s ↔ v = .string s := by
  cases v <;> simp [Value.plainZeros]

theorem stringField_of_string {m : SortedMap Bytes Value} {key s : Bytes}
    (h : m.get? key = some (.string s)) : stringField (some m) key = s := by
  simp [stringField, h]

theorem stringField_of_ne {m : SortedMap Bytes Value} {key : Bytes}
    (h : ∀ s, m.get? key ≠ some (.string s)) : stringField (some m) key = [] := by
  unfold stringField
  dsimp only
  split
  · next s hs => exact absurd hs (h s)
  · rfl

/-- The string under a key does not depend on the sign of zeros. -/
theorem stringField_congr {o o' : Object} (h : o.value.plainZeros = o'.value.plainZeros)
    (key : Bytes) : stringField o key = stringField o' key := by
  cases o with
  | none =>
    cases o' with
    | none => rfl
    | some m' => cases h
  | some m =>
    cases o' with
    | none => cases h
    | some m' =>
      have hget : ∀ m : SortedMap Bytes Value, (m.get? key).map Value.plainZeros =
          mapGet key (Value.plainZerosMembers m.entries) := by
        intro m
        rw [Value.plainZerosMembers_eq, mapGet_mapKey (fun _ => Value.plainZeros)]
        rfl
      have hplain : ∀ (o : Option Value) s, o = some (.string s) ↔
          o.map Value.plainZeros = some (.string s) := by
        intro o s
        cases o <;> simp [plainZeros_eq_string]
      have hsame : ∀ s, m.get? key = some (.string s) ↔ m'.get? key = some (.string s) := by
        intro s
        rw [hplain, hplain (m'.get? key), hget, hget, Value.map.inj h]
      by_cases hs : ∃ s, m.get? key = some (.string s)
      · obtain ⟨s, hs⟩ := hs
        rw [stringField_of_string hs, stringField_of_string ((hsame s).mp hs)]
      · rw [stringField_of_ne fun s h => hs ⟨s, h⟩,
          stringField_of_ne fun s h => hs ⟨s, (hsame s).mpr h⟩]

/-- Events that differ in their responses alone are not told apart if these differ in the sign of
zeros alone. -/
theorem not_toldApart_response (e : Event) {o : Object}
    (he : ReadsAs e.response.value e.response.value) (ho : ReadsAs o.value o.value)
    (heq : e.response.value.plainZeros = o.value.plainZeros) :
    ¬ ToldApart e { e with response := o } := by
  have hset : ({ e with response := o } : Event).members =
      e.members.set 7 (lit "response", o.value) := rfl
  rintro ⟨key, v, v', w, w', hmem, hmem', hread, hread', hne⟩
  rcases List.mem_or_eq_of_mem_set (hset ▸ hmem') with hold | hnew
  · cases eq_of_keys e.members_keys hmem hold
    exact hne (hread.unique hread')
  · cases hnew
    have hresp : (lit "response", e.response.value) ∈ e.members := List.mem_of_getElem? (i := 7) rfl
    cases eq_of_keys e.members_keys hmem hresp
    rw [hread.unique he.reads, hread'.unique ho.reads] at hne
    exact hne heq

/-- With a healthy worker, a response that can be read is submitted. -/
theorem interceptResponse_healthy {strict : Bool} {env : MessageEnv} {eng : Engine} {body : Bytes}
    {resp : MCPResponse} (hresp : unmarshalResponse body = some resp)
    (hhealthy : eng.worker.isHealthy = true) :
    (interceptResponse strict env eng body).2.submitted = some
      (toolResponseEvent env resp (getEvent env.pick eng.worker.state.pool).1) := by
  rw [interceptResponse, hresp]
  dsimp only
  rw [if_pos hhealthy]
  rfl

/-- **The responses that can be told apart.** Two responses that are recorded at the same place
leave events that differ in a hashed and stored field exactly if their results differ as JSON
values, for which `-0` is `0`. -/
theorem responses_told_apart_iff {strict : Bool} {env : MessageEnv} {eng : Engine}
    {body body' : Bytes} {resp resp' : MCPResponse} (hresp : unmarshalResponse body = some resp)
    (hresp' : unmarshalResponse body' = some resp') (hhealthy : eng.worker.isHealthy = true) :
    ∃ e e', (interceptResponse strict env eng body).2.submitted = some e ∧
      (interceptResponse strict env eng body').2.submitted = some e' ∧
      (ToldApart e e' ↔ resp.result.value.plainZeros ≠ resp'.result.value.plainZeros) := by
  refine ⟨_, _, interceptResponse_healthy hresp hhealthy, interceptResponse_healthy hresp' hhealthy,
    fun h hsame => ?_, fun hne => ?_⟩
  · -- the events have nothing but the result from the response
    refine not_toldApart_response
      (toolResponseEvent env resp (getEvent env.pick eng.worker.state.pool).1)
      (readsAs_of_shallow (unmarshalResponse_shallow hresp).1)
      (readsAs_of_shallow (unmarshalResponse_shallow hresp').1) hsame ?_
    rw [toolResponseEvent.eq_def env resp', ← stringField_congr hsame, ← stringField_congr hsame]
      at h
    exact h
  · refine ⟨lit "response", resp.result.value, resp'.result.value, _, _, ?_, ?_,
      (readsAs_of_shallow (unmarshalResponse_shallow hresp).1).reads,
      (readsAs_of_shallow (unmarshalResponse_shallow hresp').1).reads, hne⟩
    · exact List.mem_of_getElem? (i := 7) rfl
    · exact List.mem_of_getElem? (i := 7) rfl

/-- A response with a result. -/
def resultBody (result : String) : Bytes :=
  lit "\x7b\"jsonrpc\":\"2.0\",\"id\":1,\"result\":" ++ lit result ++ lit "\x7d"

/-- A response with an error. -/
def errorBody (error : String) : Bytes :=
  lit "\x7b\"jsonrpc\":\"2.0\",\"id\":1,\"error\":" ++ lit error ++ lit "\x7d"

def responseEnv : MessageEnv where
  id := lit "evt-1"
  now := recordedEnv.now

/-- The results of the responses below. -/
theorem results_evaluated :
    (unmarshalResponse (resultBody "\x7b\"ok\":true\x7d")).bind
      (fun resp => canonical resp.result.value) = some (lit "\x7b\"ok\":true\x7d") ∧
    (unmarshalResponse (resultBody "\x7b\"ok\":false\x7d")).bind
      (fun resp => canonical resp.result.value) = some (lit "\x7b\"ok\":false\x7d") := by
  decide +kernel

/-- Success and failure are told apart, if both are results. -/
theorem results_told_apart : ∃ e e',
    (interceptResponse true responseEnv plainEngine
      (resultBody "\x7b\"ok\":true\x7d")).2.submitted = some e ∧
    (interceptResponse true responseEnv plainEngine
      (resultBody "\x7b\"ok\":false\x7d")).2.submitted = some e' ∧ ToldApart e e' := by
  obtain ⟨resp, hresp, htext⟩ := Option.bind_eq_some_iff.mp results_evaluated.1
  obtain ⟨resp', hresp', htext'⟩ := Option.bind_eq_some_iff.mp results_evaluated.2
  have hhealthy : plainEngine.worker.isHealthy = true := rfl
  obtain ⟨e, e', he, he', hiff⟩ :=
    @responses_told_apart_iff true responseEnv plainEngine _ _ _ _ hresp hresp' hhealthy
  refine ⟨e, e', he, he', hiff.mpr fun hsame => ?_⟩
  rw [← canonical_plainZeros, hsame, canonical_plainZeros] at htext
  exact absurd (htext.symm.trans htext') (by decide)

/-- The errors of the responses below, which have no result. -/
theorem errors_evaluated :
    ((unmarshalResponse (errorBody "\x7b\"code\":-32601\x7d")).map
      (fun resp => (resp.result.isNone, marshal resp.error.value))
        = some (true, some (lit "\x7b\"code\":-32601\x7d"))) ∧
    (unmarshalResponse (errorBody "\x7b\"code\":-32000\x7d")).map
      (fun resp => (resp.result.isNone, marshal resp.error.value))
        = some (true, some (lit "\x7b\"code\":-32000\x7d")) := by
  decide +kernel

/-- **Two kinds of failure leave the same event.** -/
theorem errors_alike : ∃ resp resp' e,
    unmarshalResponse (errorBody "\x7b\"code\":-32601\x7d") = some resp ∧
    unmarshalResponse (errorBody "\x7b\"code\":-32000\x7d") = some resp' ∧
    resp.error ≠ resp'.error ∧
    (interceptResponse true responseEnv plainEngine
      (errorBody "\x7b\"code\":-32601\x7d")).2.submitted = some e ∧
    (interceptResponse true responseEnv plainEngine
      (errorBody "\x7b\"code\":-32000\x7d")).2.submitted = some e ∧ ¬ ToldApart e e := by
  obtain ⟨resp, hresp, hvalues⟩ := Option.map_eq_some_iff.mp errors_evaluated.1
  obtain ⟨resp', hresp', hvalues'⟩ := Option.map_eq_some_iff.mp errors_evaluated.2
  obtain ⟨hnone, htext⟩ := Prod.mk.inj hvalues
  obtain ⟨hnone', htext'⟩ := Prod.mk.inj hvalues'
  have hhealthy : plainEngine.worker.isHealthy = true := rfl
  have hresult : resp.result = resp'.result :=
    (Option.isNone_iff_eq_none.mp hnone).trans (Option.isNone_iff_eq_none.mp hnone').symm
  refine ⟨resp, resp', _, hresp, hresp', fun hsame => ?_, interceptResponse_healthy hresp hhealthy,
    ?_, not_toldApart_self _⟩
  · rw [hsame] at htext
    exact absurd (htext.symm.trans htext') (by decide)
  · rw [interceptResponse_healthy hresp' hhealthy, toolResponseEvent, toolResponseEvent, hresult]

end Logryph
