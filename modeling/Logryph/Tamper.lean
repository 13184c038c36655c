import Logryph.AuditRun
import Logryph.Infra.JsonValue
import Logryph.Start
import Logryph.Verdict

/-!
# Tampering with the store

What the verifier notices when rows are changed behind the back of the program. It sees a row only
as the event that it is read as, and only the first `maxEventRows` of them.

* `tamper_detected_iff` — a changed `params` or `response` column is noticed if one of the two
  texts is a JSON object that can be read, and their values differ after rounding; all other texts
  are read as the nil map
* `deleteFirst_detected_iff` — deleting the first rows of a run is noticed only by what comes into
  the window of the reader; nothing ties the first event to the genesis of the run
* `covers_iff` — a run is verified as a whole up to `maxEventRows` rows
-/

namespace Logryph

open Infra

variable (c : Crypto) (strict : Bool)

/-! ## Changing a column -/

/-- The columns that hold JSON. -/
inductive Column where
  | params
  | response
  deriving DecidableEq

namespace EventRow

def column (row : EventRow) : Column → Bytes
  | .params => row.params
  | .response => row.response

def setColumn (row : EventRow) (col : Column) (text : Bytes) : EventRow :=
  match col with
  | .params => { row with params := text }
  | .response => { row with response := text }

variable (row : EventRow) (col : Column) (text : Bytes)

@[simp] theorem setColumn_id : (row.setColumn col text).id = row.id := by cases col <;> rfl

@[simp] theorem setColumn_runID : (row.setColumn col text).runID = row.runID := by
  cases col <;> rfl

@[simp] theorem setColumn_seqIndex : (row.setColumn col text).seqIndex = row.seqIndex := by
  cases col <;> rfl

@[simp] theorem setColumn_prevHash : (row.setColumn col text).prevHash = row.prevHash := by
  cases col <;> rfl

@[simp] theorem setColumn_currentHash :
    (row.setColumn col text).currentHash = row.currentHash := by
  cases col <;> rfl

/-- The row with a new text in one column, if it has the given id. -/
def update (id : Bytes) : EventRow := if row.id = id then row.setColumn col text else row

end EventRow

/-- `UPDATE events SET … = ? WHERE id = ?`. -/
def DB.updateColumn (db : DB) (id : Bytes) (col : Column) (text : Bytes) : DB where
  runs := db.runs
  events := db.events.map fun row => row.update col text id
  runs_nodup := db.runs_nodup
  events_nodup := by
    have hid : EventRow.id ∘ (fun row => row.update col text id) = EventRow.id := by
      funext row
      show (row.update col text id).id = row.id
      unfold EventRow.update
      split
      · exact row.setColumn_id col text
      · rfl
    rw [List.map_map, hid]
    exact db.events_nodup

/-- The JSON value that a text denotes, with exact numbers and at any depth. -/
def textValue (text : Bytes) : Option JsonValue := (Json.parse (runes text)).map Json.value

/-- Both texts denote a JSON value, and the same one. -/
def SameJson (a b : Bytes) : Prop := ∃ y, textValue a = some y ∧ textValue b = some y

/-- The text is a JSON object with the value `y`, is not nested too deep, and has no number beyond
the range of `float64`. -/
def ReadableObject (text : Bytes) (y : JsonValue) : Prop :=
  ∃ ms, Json.parse (runes text) = some (.obj ms) ∧ (Json.obj ms).depth ≤ maxDepth ∧
    (Json.obj ms).InRange ∧ (Json.obj ms).value = y

/-- One of the texts is a readable object, and if both are, their values differ even when their
numbers are rounded to `float64`. -/
def ReadApart (a b : Bytes) : Prop :=
  (∃ y, ReadableObject a y ∨ ReadableObject b y) ∧
    ∀ y y', ReadableObject a y → ReadableObject b y' → y.rounded ≠ y'.rounded

/-! ## What a text is read as -/

theorem decodeColumn_eq_some {text : Bytes} {m : SortedMap Bytes Value} :
    decodeColumn text = some m ↔ unmarshalObject text = some (some m) := by
  unfold decodeColumn
  split
  · next h =>
    rcases h with rfl | rfl
    · have : unmarshalObject [] = none := by decide +kernel
      simp [this]
    · have : unmarshalObject (lit "null") = some none := by rfl
      simp [this]
  · cases hun : unmarshalObject text with
    | none => simp
    | some o => simp

theorem ReadableObject.unique {text : Bytes} {y y' : JsonValue} (h : ReadableObject text y)
    (h' : ReadableObject text y') : y = y' := by
  obtain ⟨ms, hparse, -, -, rfl⟩ := h
  obtain ⟨ms', hparse', -, -, rfl⟩ := h'
  rw [Option.some.inj (hparse.symm.trans hparse')]

/-- A readable object is read as a map. -/
theorem ReadableObject.decodeColumn {text : Bytes} {y : JsonValue} (h : ReadableObject text y) :
    ∃ m, Logryph.decodeColumn text = some m := by
  obtain ⟨ms, hparse, hdepth, hrange, -⟩ := h
  obtain ⟨v, hv⟩ := (exists_decode_iff _).mpr hrange
  obtain ⟨l, hl, -⟩ := Option.map_eq_some_iff.mp hv
  refine ⟨SortedMap.ofList l, decodeColumn_eq_some.mpr ?_⟩
  rw [unmarshalObject, readText, hparse]
  dsimp only
  rw [if_pos hdepth, Option.bind_some, Json.decodeObject, hl]
  rfl

/-- What is read as a map is a readable object. -/
theorem exists_readableObject {text : Bytes} {m : SortedMap Bytes Value}
    (h : decodeColumn text = some m) :
    ∃ j : Json, ReadableObject text j.value ∧ j.decode = some (Object.value (some m)) := by
  rw [decodeColumn_eq_some, unmarshalObject, Option.bind_eq_some_iff] at h
  obtain ⟨j, hread, hobj⟩ := h
  have hdec := decodeObject_value hobj
  obtain ⟨hparse, hdepth⟩ := readText_eq_some.mp hread
  cases j with
  | obj ms => exact ⟨.obj ms, ⟨ms, hparse, hdepth, (exists_decode_iff _).mp ⟨_, hdec⟩, rfl⟩, hdec⟩
  | _ => cases hobj

/-- What a column is read as was read from a tree. -/
theorem exists_decode_column (text : Bytes) :
    ∃ j : Json, j.decode = some (decodeColumn text).value := by
  cases hd : decodeColumn text with
  | none => exact ⟨.null, rfl⟩
  | some m =>
    obtain ⟨j, -, hdec⟩ := exists_readableObject hd
    exact ⟨j, hdec⟩

/-- **Two texts are read as different maps**, up to the sign of zeros, exactly if one of them is a
readable object that the other is not. -/
theorem decodeColumn_ne_iff {a b : Bytes} :
    (decodeColumn b).value.plainZeros ≠ (decodeColumn a).value.plainZeros ↔ ReadApart a b := by
  have hnone : ∀ {text y}, decodeColumn text = none → ¬ ReadableObject text y := by
    intro text y hd h
    obtain ⟨m, hm⟩ := h.decodeColumn
    rw [hd] at hm
    cases hm
  cases ha : decodeColumn a with
  | none =>
    cases hb : decodeColumn b with
    | none =>
      refine iff_of_false (not_not.mpr rfl) ?_
      rintro ⟨⟨y, h | h⟩, -⟩
      · exact hnone ha h
      · exact hnone hb h
    | some m =>
      obtain ⟨j, hj, -⟩ := exists_readableObject hb
      exact iff_of_true nofun ⟨⟨_, .inr hj⟩, fun y y' h => absurd h (hnone ha)⟩
  | some m =>
    obtain ⟨j, hj, hdec⟩ := exists_readableObject ha
    cases hb : decodeColumn b with
    | none => exact iff_of_true nofun ⟨⟨_, .inl hj⟩, fun y y' _ h => absurd h (hnone hb)⟩
    | some m' =>
      obtain ⟨j', hj', hdec'⟩ := exists_readableObject hb
      rw [ne_eq, plainZeros_eq_iff hdec' hdec]
      constructor
      · intro hne
        refine ⟨⟨_, .inl hj⟩, fun y y' hy hy' heq => hne ?_⟩
        rw [hj.unique hy, hj'.unique hy', heq]
      · intro h heq
        exact h.2 _ _ hj hj' heq.symm

/-- What was read from a column is normal already, up to the sign of zeros. -/
theorem eq_of_reads_decodeColumn {text : Bytes} {w : Value}
    (h : Reads (decodeColumn text).value w) : w = (decodeColumn text).value.plainZeros := by
  obtain ⟨j, hdec⟩ := exists_decode_column text
  obtain ⟨t, htree, hdec', -⟩ := tree_of_decode j _ hdec
  obtain ⟨u, ⟨t', htree', hu, -⟩, rfl⟩ := h
  rw [htree, Option.some.injEq] at htree'
  rw [← htree', hdec', Option.some.injEq] at hu
  rw [hu]

/-! ## A changed row -/

/-- The map of an event that a column is read into. -/
def Event.column (e : Event) : Column → Object
  | .params => e.params
  | .response => e.response

def Event.setColumn (e : Event) (col : Column) (o : Object) : Event :=
  match col with
  | .params => { e with params := o }
  | .response => { e with response := o }

theorem scanEvent_column {row : EventRow} {e : Event} (h : scanEvent row = .ok e) (col : Column) :
    e.column col = decodeColumn (row.column col) := by
  unfold scanEvent at h
  split at h
  · cases h
  · cases h
    cases col <;> rfl

theorem scanEvent_setColumn {row : EventRow} {e : Event} (h : scanEvent row = .ok e) (col : Column)
    (text : Bytes) :
    scanEvent (row.setColumn col text) = .ok (e.setColumn col (decodeColumn text)) := by
  unfold scanEvent at h ⊢
  rw [EventRow.setColumn_seqIndex]
  split at h
  · cases h
  · next hseq =>
    cases h
    rw [if_neg hseq]
    cases col <;> rfl

/-- Payloads with one normal form hold the same maps, if the maps are normal. -/
theorem column_eq_of_normalForm {e e' : Event} {w : Value} (h : normalForm e.payload = some w)
    (h' : normalForm e'.payload = some w) (col : Column) :
    ∃ v, Reads (e.column col).value v ∧ Reads (e'.column col).value v := by
  obtain ⟨n, p, r, -, hp, hr, rfl⟩ := normalForm_payload.mp h
  obtain ⟨n', p', r', -, hp', hr', hmem⟩ := normalForm_payload.mp h'
  simp only [normalPayload, Value.map.injEq, List.cons.injEq, Prod.mk.injEq, true_and,
    and_true] at hmem
  obtain ⟨-, -, -, -, rfl, -, -, rfl, -⟩ := hmem
  cases col with
  | params => exact ⟨p, hp, hp'⟩
  | response => exact ⟨r, hr, hr'⟩

/-- A column that is read as the same map, up to the sign of zeros, leaves the normal form. -/
theorem normalForm_setColumn {e : Event} {w : Value} (h : normalForm e.payload = some w)
    {col : Column} {o : Object} {j j' : Json} (hcol : j.decode = some (e.column col).value)
    (ho : j'.decode = some o.value) (heq : o.value.plainZeros = (e.column col).value.plainZeros) :
    normalForm (e.setColumn col o).payload = some w := by
  obtain ⟨n, p, r, hn, hp, hr, rfl⟩ := normalForm_payload.mp h
  cases col with
  | params => exact normalForm_payload_of hn (hp.congr hcol ho heq) hr
  | response => exact normalForm_payload_of hn hp (hr.congr hcol ho heq)

/-- **A changed column is noticed exactly if it is read as another map**, up to the sign of
zeros. -/
theorem rowPasses_setColumn_iff {signer : Signer} {row : EventRow} {col : Column} {text : Bytes}
    (hpass : RowPasses c strict signer row)
    (hcoll : ∀ e e', scanEvent row = .ok e → scanEvent (row.setColumn col text) = .ok e' →
      NoCollision c [e, e']) :
    RowPasses c strict signer (row.setColumn col text) ↔
      (decodeColumn text).value.plainZeros = (decodeColumn (row.column col)).value.plainZeros := by
  obtain ⟨e, hscan, hver⟩ := hpass
  have hscan' := scanEvent_setColumn hscan col text
  have hcol := scanEvent_column hscan col
  have hcol' : (e.setColumn col (decodeColumn text)).column col = decodeColumn text := by
    cases col <;> rfl
  have hprev : (e.setColumn col (decodeColumn text)).prevHash = e.prevHash := by cases col <;> rfl
  have hcur : (e.setColumn col (decodeColumn text)).currentHash = e.currentHash := by
    cases col <;> rfl
  have hsign : (e.setColumn col (decodeColumn text)).signature = e.signature := by
    cases col <;> rfl
  obtain ⟨hsig, hhash, hkey⟩ := (verifyEvent_eq_ok c strict).mp hver
  constructor
  · rintro ⟨e', he', hver'⟩
    obtain rfl : e.setColumn col (decodeColumn text) = e' := Except.ok.inj (hscan'.symm.trans he')
    obtain ⟨-, hhash', -⟩ := (verifyEvent_eq_ok c strict).mp hver'
    obtain ⟨-, w, hw, hw'⟩ := normalForm_eq_of_hash_eq c strict (hcoll e _ hscan hscan')
      List.mem_cons_self (List.mem_cons_of_mem _ (List.mem_singleton_self _)) hhash hhash' hcur.symm
    obtain ⟨v, hv, hv'⟩ := column_eq_of_normalForm hw hw' col
    rw [hcol] at hv
    rw [hcol'] at hv'
    exact (eq_of_reads_decodeColumn hv').symm.trans (eq_of_reads_decodeColumn hv)
  · intro heq
    obtain ⟨hok, -, x, hx, hh⟩ := (calculateEventHash_eq_ok c strict).mp hhash
    obtain ⟨w, hw⟩ := exists_normalForm hx
    obtain ⟨j, hj⟩ := exists_decode_column (row.column col)
    obtain ⟨j', hj'⟩ := exists_decode_column text
    rw [← hcol] at hj heq
    have hsame := hashInput_congr (p := e.prevHash)
      ((normalForm_setColumn hw hj hj' heq).trans hw.symm)
    refine ⟨_, hscan', (verifyEvent_eq_ok c strict).mpr ?_⟩
    rw [hprev, hcur, hsign]
    exact ⟨hsig, (calculateEventHash_eq_ok c strict).mpr ⟨hok, rfl, x, hsame.trans hx, hh⟩, hkey⟩

/-! ## A changed store -/

theorem EventRow.update_of_ne {row : EventRow} {col : Column} {text id : Bytes} (h : row.id ≠ id) :
    row.update col text id = row := if_neg h

theorem EventRow.update_self (row : EventRow) (col : Column) (text : Bytes) :
    row.update col text row.id = row.setColumn col text := if_pos rfl

theorem EventRow.update_fields (row : EventRow) (col : Column) (text id : Bytes) :
    (row.update col text id).runID = row.runID ∧
      (row.update col text id).seqIndex = row.seqIndex ∧
      (row.update col text id).prevHash = row.prevHash ∧
      (row.update col text id).currentHash = row.currentHash := by
  unfold EventRow.update
  split
  · simp
  · simp

/-- The rows of a run stay where they are. -/
theorem DB.orderedRows_updateColumn (db : DB) (runID id : Bytes) (col : Column) (text : Bytes) :
    (db.updateColumn id col text).orderedRows runID
      = (db.orderedRows runID).map fun row => row.update col text id := by
  unfold orderedRows rowsOf updateColumn
  dsimp only
  rw [List.filter_map, List.map_insertionSort _ (fun a b : EventRow => a.seqIndex ≤ b.seqIndex)]
  · congr 2
    refine List.filter_congr fun row _ => ?_
    show decide ((row.update col text id).runID = runID) = _
    rw [(row.update_fields col text id).1]
  · intro a _ b _
    rw [(a.update_fields col text id).2.1, (b.update_fields col text id).2.1]

theorem DB.eq_of_id_eq {db : DB} {runID : Bytes} {a b : EventRow} (ha : a ∈ db.rowsOf runID)
    (hb : b ∈ db.rowsOf runID) (h : a.id = b.id) : a = b :=
  List.inj_on_of_nodup_map db.events_nodup (List.mem_of_mem_filter ha) (List.mem_of_mem_filter hb) h

/-- **Tampering with a column.** In a run that is accepted, replacing the text of a `params` or
`response` column is noticed if and only if the row is one of those that are read, and the two texts
are read apart: one of them is a readable object, and if both are, their values differ after
rounding. -/
theorem tamper_detected_iff {db : DB} {runID : Bytes} {signer : Signer} {row : EventRow}
    {col : Column} {text : Bytes}
    (hacc : Accepts c strict (getAllEvents strict {} db) runID signer)
    (hrow : row ∈ db.rowsOf runID)
    (hcoll : ∀ e e', scanEvent row = .ok e → scanEvent (row.setColumn col text) = .ok e' →
      NoCollision c [e, e']) :
    ¬ Accepts c strict (getAllEvents strict {} (db.updateColumn row.id col text)) runID signer ↔
      row ∈ (db.orderedRows runID).take maxEventRows ∧ ReadApart (row.column col) text := by
  obtain ⟨hrun, hpass⟩ := (accepts_store c strict).mp hacc
  have hmem : ∀ r ∈ (db.orderedRows runID).take maxEventRows, r ∈ db.rowsOf runID := fun r hr =>
    (List.mem_insertionSort _).mp (List.mem_of_mem_take hr)
  have hother : ∀ r ∈ (db.orderedRows runID).take maxEventRows, r ≠ row →
      r.update col text row.id = r := fun r hr hne =>
    EventRow.update_of_ne fun hid => hne (DB.eq_of_id_eq (hmem r hr) hrow hid)
  rw [accepts_store, DB.orderedRows_updateColumn, ← List.map_take, ← decodeColumn_ne_iff]
  constructor
  · intro hno
    by_contra hcond
    refine hno ⟨hrun, ?_, ?_, ?_⟩
    · simpa using hpass.nonempty
    · rw [List.isChain_map]
      refine hpass.linked.imp fun a b hab => ?_
      rw [(b.update_fields col text row.id).2.2.1, (a.update_fields col text row.id).2.2.2]
      exact hab
    · intro r' hr'
      obtain ⟨r, hr, rfl⟩ := List.mem_map.mp hr'
      by_cases hself : r = row
      · subst hself
        rw [EventRow.update_self, rowPasses_setColumn_iff c strict (hpass.passes r hr) hcoll]
        by_contra hne
        exact hcond ⟨hr, hne⟩
      · rw [hother r hr hself]
        exact hpass.passes r hr
  · rintro ⟨hin, hne⟩ ⟨-, hpass'⟩
    have := hpass'.passes _ (List.mem_map_of_mem hin)
    rw [EventRow.update_self, rowPasses_setColumn_iff c strict (hpass.passes row hin) hcoll] at this
    exact hne this

/-- The row of the recorded genesis event. -/
def recordedRow : EventRow where
  id := lit "evt-0"
  runID := lit "run-1"
  seqIndex := 0
  timestamp := lit "2026-01-15T09:30:00Z"
  actor := lit "system"
  eventType := lit "genesis"
  method := lit "logryph:init"
  params := lits ["\x7b\"agent_name\":\"agent\",",
    "\"public_key\":\"d75a980182b10ab7d54bfed3c964073a0ee172f3daa62325af021a68f707511a\",",
    "\"version\":\"1.0.0\"\x7d"]
  response := lit "null"
  taskID := []
  taskState := []
  parentID := []
  policyID := []
  riskLevel := []
  prevHash := zeroHash
  currentHash := lit "a2b888155809cf5b89ce1f2a451e1274ddcc36001c398633e29fd9c1253c4fd3"
  signature := lit "d0e4f5d6bbbc7fc4cc3fbf0762308ff73cc4d798ff24cb1600677d070a458240" ++
    lit "eb6ff8b600d48103336d946aa4727bd509417cd68664c917042a814f9986b905"

def recordedDB : DB where
  runs := [⟨lit "run-1", lit "agent", recordedRow.currentHash, recordedSigner.getPublicKey⟩]
  events := [recordedRow]
  runs_nodup := List.nodup_singleton _
  events_nodup := List.nodup_singleton _

theorem accepts_recordedDB :
    Accepts recordedCrypto true (getAllEvents true {} recordedDB) (lit "run-1") recordedSigner :=
  ⟨{ valid := true, totalEvents := 1 }, by decide +kernel, rfl⟩

/-- A response in place of `null`. -/
def forgedResponse : Bytes := lit "\x7b\"ok\":true\x7d"

theorem noCollision_forged : NoCollision recordedCrypto
    ((scanEvent recordedRow).toOption.toList ++
      (scanEvent (recordedRow.setColumn .response forgedResponse)).toOption.toList) := by
  decide +kernel

/-- The text of the forged response, as it is read. -/
theorem forgedResponse_readable :
    ReadableObject forgedResponse (.obj [(lit "ok", .bool true)]) := by
  refine ⟨[(['o', 'k'], .bool true)], rfl, by decide, ?_, rfl⟩
  rintro d (_ | _ | ⟨hm, hd⟩)
  rw [List.mem_singleton.mp hm] at hd
  cases hd

theorem tamper_detected_recorded : ¬ Accepts recordedCrypto true
    (getAllEvents true {} (recordedDB.updateColumn recordedRow.id .response forgedResponse))
    (lit "run-1") recordedSigner := by
  refine (tamper_detected_iff recordedCrypto true accepts_recordedDB (by decide +kernel) ?_).mpr
    ⟨by decide +kernel, ⟨_, .inr forgedResponse_readable⟩, ?_⟩
  · intro e e' he he'
    have := noCollision_forged
    rwa [he, he'] at this
  · -- the original text is `null`
    rintro y y' ⟨ms, hparse, -⟩
    cases hparse

/-- A text that is no JSON at all, in place of `null`, is not. -/
theorem tamper_undetected : ¬ SameJson recordedRow.response (lit "forged") ∧
    Accepts recordedCrypto true (getAllEvents true {} recordedDB) (lit "run-1") recordedSigner ∧
    Accepts recordedCrypto true (getAllEvents true {}
      (recordedDB.updateColumn recordedRow.id .response (lit "forged"))) (lit "run-1")
      recordedSigner := by
  refine ⟨?_, accepts_recordedDB, { valid := true, totalEvents := 1 }, by decide +kernel, rfl⟩
  rintro ⟨y, -, hforged⟩
  have hnone : textValue (lit "forged") = none := by rfl
  rw [hnone] at hforged
  cases hforged

/-! ## Deleting the first rows -/

/-- `DELETE` of the `k` rows of a run with the smallest numbers. -/
def DB.deleteFirst (db : DB) (runID : Bytes) (k : Nat) : DB where
  runs := db.runs
  events := db.events.filter fun row =>
    !(((db.orderedRows runID).take k).map EventRow.id).contains row.id
  runs_nodup := db.runs_nodup
  events_nodup := db.events_nodup.sublist (List.filter_sublist.map _)

theorem filter_eq_drop {α : Type} {p : α → Bool} {l : List α} {k : Nat}
    (htake : ∀ x ∈ l.take k, ¬ p x = true) (hdrop : ∀ x ∈ l.drop k, p x = true) :
    l.filter p = l.drop k := by
  calc l.filter p = (l.take k ++ l.drop k).filter p := by rw [List.take_append_drop]
    _ = l.drop k := by
      rw [List.filter_append, List.filter_eq_nil_iff.mpr htake, List.filter_eq_self.mpr hdrop]
      rfl

theorem DB.orderedRows_deleteFirst (db : DB) (runID : Bytes) (k : Nat) :
    (db.deleteFirst runID k).orderedRows runID = (db.orderedRows runID).drop k := by
  have hnodup : ((db.orderedRows runID).map EventRow.id).Nodup := by
    have hsub : ((db.rowsOf runID).map EventRow.id).Nodup :=
      db.events_nodup.sublist (List.filter_sublist.map _)
    exact ((List.perm_insertionSort _ _).map _).nodup_iff.mpr hsub
  have : Std.Total fun a b : EventRow => a.seqIndex ≤ b.seqIndex := ⟨fun a b => le_total _ _⟩
  have : IsTrans EventRow fun a b => a.seqIndex ≤ b.seqIndex := ⟨fun _ _ _ hab hbc => hab.trans hbc⟩
  have hrows : (db.deleteFirst runID k).rowsOf runID = (db.rowsOf runID).filter fun row =>
      !(((db.orderedRows runID).take k).map EventRow.id).contains row.id := by
    unfold rowsOf deleteFirst
    dsimp only
    rw [List.filter_filter, List.filter_filter]
    exact List.filter_congr fun row _ => Bool.and_comm _ _
  rw [orderedRows, hrows, insertionSort_filter]
  refine filter_eq_drop (fun row hrow => ?_) fun row hrow => ?_
  · rw [Bool.not_eq_true', Bool.not_eq_false, List.contains_iff_mem]
    exact List.mem_map_of_mem hrow
  · rw [Bool.not_eq_true', ← Bool.not_eq_true, List.contains_iff_mem]
    -- an id is either among the first ones or among the rest
    rw [← List.take_append_drop k (db.orderedRows runID), List.map_append, List.nodup_append]
      at hnodup
    exact fun hmem => hnodup.2.2 row.id hmem row.id (List.mem_map_of_mem hrow) rfl

/-- What passes, index by index. -/
theorem rowsPass_iff_getElem? {signer : Signer} {rows : List EventRow} :
    RowsPass c strict signer rows ↔ rows ≠ [] ∧
      (∀ (i : Nat) row, rows[i]? = some row → RowPasses c strict signer row) ∧
      ∀ (i : Nat) a b, rows[i]? = some a → rows[i + 1]? = some b → b.prevHash = a.currentHash := by
  constructor
  · rintro ⟨hne, hlinked, hpasses⟩
    refine ⟨hne, fun i row hrow => hpasses row (List.mem_of_getElem? hrow), fun i a b ha hb => ?_⟩
    obtain ⟨_, rfl⟩ := List.getElem?_eq_some_iff.mp ha
    obtain ⟨hi, rfl⟩ := List.getElem?_eq_some_iff.mp hb
    exact List.isChain_iff_getElem.mp hlinked i hi
  · rintro ⟨hne, hpasses, hlinked⟩
    refine ⟨hne, List.isChain_iff_getElem.mpr fun i hi => ?_, fun row hrow => ?_⟩
    · exact hlinked i _ _ (List.getElem?_eq_getElem _) (List.getElem?_eq_getElem _)
    · obtain ⟨i, hi⟩ := List.mem_iff_getElem?.mp hrow
      exact hpasses i row hi

/-- When the first `k` rows are gone, a row that fails comes into the window of the reader: by
itself, or by its link to a row that is still there. -/
def FailsBehind (signer : Signer) (rows : List EventRow) (k : Nat) : Prop :=
  ∃ i row, rows[i]? = some row ∧ maxEventRows ≤ i ∧ k ≤ i ∧ i < k + maxEventRows ∧
    (¬ RowPasses c strict signer row ∨
      k < i ∧ ∃ before, rows[i - 1]? = some before ∧ row.prevHash ≠ before.currentHash)

/-- The window after the deletion. What was in the first one passes. -/
theorem rowsPass_window_iff {signer : Signer} {rows : List EventRow} {k : Nat}
    (hpass : RowsPass c strict signer (rows.take maxEventRows)) (hlt : k < rows.length) :
    RowsPass c strict signer ((rows.drop k).take maxEventRows) ↔
      ¬ FailsBehind c strict signer rows k := by
  obtain ⟨-, hold, hlinks⟩ := (rowsPass_iff_getElem? c strict).mp hpass
  rw [rowsPass_iff_getElem?]
  simp only [List.getElem?_take, List.getElem?_drop] at hold hlinks ⊢
  constructor
  · rintro ⟨-, hpasses, hlinked⟩ ⟨i, row, hrow, -, hk, hi, hfail | ⟨hki, before, hbefore, hfail⟩⟩
    · refine hfail (hpasses (i - k) row ?_)
      rw [if_pos (by omega), Nat.add_sub_cancel' hk]
      exact hrow
    · refine hfail (hlinked (i - 1 - k) before row ?_ ?_)
      · rw [if_pos (by omega), show k + (i - 1 - k) = i - 1 by omega]
        exact hbefore
      · rw [if_pos (by omega), show k + (i - 1 - k + 1) = i by omega]
        exact hrow
  · intro hno
    refine ⟨?_, fun i row hrow => ?_, fun i a b ha hb => ?_⟩
    · rw [ne_eq, List.take_eq_nil_iff, List.drop_eq_nil_iff]
      rintro (h | h)
      · cases h
      · omega
    · split at hrow
      · by_cases hi : k + i < maxEventRows
        · exact hold (k + i) row (by rwa [if_pos hi])
        · by_contra hfail
          exact hno ⟨k + i, row, hrow, by omega, by omega, by omega, Or.inl hfail⟩
      · cases hrow
    · split at hb
      · rw [if_pos (by omega)] at ha
        by_cases hi : k + i + 1 < maxEventRows
        · refine hlinks (k + i) a b ?_ ?_
          · rwa [if_pos (by omega)]
          · rwa [if_pos hi]
        · by_contra hfail
          refine hno ⟨k + (i + 1), b, hb, by omega, by omega, by omega,
            Or.inr ⟨by omega, a, ?_, hfail⟩⟩
          rwa [show k + (i + 1) - 1 = k + i by omega]
      · cases hb

/-- The first event of the run is the genesis event that the `runs` table knows. -/
def StartsAtGenesis (db : DB) (runID : Bytes) : Prop :=
  ∃ row agentName genesisHash pubKey, (db.orderedRows runID).head? = some row ∧
    getRunInfo strict none db runID = .ok (agentName, genesisHash, pubKey) ∧
    row.seqIndex = 0 ∧ row.prevHash = zeroHash ∧ row.currentHash = genesisHash

theorem getRunInfo_eq_ok {db : DB} {runID agentName genesisHash pubKey : Bytes} :
    getRunInfo strict none db runID = .ok (agentName, genesisHash, pubKey) ↔
      runID ≠ [] ∧ ∃ run, db.runs.find? (·.id = runID) = some run ∧ run.agentName = agentName ∧
        run.genesisHash = genesisHash ∧ run.ledgerPubKey = pubKey := by
  unfold getRunInfo
  rw [bind_eq_ok]
  simp only [check_eq_ok, decide_eq_true_eq, exists_const]
  cases db.runs.find? (·.id = runID) with
  | none => simp
  | some run => simp

/-- **Every ledger that the program writes starts at its genesis event**, whichever calls fail. -/
theorem startsAtGenesis_processAll {env : GenesisEnv} {signer : Signer} {pool : List Event}
    {agentName runID : Bytes} {s : State}
    (hgen : createGenesisBlock c strict env (initialState signer pool) agentName = (.ok runID, s))
    (calls : List Call) :
    StartsAtGenesis strict (processAll c strict (newEventProcessor s runID) calls).db runID := by
  have hinv := runInv_processAll c strict hgen calls
  have hlog := hinv.isLog
  rw [hinv.rows_eq] at hlog
  obtain ⟨-, -, -, -, -, -, hne⟩ := createGenesisBlock_eq_ok c strict hgen rfl
  have hwrites := createGenesisBlock_writes c strict env (initialState signer pool) agentName
  rw [hgen] at hwrites
  rcases hwrites with ⟨⟨f, hf⟩, -⟩ |
    ⟨run, hid, hruns, ⟨row, hevents, hrow, hseq, -, hhash, hres⟩ | ⟨-, ⟨f, hf⟩, -⟩⟩
  · cases hf
  · obtain rfl : runID = env.runID := by
      rcases hres with hres | ⟨msg, hres⟩
      · exact Except.ok.inj hres
      · cases hres
    obtain ⟨⟨rows, hadded, -⟩, hsame, -⟩ := writes_of_steps c strict
      (processAll_steps c strict calls (newEventProcessor s env.runID))
    -- the genesis row stays in front, and its run alone in the table
    have hhead : ((processAll c strict (newEventProcessor s env.runID) calls).db.orderedRows
        env.runID).head? = some row := by
      rw [DB.orderedRows_of_isLog hlog]
      unfold DB.rowsOf
      rw [
        show (processAll c strict (newEventProcessor s env.runID) calls).db.events = _ from hadded,
        show (newEventProcessor s env.runID).core.db.events = _ from hevents]
      simp [hrow, initialState, DB.empty]
    have hfind : (processAll c strict (newEventProcessor s env.runID) calls).db.runs.find?
        (·.id = env.runID) = some run := by
      rw [show (processAll c strict (newEventProcessor s env.runID) calls).db.runs = _ from hsame,
        show (newEventProcessor s env.runID).core.db.runs = _ from hruns]
      simp [hid, initialState, DB.empty]
    refine ⟨row, _, _, _, hhead, (getRunInfo_eq_ok strict).mpr ⟨hne, run, hfind, rfl, rfl, rfl⟩,
      hseq, ?_, hhash⟩
    rw [DB.orderedRows_of_isLog hlog] at hhead
    exact hlog.prev_head row hhead
  · cases hf

/-- Without the first rows, the run starts with another event, if the numbers are different. -/
theorem not_startsAtGenesis_deleteFirst {db : DB} {runID : Bytes} {k : Nat} (hk : 0 < k)
    (hgenesis : StartsAtGenesis strict db runID)
    (hnums : ((db.rowsOf runID).map EventRow.seqIndex).Nodup) :
    ¬ StartsAtGenesis strict (db.deleteFirst runID k) runID := by
  obtain ⟨first, -, -, -, hfirst, -, hzero, -⟩ := hgenesis
  rintro ⟨row, -, -, -, hrow, -, hzero', -⟩
  rw [DB.orderedRows_deleteFirst, List.head?_drop] at hrow
  rw [List.head?_eq_getElem?] at hfirst
  have hnodup : ((db.orderedRows runID).map EventRow.seqIndex).Nodup :=
    ((List.perm_insertionSort _ _).map _).nodup_iff.mpr hnums
  have hidx : ((db.orderedRows runID).map EventRow.seqIndex)[0]?
      = ((db.orderedRows runID).map EventRow.seqIndex)[k]? := by
    rw [List.getElem?_map, List.getElem?_map, hfirst, hrow, Option.map_some, Option.map_some,
      hzero, hzero']
  have hlt : 0 < ((db.orderedRows runID).map EventRow.seqIndex).length := by
    rw [List.length_map]
    exact (List.getElem?_eq_some_iff.mp hfirst).1
  exact absurd ((List.getElem?_inj hlt hnodup).mp hidx) hk.ne

/-- **Deleting the first rows of a run.** The reader returns the first `maxEventRows` of what is
left. This is noticed exactly if a row that was not read before comes into this window and fails,
and so it is never noticed in a run of at most `maxEventRows` rows. The same condition decides
whether an accepted ledger starts at its genesis event after the deletion, if it did before and no
number occurs twice. -/
theorem deleteFirst_detected_iff {db : DB} {runID : Bytes} {signer : Signer} {k : Nat}
    (hacc : Accepts c strict (getAllEvents strict {} db) runID signer) (hk : 0 < k)
    (hlt : k < (db.rowsOf runID).length) :
    (¬ Accepts c strict (getAllEvents strict {} (db.deleteFirst runID k)) runID signer ↔
      FailsBehind c strict signer (db.orderedRows runID) k) ∧
    (StartsAtGenesis strict db runID → ((db.rowsOf runID).map EventRow.seqIndex).Nodup →
      ((Accepts c strict (getAllEvents strict {} (db.deleteFirst runID k)) runID signer →
          StartsAtGenesis strict (db.deleteFirst runID k) runID) ↔
        FailsBehind c strict signer (db.orderedRows runID) k)) := by
  obtain ⟨hrun, hpass⟩ := (accepts_store c strict).mp hacc
  have hlen : (db.orderedRows runID).length = (db.rowsOf runID).length :=
    List.length_insertionSort _ _
  have hdetected : ¬ Accepts c strict (getAllEvents strict {} (db.deleteFirst runID k)) runID signer
      ↔ FailsBehind c strict signer (db.orderedRows runID) k := by
    rw [accepts_store, DB.orderedRows_deleteFirst, and_iff_right hrun,
      rowsPass_window_iff c strict hpass (hlen ▸ hlt), not_not]
  refine ⟨hdetected, fun hgenesis hnums => ?_⟩
  rw [← hdetected]
  have hcut := not_startsAtGenesis_deleteFirst strict hk hgenesis hnums
  exact ⟨fun h hacc' => hcut (h hacc'), fun h hacc' => absurd hacc' h⟩

/-- Up to the limit of the reader, nothing is behind its window. -/
theorem not_failsBehind {signer : Signer} {rows : List EventRow} (h : rows.length ≤ maxEventRows)
    (k : Nat) : ¬ FailsBehind c strict signer rows k := by
  rintro ⟨i, row, hrow, hi, -⟩
  have := (List.getElem?_eq_some_iff.mp hrow).1
  omega

theorem recordedRun_rowsPass : RowsPass recordedCrypto true recordedSigner
    ((recordedRun 3).db.orderedRows (lit "run-1")) :=
  rowsPass_processAll recordedCrypto true createGenesisBlock_recorded (recordedCalls.take 3)
    (by decide) recordedCalls_representable recordedSigner_own

theorem recordedRun_accepts : Accepts recordedCrypto true (getAllEvents true {} (recordedRun 3).db)
    (lit "run-1") recordedSigner :=
  (accepts_store recordedCrypto true).mpr
    ⟨by decide, recordedRun_rowsPass.take recordedCrypto true (by decide)⟩

/-- The genesis event is gone, and the rest is still valid. -/
theorem deleteFirst_undetected :
    Accepts recordedCrypto true (getAllEvents true {} (recordedRun 3).db) (lit "run-1")
      recordedSigner ∧
    1 < ((recordedRun 3).db.rowsOf (lit "run-1")).length ∧
    StartsAtGenesis true (recordedRun 3).db (lit "run-1") ∧
    ¬ StartsAtGenesis true ((recordedRun 3).db.deleteFirst (lit "run-1") 1) (lit "run-1") ∧
    (((recordedRun 3).db.deleteFirst (lit "run-1") 1).orderedRows (lit "run-1")).map
      EventRow.seqIndex = [1, 2, 3] ∧
    Accepts recordedCrypto true
      (getAllEvents true {} ((recordedRun 3).db.deleteFirst (lit "run-1") 1))
      (lit "run-1") recordedSigner := by
  have hinv : RunInv recordedCrypto true recordedSigner (lit "run-1") (recordedRun 3).core :=
    runInv_processAll recordedCrypto true createGenesisBlock_recorded (recordedCalls.take 3)
  have hlog := hinv.isLog
  rw [hinv.rows_eq] at hlog
  have hordered : (recordedRun 3).db.orderedRows (lit "run-1")
      = (recordedRun 3).db.rowsOf (lit "run-1") := DB.orderedRows_of_isLog hlog
  have hnum : ((recordedRun 3).db.rowsOf (lit "run-1")).map EventRow.seqIndex = [0, 1, 2, 3] := by
    refine hlog.map_num.trans ?_
    rw [recordedRun_rows]
    rfl
  have hstart : StartsAtGenesis true (recordedRun 3).db (lit "run-1") :=
    startsAtGenesis_processAll recordedCrypto true createGenesisBlock_recorded
      (recordedCalls.take 3)
  refine ⟨recordedRun_accepts, recordedRun_rows ▸ by decide, hstart,
    not_startsAtGenesis_deleteFirst true Nat.one_pos hstart (hnum ▸ by decide), ?_, ?_⟩
  · rw [DB.orderedRows_deleteFirst, hordered, List.map_drop, hnum]
    rfl
  · rw [accepts_store, DB.orderedRows_deleteFirst]
    refine ⟨by decide, (rowsPass_window_iff recordedCrypto true
      (recordedRun_rowsPass.take recordedCrypto true (by decide)) ?_).mpr
      (not_failsBehind recordedCrypto true ?_ 1)⟩
    · rw [hordered, recordedRun_rows]
      decide
    · rw [hordered, recordedRun_rows]
      decide

/-! ## Coverage -/

/-- If the verifier says that a run is valid, it has counted every row, and every row passes. A run
that is too long makes it fail. -/
structure Covers (faults : ReadFaults) (db : DB) (runID : Bytes) (signer : Signer) : Prop where
  valid : ∀ r, verifyChain c strict (getAllEvents strict faults db) runID signer = .ok r →
    r.valid = true →
    r.totalEvents = (db.rowsOf runID).length ∧ RowsPass c strict signer (db.orderedRows runID)
  tooLong : maxVerifyEvents < (db.rowsOf runID).length →
    ∃ f, verifyChain c strict (getAllEvents strict faults db) runID signer = .error f

/-- A check panics at one of the rows, and the verifier comes to it. -/
def PanicsWithin (signer : Signer) (rows : List EventRow) : Prop :=
  ∃ before row, before ++ [row] <+: rows ∧
    (before ++ [row]).IsChain (fun a b => b.prevHash = a.currentHash) ∧
    (∀ r ∈ before, RowPasses c strict signer r) ∧
    ∃ e, scanEvent row = .ok e ∧ Panics (verifyEvent c strict signer e)

theorem forall₂_concat_left {α β : Type} {R : α → β → Prop} {x : α} : ∀ {xs : List α} {ys : List β},
    List.Forall₂ R (xs ++ [x]) ys →
    ∃ ys' y, ys = ys' ++ [y] ∧ List.Forall₂ R xs ys' ∧ R x y
  | [], _, .cons hx .nil => ⟨[], _, rfl, .nil, hx⟩
  | _ :: _, _, .cons h hs => by
    obtain ⟨ys', y, rfl, hxs, hx⟩ := forall₂_concat_left hs
    exact ⟨_ :: ys', y, rfl, .cons h hxs, hx⟩

/-- It is the loop that panics then. -/
theorem panicsWithin_iff {signer : Signer} {rows : List EventRow} {es : List Event}
    (hscan : List.Forall₂ (fun row e => scanEvent row = .ok e) rows es) :
    PanicsWithin c strict signer rows ↔ ∃ f, verifyFrom c strict signer 0 none es = .error f := by
  rw [verifyFrom_error_iff]
  constructor
  · rintro ⟨before, row, hprefix, hchain, hbefore, e, hrow, hpanic⟩
    obtain ⟨ys, hys, after, hes⟩ := exists_forall₂_of_isPrefix hscan hprefix
    obtain ⟨es', e', rfl, hes', hrow'⟩ := forall₂_concat_left hys
    cases hrow.symm.trans hrow'
    rw [← List.append_cons] at hes
    refine ⟨es', e, after, hes.symm, (isChain_links_iff hys).mpr hchain, fun x hx => ?_, hpanic⟩
    obtain ⟨r, hr, hrx⟩ := mem_of_forall₂_right hes' hx
    obtain ⟨x', hx', hpass⟩ := hbefore r hr
    cases hrx.symm.trans hx'
    exact hpass
  · rintro ⟨before, e, after, rfl, hchain, hbefore, hpanic⟩
    rw [List.append_cons] at hscan
    obtain ⟨ys, hys, hyp⟩ := exists_forall₂_of_isPrefix hscan.flip (List.prefix_append _ after)
    obtain ⟨rs, row, rfl, hrs, hrow⟩ := forall₂_concat_left hys
    refine ⟨rs, row, hyp, (isChain_links_iff hys.flip).mp hchain, fun r hr => ?_, e, hrow, hpanic⟩
    obtain ⟨x, hx, hrx⟩ := mem_of_forall₂_right hrs hr
    exact ⟨x, hrx, hbefore x hx⟩

/-- When the verifier gives no result. -/
theorem verifyChain_error_iff {faults : ReadFaults} {db : DB} {runID : Bytes} {signer : Signer} :
    (∃ f, verifyChain c strict (getAllEvents strict faults db) runID signer = .error f) ↔
      runID = [] ∨ faults ≠ {} ∨
        (∃ row ∈ (db.orderedRows runID).take maxEventRows, row.seqIndex < 0) ∨
        PanicsWithin c strict signer ((db.orderedRows runID).take maxEventRows) := by
  by_cases hrun : runID = []
  · subst hrun
    exact iff_of_true ⟨_, rfl⟩ (Or.inl rfl)
  rw [or_iff_right hrun]
  by_cases hread : ∃ es, getAllEvents strict faults db runID = .ok es
  · obtain ⟨es, hread⟩ := hread
    obtain ⟨-, hquery, hrows, hclose, hscan⟩ := (getAllEvents_eq_ok strict).mp hread
    have hfaults : faults = {} := by
      cases faults
      cases hquery
      cases hrows
      cases hclose
      rfl
    have hseq : ¬ ∃ row ∈ (db.orderedRows runID).take maxEventRows, row.seqIndex < 0 := by
      rintro ⟨row, hrow, hneg⟩
      obtain ⟨e, -, hscan⟩ := mem_of_forall₂_right hscan.flip hrow
      exact absurd (scanEvent_eq_ok hscan).1 (not_le.mpr hneg)
    have hlen : es.length ≤ maxVerifyEvents := by
      rw [← hscan.length_eq]
      exact List.length_take_le _ _
    rw [or_iff_right (not_not.mpr hfaults), or_iff_right hseq, panicsWithin_iff c strict hscan]
    unfold verifyChain
    rw [decide_eq_true hrun, hread]
    cases es with
    | nil => simp [verifyFrom, inContext, bind, Except.bind]
    | cons e es =>
      show (∃ f, (check strict _ _ >>= fun _ => verifyFrom c strict signer 0 none _ >>= fun _ => _)
        = .error f) ↔ _
      rw [decide_eq_true hlen, List.take_of_length_le hlen]
      cases verifyFrom c strict signer 0 none (e :: es) with
      | error f => simp [bind, Except.bind]
      | ok failure => cases failure <;> simp [bind, Except.bind]
  · refine iff_of_true ?_ ?_
    · cases hfail : getAllEvents strict faults db runID with
      | ok es => exact absurd ⟨es, hfail⟩ hread
      | error f =>
        unfold verifyChain
        rw [decide_eq_true hrun, hfail]
        exact ⟨_, rfl⟩
    · by_contra hno
      rw [not_or, not_or, not_not] at hno
      obtain ⟨rfl, hseq, -⟩ := hno
      have hscan : ∀ row ∈ (db.orderedRows runID).take maxEventRows,
          ∃ e, scanEvent row = .ok e := by
        intro row hrow
        exact ⟨_, if_neg fun hneg => hseq ⟨row, hrow, hneg⟩⟩
      obtain ⟨es, hes⟩ := exists_forall₂ hscan
      exact hread ⟨es, (getAllEvents_eq_ok strict).mpr ⟨hrun, rfl, rfl, rfl, hes⟩⟩

/-- **How much of a run is verified.** All of it if the reader returns all of it; of a longer run
only the first `maxEventRows` rows are looked at and counted, and it makes the verifier fail only if
something else does: a run without an id, reading, or a check that panics. -/
theorem covers_iff {faults : ReadFaults} {db : DB} {runID : Bytes} {signer : Signer} :
    Covers c strict faults db runID signer ↔
      (db.rowsOf runID).length ≤ maxEventRows ∨ runID = [] ∨ faults ≠ {} ∨
        (∃ row ∈ (db.orderedRows runID).take maxEventRows, row.seqIndex < 0) ∨
        PanicsWithin c strict signer ((db.orderedRows runID).take maxEventRows) := by
  rw [← verifyChain_error_iff]
  have hlen : (db.orderedRows runID).length = (db.rowsOf runID).length :=
    List.length_insertionSort _ _
  constructor
  · intro hcov
    by_cases hle : (db.rowsOf runID).length ≤ maxEventRows
    · exact Or.inl hle
    · exact Or.inr (hcov.tooLong (not_le.mp hle))
  · rintro (hle | ⟨f, hf⟩)
    · refine ⟨fun r hv hvalid => ?_, fun hlong => absurd hle (not_le.mpr hlong)⟩
      obtain ⟨-, -, hpass, rfl⟩ := (verifyChain_store c strict).mp ⟨hv, hvalid⟩
      rw [List.take_of_length_le (hlen.trans_le hle)] at hpass
      exact ⟨Nat.min_eq_right hle, hpass⟩
    · refine ⟨fun r hv => ?_, fun _ => ⟨f, hf⟩⟩
      rw [hf] at hv
      cases hv

/-! ### A run that is too long -/

/-- A call with an event that has no parameters. -/
def plainCall (i : Nat) : Call where
  event := some { newEvent with
    id := lit "call-" ++ natText i
    timestamp := recordedEnv.now
    actor := lit "agent"
    eventType := lit "tool_call"
    method := lit "tools/list" }
  completion := { id := lit "done-" ++ natText i, now := recordedEnv.now }

theorem callOk_plainCall (i : Nat) : CallOk (plainCall i) := by
  refine ⟨⟨_, rfl, ?_, exists_reads_of_mapLen rfl, exists_reads_of_mapLen rfl⟩, rfl, rfl, ?_⟩
  · exact List.cons_ne_nil _ _
  · exact List.cons_ne_nil _ _

theorem nodup_plainCalls (n : Nat) : (((List.range n).map plainCall).flatMap Call.ids).Nodup := by
  have hids : ∀ i, (plainCall i).ids = [lit "call-" ++ natText i, lit "done-" ++ natText i] :=
    fun i => rfl
  -- the first letter tells the two kinds apart
  have hkind : ∀ i j, lit "call-" ++ natText i ≠ lit "done-" ++ natText j := fun i j h =>
    absurd (List.head_eq_of_cons_eq h) (by decide)
  have hcall : ∀ {p : Bytes} {i j}, p ++ natText i = p ++ natText j → i = j := fun h =>
    natText_injective (List.append_cancel_left h)
  rw [List.flatMap_map, List.nodup_flatMap]
  constructor
  · intro i _
    rw [hids]
    simpa using hkind i i
  · refine List.nodup_range.imp fun {i j} hne => ?_
    simp only [Function.onFun, hids, List.disjoint_cons_left, List.mem_cons, List.not_mem_nil,
      or_false, not_or, List.disjoint_nil_left, and_true]
    exact ⟨⟨fun h => hne (hcall h), hkind i j⟩, fun h => hkind j i h.symm, fun h => hne (hcall h)⟩

/-- The ids of the calls are not the one of the genesis event. -/
theorem plainCalls_fresh {n : Nat} {id : Bytes}
    (h : id ∈ ((List.range n).map plainCall).flatMap Call.ids) : id ≠ recordedEnv.id := by
  obtain ⟨call, hcall, hid⟩ := List.mem_flatMap.mp h
  obtain ⟨i, -, rfl⟩ := List.mem_map.mp hcall
  have hid' : id ∈ [lit "call-" ++ natText i, lit "done-" ++ natText i] := hid
  simp only [List.mem_cons, List.not_mem_nil, or_false] at hid'
  rcases hid' with rfl | rfl
  · exact fun heq => absurd (List.head_eq_of_cons_eq heq) (by decide)
  · exact fun heq => absurd (List.head_eq_of_cons_eq heq) (by decide)

theorem plainCall_representable (i : Nat) :
    (∀ e ∈ (plainCall i).event, e.timestamp.Representable) ∧
      (plainCall i).completion.now.Representable := by
  have hnow : recordedEnv.now.Representable := by decide
  refine ⟨?_, hnow⟩
  rintro e he
  cases he
  exact hnow

/-- The run of these calls, on a store in which a run was created. -/
theorem exists_longRun {signer : Signer} (hkey : signer.publicKey ≠ [])
    (hown : ∀ m, c.verify signer.publicKey m (c.sign signer.privateKey m) = true) :
    ∃ s, createGenesisBlock c strict recordedEnv (initialState signer []) (lit "agent")
        = (.ok recordedEnv.runID, s) ∧
      maxEventRows < ((processAll c strict (newEventProcessor s recordedEnv.runID)
        ((List.range 100000).map plainCall)).db.rowsOf recordedEnv.runID).length ∧
      RowsPass c strict signer ((processAll c strict (newEventProcessor s recordedEnv.runID)
        ((List.range 100000).map plainCall)).db.orderedRows recordedEnv.runID) := by
  obtain ⟨s, hgen, hready, hids, hrows⟩ := createGenesisBlock_ok c strict
    (⟨by decide, by decide, by decide, hkey, nofun, rfl, rfl⟩ : GenesisOk recordedEnv signer
      (lit "agent")) [] nofun
  have hids' : (newEventProcessor s recordedEnv.runID).ids = [recordedEnv.id] := hids
  obtain ⟨-, hready', hmany⟩ := processAll_ok c strict ((List.range 100000).map plainCall)
    hready (fun call hcall => by
      obtain ⟨i, -, rfl⟩ := List.mem_map.mp hcall
      exact callOk_plainCall i) (nodup_plainCalls 100000) (fun id hid => by
      rw [hids', List.mem_singleton]
      exact plainCalls_fresh hid) (by
      rw [hrows, List.length_map, List.length_range]
      norm_num)
  have hpass := rowsPass_processAll c strict hgen ((List.range 100000).map plainCall) (by decide)
    (fun call hcall => by
      obtain ⟨i, -, rfl⟩ := List.mem_map.mp hcall
      exact plainCall_representable i) hown
  rw [hrows, List.length_map, List.length_range, hready'.inv.rows_eq] at hmany
  exact ⟨s, hgen, by unfold maxEventRows; omega, hpass⟩

/-- **A run of more than 100000 events is reported as valid**, with the number of events that were
read. This holds whatever the primitives are, if a key verifies its own signatures. -/
theorem verifyChain_misses_rows : ∃ (env : GenesisEnv) (calls : List Call),
    ∀ (c : Crypto) (strict : Bool) (signer : Signer), signer.publicKey ≠ [] →
      (∀ m, c.verify signer.publicKey m (c.sign signer.privateKey m) = true) →
      ∃ s, createGenesisBlock c strict env (initialState signer []) (lit "agent")
          = (.ok env.runID, s) ∧
        100000 < ((processAll c strict (newEventProcessor s env.runID) calls).db.rowsOf
          env.runID).length ∧
        verifyChain c strict
            (getAllEvents strict {} (processAll c strict (newEventProcessor s env.runID) calls).db)
            env.runID signer
          = .ok { valid := true, totalEvents := 100000 } ∧
        ¬ Covers c strict {} (processAll c strict (newEventProcessor s env.runID) calls).db
          env.runID signer := by
  refine ⟨recordedEnv, (List.range 100000).map plainCall, fun c strict signer hkey hown => ?_⟩
  obtain ⟨s, hgen, hlong, hpass⟩ := exists_longRun c strict hkey hown
  have hv := ((verifyChain_store c strict).mpr
    ⟨by decide, rfl, hpass.take c strict (by decide), rfl⟩).1
  rw [Nat.min_eq_left hlong.le] at hv
  refine ⟨s, hgen, hlong, hv, fun hcov => ?_⟩
  have htotal := (hcov.valid _ hv rfl).1
  exact absurd htotal hlong.ne

/-! ### A row behind the window -/

/-- A row of the run without a signature. -/
def unsignedRow (id : Bytes) (n : Nat) : EventRow :=
  { recordedRow with id, seqIndex := n, signature := [] }

theorem not_rowPasses_unsignedRow (signer : Signer) (id : Bytes) (n : Nat) :
    ¬ RowPasses c strict signer (unsignedRow id n) := by
  rintro ⟨e, hscan, hverify⟩
  have hsig : e.signature = [] := by
    obtain ⟨-, -, -, -, -, hsig⟩ := scanEvent_eq_ok hscan
    exact hsig
  exact ((verifyEvent_eq_ok c strict).mp hverify).1 hsig

/-- Such a row can be put at the end of the run, with the next number. -/
theorem exists_unsignedRow {db : DB} (hlog : rowView.IsLog (db.rowsOf recordedEnv.runID)) :
    ∃ (id : Bytes) (db' : DB), db'.runs = db.runs ∧
      db'.rowsOf recordedEnv.runID = db.rowsOf recordedEnv.runID ++
        [unsignedRow id (db.rowsOf recordedEnv.runID).length] ∧
      db'.orderedRows recordedEnv.runID = db'.rowsOf recordedEnv.runID ∧
      ((db'.rowsOf recordedEnv.runID).map EventRow.seqIndex).Nodup := by
  -- an id that is longer than all others
  have hfresh : 0 :: (db.events.map EventRow.id).flatten ∉ db.events.map EventRow.id := by
    intro hmem
    have hle := (List.sublist_flatten_of_mem hmem).length_le
    rw [List.length_cons] at hle
    omega
  let n := (db.rowsOf recordedEnv.runID).length
  let row := unsignedRow (0 :: (db.events.map EventRow.id).flatten) n
  obtain ⟨db', hadd⟩ : ∃ db', db.addEvent row = some db' := ⟨_, dif_neg hfresh⟩
  obtain ⟨-, hevents, hruns⟩ := DB.addEvent_eq_some hadd
  have hrows : db'.rowsOf recordedEnv.runID = db.rowsOf recordedEnv.runID ++ [row] :=
    DB.rowsOf_append hevents
  have hsorted : (db'.rowsOf recordedEnv.runID).Pairwise fun a b => a.seqIndex < b.seqIndex := by
    rw [hrows]
    refine List.pairwise_append.mpr ⟨hlog.pairwise_num, List.pairwise_singleton _ _, ?_⟩
    intro a ha b hb
    rw [List.mem_singleton.mp hb]
    exact (hlog.num_lt a ha).2
  refine ⟨_, db', hruns, hrows, (hsorted.imp fun hab => hab.le).insertionSort_eq, ?_⟩
  rw [List.Nodup, List.pairwise_map]
  exact hsorted.imp fun hab => hab.ne

theorem deleteFirst_detected_long : ∃ (db : DB) (k : Nat),
    Accepts recordedCrypto true (getAllEvents true {} db) recordedEnv.runID recordedSigner ∧
    0 < k ∧ k < (db.rowsOf recordedEnv.runID).length ∧
    StartsAtGenesis true db recordedEnv.runID ∧
    ((db.rowsOf recordedEnv.runID).map EventRow.seqIndex).Nodup ∧
    ¬ Accepts recordedCrypto true (getAllEvents true {} (db.deleteFirst recordedEnv.runID k))
      recordedEnv.runID recordedSigner := by
  obtain ⟨s, hgen, hlong, hpass⟩ := @exists_longRun recordedCrypto true recordedSigner (by decide)
    recordedSigner_own
  have hinv := runInv_processAll recordedCrypto true hgen ((List.range 100000).map plainCall)
  have hlog := hinv.isLog
  have hstart := startsAtGenesis_processAll recordedCrypto true hgen
    ((List.range 100000).map plainCall)
  rw [hinv.rows_eq] at hlog
  generalize (processAll recordedCrypto true (newEventProcessor s recordedEnv.runID)
    ((List.range 100000).map plainCall)).db = db at hlong hpass hlog hstart
  obtain ⟨id, db', hruns, hrows, hordered, hnums⟩ := exists_unsignedRow hlog
  rw [DB.orderedRows_of_isLog hlog] at hpass
  have hlen : (db'.rowsOf recordedEnv.runID).length
      = (db.rowsOf recordedEnv.runID).length + 1 := by
    rw [hrows, List.length_append, List.length_singleton]
  have hacc : Accepts recordedCrypto true (getAllEvents true {} db') recordedEnv.runID
      recordedSigner := by
    rw [accepts_store, hordered, hrows, List.take_append_of_le_length hlong.le]
    exact ⟨by decide, hpass.take recordedCrypto true (by decide)⟩
  have hstart' : StartsAtGenesis true db' recordedEnv.runID := by
    obtain ⟨row, agentName, genesisHash, pubKey, hhead, hinfo, hrow⟩ := hstart
    refine ⟨row, agentName, genesisHash, pubKey, ?_, ?_, hrow⟩
    · rw [DB.orderedRows_of_isLog hlog] at hhead
      rw [hordered, hrows, List.head?_append, hhead, Option.some_or]
    · rw [getRunInfo_eq_ok, hruns]
      exact (getRunInfo_eq_ok true).mp hinfo
  -- the window ends with the row without a signature
  obtain ⟨k, hk, hsum⟩ : ∃ k, 0 < k ∧ k + maxEventRows = (db.rowsOf recordedEnv.runID).length + 1 :=
    ⟨(db.rowsOf recordedEnv.runID).length + 1 - maxEventRows, by omega, by omega⟩
  have hfails : FailsBehind recordedCrypto true recordedSigner
      (db'.orderedRows recordedEnv.runID) k := by
    refine ⟨(db.rowsOf recordedEnv.runID).length,
      unsignedRow id (db.rowsOf recordedEnv.runID).length, ?_, hlong.le, ?_, by omega,
      Or.inl (not_rowPasses_unsignedRow recordedCrypto true recordedSigner id _)⟩
    · rw [hordered, hrows, List.getElem?_concat_length]
    · have : 0 < maxEventRows := by decide
      omega
  have hlt : k < (db'.rowsOf recordedEnv.runID).length := by
    have : 0 < maxEventRows := by decide
    omega
  exact ⟨db', k, hacc, hk, hlt, hstart', hnums,
    (deleteFirst_detected_iff recordedCrypto true hacc hk hlt).1.mpr hfails⟩

end Logryph
