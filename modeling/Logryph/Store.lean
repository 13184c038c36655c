import Logryph.Crypto
import Mathlib.Data.List.Sort

/-!
# The event store

The two tables and the queries on them. Of SQLite it is assumed that a failed statement changes
nothing, that a successful `INSERT` adds exactly its row, and that `COUNT` and `ORDER BY` are
exact; rows of equal `seq_index` come in the order in which they were inserted. That the driver
fails is an input of each call.

* `storeEvent_cases` — a call that fails changes nothing, one that succeeds adds one row
* `normalForm_rowPayload` — the payload that a stored row denotes has the normal form of the
  payload of the event it was written for
-/

namespace Logryph

open Infra

/-- A row of `events`. -/
structure EventRow where
  id : Bytes
  runID : Bytes
  seqIndex : Int
  timestamp : Bytes
  actor : Bytes
  eventType : Bytes
  method : Bytes
  params : Bytes
  response : Bytes
  taskID : Bytes
  taskState : Bytes
  parentID : Bytes
  policyID : Bytes
  riskLevel : Bytes
  prevHash : Bytes
  currentHash : Bytes
  signature : Bytes
  deriving DecidableEq

/-- A row of `runs`. -/
structure RunRow where
  id : Bytes
  agentName : Bytes
  genesisHash : Bytes
  ledgerPubKey : Bytes
  deriving DecidableEq

/-- The database, rows in the order of insertion. -/
structure DB where
  runs : List RunRow
  events : List EventRow
  runs_nodup : (runs.map RunRow.id).Nodup
  events_nodup : (events.map EventRow.id).Nodup

namespace DB

def empty : DB := ⟨[], [], List.nodup_nil, List.nodup_nil⟩

/-- `WHERE run_id = ?`. -/
def rowsOf (db : DB) (runID : Bytes) : List EventRow := db.events.filter (·.runID = runID)

/-- `WHERE run_id = ? ORDER BY seq_index ASC`. -/
def orderedRows (db : DB) (runID : Bytes) : List EventRow :=
  (db.rowsOf runID).insertionSort (·.seqIndex ≤ ·.seqIndex)

/-- `WHERE run_id = ? ORDER BY seq_index DESC LIMIT 1`. -/
def lastRow (db : DB) (runID : Bytes) : Option EventRow :=
  ((db.rowsOf runID).insertionSort fun a b => b.seqIndex ≤ a.seqIndex).head?

/-- `INSERT INTO events`. The primary key is unique. -/
def addEvent (db : DB) (row : EventRow) : Option DB :=
  if h : row.id ∈ db.events.map EventRow.id then none
  else some { db with
    events := db.events ++ [row]
    events_nodup := by
      rw [List.map_append]
      exact List.nodup_append.mpr ⟨db.events_nodup, List.nodup_singleton _, fun a ha b hb => by
        rw [List.mem_singleton.mp hb]
        exact fun heq => h (heq ▸ ha)⟩ }

/-- `INSERT INTO runs`. -/
def addRun (db : DB) (row : RunRow) : Option DB :=
  if h : row.id ∈ db.runs.map RunRow.id then none
  else some { db with
    runs := db.runs ++ [row]
    runs_nodup := by
      rw [List.map_append]
      exact List.nodup_append.mpr ⟨db.runs_nodup, List.nodup_singleton _, fun a ha b hb => by
        rw [List.mem_singleton.mp hb]
        exact fun heq => h (heq ▸ ha)⟩ }

end DB

variable (strict : Bool)

/-! ## Writing -/

/-- The columns that `StoreEvent` passes on. -/
def encodeEvent (e : Event) : Except Fault EventRow :=
  match marshal e.params.value with
  | none => .error (.error (lit "marshaling params: unsupported value"))
  | some params =>
    match marshal e.response.value with
    | none => .error (.error (lit "marshaling response: unsupported value"))
    | some response => .ok {
        id := e.id, runID := e.runID, seqIndex := e.seqIndex, timestamp := e.timestampText,
        actor := e.actor, eventType := e.eventType, method := e.method, params, response,
        taskID := e.taskID, taskState := e.taskState, parentID := e.parentID,
        policyID := e.policyID, riskLevel := e.riskLevel, prevHash := e.prevHash,
        currentHash := e.currentHash, signature := e.signature }

/-- The checks of `InsertEvent`. -/
def insertChecks (row : EventRow) : Except Fault Unit := do
  check strict (row.id ≠ []) (lit "event id must not be empty")
  check strict (row.runID ≠ []) (lit "run id must not be empty")
  check strict (row.currentHash ≠ []) (lit "current hash must not be empty")
  check strict (row.signature ≠ []) (lit "signature must not be empty")

/-- `InsertEvent`. The driver rejects a sequence number with the high bit set. -/
def insertEvent (fault : Option Fault) (db : DB) (row : EventRow) : Except Fault Unit × DB :=
  match insertChecks strict row with
  | .error f => (.error f, db)
  | .ok () =>
    match fault with
    | some f => (.error (f.wrap (lit "inserting event")), db)
    | none =>
      if 2 ^ 63 ≤ row.seqIndex then
        (.error (.error (lit "inserting event: uint64 values with high bit set are not supported")),
          db)
      else
        match db.addEvent row with
        | none => (.error (.error (lit "inserting event: UNIQUE constraint failed: events.id")), db)
        | some db' => (.ok (), db')

/-- `StoreEvent`. -/
def storeEvent (fault : Option Fault) (db : DB) (e : Event) : Except Fault Unit × DB :=
  match encodeEvent e with
  | .error f => (.error f, db)
  | .ok row => insertEvent strict fault db row

/-- `InsertRun`. -/
def insertRun (fault : Option Fault) (db : DB) (id agentName genesisHash ledgerPubKey : Bytes) :
    Except Fault Unit × DB :=
  let checks : Except Fault Unit := do
    check strict (id ≠ []) (lit "run id must not be empty")
    check strict (agentName ≠ []) (lit "agent name must not be empty")
    check strict (genesisHash ≠ []) (lit "genesis hash must not be empty")
    check strict (ledgerPubKey ≠ []) (lit "ledger pub key must not be empty")
  match checks with
  | .error f => (.error f, db)
  | .ok () =>
    match fault with
    | some f => (.error (f.wrap (lit "inserting run")), db)
    | none =>
      match db.addRun ⟨id, agentName, genesisHash, ledgerPubKey⟩ with
      | none => (.error (.error (lit "inserting run: UNIQUE constraint failed: runs.id")), db)
      | some db' => (.ok (), db')

/-! ## Queries of the processor -/

/-- `ledger.RunStats`. -/
structure RunStats where
  runID : Bytes
  totalEvents : Nat
  callCount : Nat
  blockedCount : Nat
  riskBreakdown : SortedMap Bytes Nat

def maxRiskLevels : Nat := 32

/-- `SELECT risk_level, COUNT(*) … WHERE risk_level != '' GROUP BY risk_level`. -/
def riskGroups (rows : List EventRow) : List (Bytes × Nat) :=
  (rows.filter (·.riskLevel ≠ [])).foldl
    (fun m row => mapInsert row.riskLevel ((mapGet row.riskLevel m).getD 0 + 1) m) []

/-- `GetRunStats`. -/
def getRunStats (fault : Option Fault) (db : DB) (runID : Bytes) : Except Fault RunStats := do
  check strict (runID ≠ []) (lit "runID must not be empty")
  match fault with
  | some f => .error f
  | none =>
    let rows := db.rowsOf runID
    .ok {
      runID
      totalEvents := rows.length
      callCount := rows.countP (·.eventType = lit "tool_call")
      blockedCount := rows.countP (·.eventType = lit "blocked")
      riskBreakdown := SortedMap.ofList ((riskGroups rows).take maxRiskLevels) }

/-- `GetLastEvent`. Without a row it returns `0` and the empty hash. -/
def getLastEvent (fault : Option Fault) (db : DB) (runID : Bytes) : Except Fault (Nat × Bytes) := do
  check strict (runID ≠ []) (lit "runID must not be empty")
  match fault with
  | some f => .error (f.wrap (lit "querying last event"))
  | none =>
    match db.lastRow runID with
    | none => .ok (0, [])
    | some row =>
      if row.seqIndex < 0 then .error (.error (lit "querying last event: converting seq_index"))
      else .ok (row.seqIndex.toNat, row.currentHash)

/-! ## Reading a run -/

/-- The map that a `params` or `response` column is read as. A text that is no JSON object is
only logged, and leaves the nil map. -/
def decodeColumn (text : Bytes) : Object :=
  if text = [] ∨ text = lit "null" then none else (unmarshalObject text).getD none

/-- A timestamp that cannot be parsed leaves the zero time. -/
def decodeTimestamp (text : Bytes) : Time := (Time.parse (runes text)).getD .zero

/-- One row of `GetAllEvents`. `was_blocked` has no column. -/
def scanEvent (row : EventRow) : Except Fault Event :=
  if row.seqIndex < 0 then .error (.error (lit "scanning event: converting seq_index"))
  else .ok {
    id := row.id, runID := row.runID, seqIndex := row.seqIndex.toNat,
    timestamp := decodeTimestamp row.timestamp, actor := row.actor, eventType := row.eventType,
    method := row.method, params := decodeColumn row.params,
    response := decodeColumn row.response, taskID := row.taskID, taskState := row.taskState,
    parentID := row.parentID, policyID := row.policyID, riskLevel := row.riskLevel,
    prevHash := row.prevHash, currentHash := row.currentHash, signature := row.signature }

def scanEvents : List EventRow → Except Fault (List Event)
  | [] => .ok []
  | row :: rows => do
    let e ← scanEvent row
    let es ← scanEvents rows
    .ok (e :: es)

def maxEventRows : Nat := 100000

/-- Where reading a result set can fail. -/
structure ReadFaults where
  query : Option Bytes := none
  rows : Option Bytes := none
  close : Option Bytes := none

/-- `GetAllEvents`. The loop stops after `maxEventRows` rows, without an error. -/
def getAllEvents (faults : ReadFaults) (db : DB) (runID : Bytes) : Except Fault (List Event) := do
  check strict (runID ≠ []) (lit "runID must not be empty")
  match faults.query with
  | some msg => .error (.error (lit "querying events: " ++ msg))
  | none =>
    let events ← scanEvents ((db.orderedRows runID).take maxEventRows)
    check strict faults.rows.isNone (lit "get all events rows error: " ++ faults.rows.getD [])
    match faults.close with
    | some msg => .error (.error (lit "closing events rows: " ++ msg))
    | none => .ok events

/-- `GetRunInfo`. -/
def getRunInfo (fault : Option Fault) (db : DB) (runID : Bytes) :
    Except Fault (Bytes × Bytes × Bytes) := do
  check strict (runID ≠ []) (lit "runID must not be empty")
  match fault with
  | some f => .error (f.wrap (lit "querying run info"))
  | none =>
    match db.runs.find? (·.id = runID) with
    | none => .error (.error (lit "querying run info: sql: no rows in result set"))
    | some row => .ok (row.agentName, row.genesisHash, row.ledgerPubKey)

/-- `HasRuns`. -/
def hasRuns (fault : Option Fault) (db : DB) : Except Fault Bool :=
  match fault with
  | some f => .error (f.wrap (lit "checking runs"))
  | none => .ok !db.runs.isEmpty

/-- `GetRunID`, the most recent run. When a run was started is not kept, so which one is the most
recent is an input. Without a run the id is empty. -/
def getRunID (fault : Option Fault) (latest : Nat) (db : DB) : Except Fault Bytes :=
  match fault with
  | some f => .error (f.wrap (lit "querying run ID"))
  | none =>
    match db.runs[latest % db.runs.length]? with
    | none => .ok []
    | some run => .ok run.id

/-- The payload that a row denotes, with the timestamp as it is stored. -/
def EventRow.payload (row : EventRow) : Value :=
  Logryph.payload row.id row.runID row.seqIndex.toNat row.timestamp row.actor row.eventType
    row.method (decodeColumn row.params) (decodeColumn row.response) row.taskID row.taskState
    row.parentID row.policyID row.riskLevel

/-! ## What a write does -/

namespace DB

theorem addEvent_eq_some {db db' : DB} {row : EventRow} (h : db.addEvent row = some db') :
    row.id ∉ db.events.map EventRow.id ∧ db'.events = db.events ++ [row] ∧ db'.runs = db.runs := by
  unfold addEvent at h
  split at h
  · cases h
  · next hid =>
    cases h
    exact ⟨hid, rfl, rfl⟩

theorem addRun_eq_some {db db' : DB} {row : RunRow} (h : db.addRun row = some db') :
    db'.runs = db.runs ++ [row] ∧ db'.events = db.events := by
  unfold addRun at h
  split at h
  · cases h
  · cases h
    exact ⟨rfl, rfl⟩

theorem rowsOf_append {db db' : DB} {row : EventRow} (h : db'.events = db.events ++ [row]) :
    db'.rowsOf row.runID = db.rowsOf row.runID ++ [row] := by
  rw [rowsOf, h, List.filter_append, rowsOf]
  simp

theorem rowsOf_congr {db db' : DB} (h : db'.events = db.events) (runID : Bytes) :
    db'.rowsOf runID = db.rowsOf runID := by
  rw [rowsOf, h, rowsOf]

end DB

theorem insertChecks_eq_ok {row : EventRow} {u : Unit} : insertChecks strict row = .ok u ↔
    row.id ≠ [] ∧ row.runID ≠ [] ∧ row.currentHash ≠ [] ∧ row.signature ≠ [] := by
  unfold insertChecks
  simp only [bind_eq_ok, check_eq_ok, decide_eq_true_eq, exists_const]

/-- **A failed `StoreEvent` changes nothing, a successful one adds the event's row.** -/
theorem storeEvent_cases (fault : Option Fault) (db : DB) (e : Event) :
    (∃ f, storeEvent strict fault db e = (.error f, db)) ∨
      ∃ row db', encodeEvent e = .ok row ∧ insertChecks strict row = .ok () ∧ fault = none ∧
        row.seqIndex < 2 ^ 63 ∧ db.addEvent row = some db' ∧
        storeEvent strict fault db e = (.ok (), db') := by
  unfold storeEvent
  cases henc : encodeEvent e with
  | error f => exact Or.inl ⟨f, rfl⟩
  | ok row =>
    dsimp only
    unfold insertEvent
    cases hck : insertChecks strict row with
    | error f => exact Or.inl ⟨f, rfl⟩
    | ok u =>
      cases fault with
      | some f => exact Or.inl ⟨_, rfl⟩
      | none =>
        dsimp only
        split
        · exact Or.inl ⟨_, rfl⟩
        · next hlt =>
          cases hadd : db.addEvent row with
          | none => exact Or.inl ⟨_, rfl⟩
          | some db' => exact Or.inr ⟨row, db', rfl, hck, rfl, not_le.mp hlt, hadd, rfl⟩

theorem insertRun_cases (fault : Option Fault) (db : DB) (id agent hash key : Bytes) :
    (∃ f, insertRun strict fault db id agent hash key = (.error f, db)) ∨
      ∃ db', db.addRun ⟨id, agent, hash, key⟩ = some db' ∧
        insertRun strict fault db id agent hash key = (.ok (), db') := by
  unfold insertRun
  dsimp only
  split
  · exact Or.inl ⟨_, rfl⟩
  · cases fault with
    | some f => exact Or.inl ⟨_, rfl⟩
    | none =>
      dsimp only
      cases hadd : db.addRun ⟨id, agent, hash, key⟩ with
      | none => exact Or.inl ⟨_, rfl⟩
      | some db' => exact Or.inr ⟨db', rfl, rfl⟩

theorem encodeEvent_eq_ok {e : Event} {row : EventRow} (h : encodeEvent e = .ok row) :
    ∃ params response, marshal e.params.value = some params ∧
      marshal e.response.value = some response ∧
      row = {
        id := e.id, runID := e.runID, seqIndex := e.seqIndex, timestamp := e.timestampText,
        actor := e.actor, eventType := e.eventType, method := e.method, params, response,
        taskID := e.taskID, taskState := e.taskState, parentID := e.parentID,
        policyID := e.policyID, riskLevel := e.riskLevel, prevHash := e.prevHash,
        currentHash := e.currentHash, signature := e.signature } := by
  unfold encodeEvent at h
  split at h
  · cases h
  · next params hp =>
    split at h
    · cases h
    · next response hr =>
      cases h
      exact ⟨params, response, hp, hr, rfl⟩

/-! ## What a column is read as -/

theorem decodeObject_value {j : Json} {o : Object} (h : j.decodeObject = some o) :
    j.decode = some o.value := by
  cases j with
  | null =>
    cases h
    rfl
  | obj ms =>
    rw [Json.decodeObject, Option.map_eq_some_iff] at h
    obtain ⟨l, hl, rfl⟩ := h
    rw [Json.decode, hl]
    rfl
  | bool b => cases h
  | num d => cases h
  | negZero => cases h
  | str s => cases h
  | arr xs => cases h

/-- The tree of a map is read in a place for a map. -/
theorem exists_decodeObject {o : Object} {j : Json} {w : Value} (htree : o.value.tree = some j)
    (hdec : j.decode = some w) : ∃ o', j.decodeObject = some o' ∧ o'.value = w := by
  cases o with
  | none =>
    cases htree
    cases hdec
    exact ⟨none, rfl, rfl⟩
  | some m =>
    rw [Object.value, Value.tree, Option.map_eq_some_iff] at htree
    obtain ⟨l, -, rfl⟩ := htree
    rw [Json.decode, Option.map_eq_some_iff] at hdec
    obtain ⟨l', hl', rfl⟩ := hdec
    refine ⟨some (SortedMap.ofList l'), ?_, rfl⟩
    rw [Json.decodeObject, hl']
    rfl

theorem render_ne_null {j : Json} (h : j ≠ .null) :
    utf8 (Json.render goEscape j) ≠ lit "null" := by
  intro heq
  have : Json.render goEscape j = Json.render goEscape .null := utf8_injective heq
  exact h (Json.render_injective escapeOk_goEscape this)

theorem utf8_render_ne_nil (j : Json) : utf8 (Json.render goEscape j) ≠ [] := by
  obtain ⟨c, cs, hj, -⟩ := Json.render_head goEscape j
  rw [hj, utf8_cons]
  intro h
  exact String.utf8EncodeChar_ne_nil (List.append_eq_nil_iff.mp h).1

/-- **A stored map is read back** as what it is written as. -/
theorem decodeColumn_marshal {o : Object} {w : Value} {text : Bytes}
    (hm : marshal o.value = some text) (hw : ReadsAs o.value w) :
    (decodeColumn text).value = w := by
  obtain ⟨j, htree, hdec, hdepth⟩ := hw
  rw [marshal, htree, Option.map_some, Option.some.injEq] at hm
  subst hm
  obtain ⟨o', hobj, rfl⟩ := exists_decodeObject htree hdec
  unfold decodeColumn
  by_cases hnull : j = .null
  · subst hnull
    cases hobj
    have hlit : utf8 (Json.render goEscape .null) = lit "null" := rfl
    rw [if_pos (Or.inr hlit)]
  · have hread := readText_render j
    rw [if_pos hdepth.le] at hread
    rw [if_neg (not_or.mpr ⟨utf8_render_ne_nil j, render_ne_null hnull⟩), unmarshalObject, hread,
      Option.bind_some, hobj]
    rfl

theorem reads_decodeColumn {o : Object} {w : Value} {text : Bytes} (hw : Reads o.value w)
    (hm : marshal o.value = some text) : Reads (decodeColumn text).value w := by
  obtain ⟨u, hu, rfl⟩ := hw
  rw [decodeColumn_marshal hm hu]
  exact hu.self.reads

/-- **The payload of a stored row is the payload of its event**, in normal form. -/
theorem normalForm_rowPayload {e : Event} {row : EventRow} {w : Value}
    (henc : encodeEvent e = .ok row) (h : normalForm e.payload = some w) :
    normalForm row.payload = some w := by
  obtain ⟨params, response, hp, hr, rfl⟩ := encodeEvent_eq_ok henc
  obtain ⟨x, p, r, hx, hpw, hrw, rfl⟩ := normalForm_payload.mp h
  refine normalForm_payload_of hx ?_ ?_
  · show Reads (decodeColumn params).value p
    exact reads_decodeColumn hpw hp
  · show Reads (decodeColumn response).value r
    exact reads_decodeColumn hrw hr

end Logryph
