import Logryph.Audit

/-!
# The other read paths

Besides `GetAllEvents`, four queries return events: by id, the most recent ones, by task, and by
risk. Each has its own copy of the loop over the rows. All of them select the seventeen columns, and
none of the copies decodes the timestamp, the parameters and the response. The one for risks drops
the task and its state as well.

* `ReadPath.mem_rows` — whatever a path returns was read from a row
* `readPath_agrees_iff` — an event is the one of `GetAllEvents` exactly when the columns that the
  path drops have nothing in them
-/

namespace Logryph

open Infra

/-! ## Rows -/

/-- `Scan` into the fields and variables of a read path, and the three fields that each of them sets
next. -/
def scanColumns (row : EventRow) : Except Fault Event :=
  if row.seqIndex < 0 then .error (.error (lit "converting seq_index"))
  else .ok {
    id := row.id, runID := row.runID, seqIndex := row.seqIndex.toNat, actor := row.actor,
    eventType := row.eventType, method := row.method, parentID := row.parentID,
    policyID := row.policyID, riskLevel := row.riskLevel, prevHash := row.prevHash,
    currentHash := row.currentHash, signature := row.signature }

/-- A row of `GetRecentEvents`, `GetEventByID` and `GetEventsByTaskID`. -/
def scanWithTask (context : Bytes) (row : EventRow) : Except Fault Event := do
  let e ← inContext context (scanColumns row)
  .ok { e with taskID := row.taskID, taskState := row.taskState }

def scanAll (scan : EventRow → Except Fault Event) : List EventRow → Except Fault (List Event)
  | [] => .ok []
  | row :: rows => do
    let e ← scan row
    let es ← scanAll scan rows
    .ok (e :: es)

variable (strict : Bool)

/-- The part of a query after its checks: the loop over the rows, `rows.Err()` and `rows.Close()`.
The texts go before the error of each of them. -/
def readRows (scan : EventRow → Except Fault Event) (query rowsError closing : Bytes)
    (faults : ReadFaults) (rows : List EventRow) : Except Fault (List Event) :=
  match faults.query with
  | some msg => .error (.error (query ++ msg))
  | none => do
    let events ← scanAll scan (rows.take maxEventRows)
    check strict faults.rows.isNone (rowsError ++ faults.rows.getD [])
    match faults.close with
    | some msg => .error (.error (closing ++ msg))
    | none => .ok events

/-! ## Queries -/

namespace DB

/-- `WHERE run_id = ? ORDER BY seq_index DESC LIMIT ?`. -/
def recentRows (db : DB) (runID : Bytes) (limit : Nat) : List EventRow :=
  ((db.rowsOf runID).insertionSort fun a b => b.seqIndex ≤ a.seqIndex).take limit

/-- `WHERE task_id = ? ORDER BY seq_index ASC`. -/
def taskRows (db : DB) (taskID : Bytes) : List EventRow :=
  (db.events.filter (·.taskID = taskID)).insertionSort (·.seqIndex ≤ ·.seqIndex)

/-- `WHERE risk_level IN ('high', 'critical') ORDER BY timestamp DESC`. Texts are compared by their
bytes. -/
def riskRows (db : DB) : List EventRow :=
  let rows := db.events.filter fun row =>
    row.riskLevel = lit "high" ∨ row.riskLevel = lit "critical"
  rows.insertionSort fun a b => b.timestamp ≤ a.timestamp

end DB

/-- `GetRecentEvents`. -/
def getRecentEvents (faults : ReadFaults) (db : DB) (runID : Bytes) (limit : Int) :
    Except Fault (List Event) := do
  check strict (runID ≠ []) (lit "runID must not be empty")
  check strict (0 < limit) (lit "limit must be positive")
  readRows strict (scanWithTask (lit "scanning event")) (lit "querying recent events: ")
    (lit "recent events rows error: ") (lit "closing recent events rows: ") faults
    (db.recentRows runID limit.toNat)

/-- `GetEventByID`. -/
def getEventByID (fault : Option Bytes) (db : DB) (eventID : Bytes) : Except Fault Event := do
  check strict (eventID ≠ []) (lit "eventID must not be empty")
  match fault with
  | some msg => .error (.error (lit "querying event: " ++ msg))
  | none =>
    match db.events.find? (·.id = eventID) with
    | none => .error (.error (lit "querying event: sql: no rows in result set"))
    | some row => scanWithTask (lit "querying event") row

/-- `GetEventsByTaskID`. -/
def getEventsByTaskID (faults : ReadFaults) (db : DB) (taskID : Bytes) :
    Except Fault (List Event) := do
  check strict (taskID ≠ []) (lit "taskID must not be empty")
  readRows strict (scanWithTask (lit "scanning event")) (lit "querying task events: ")
    (lit "task events rows error: ") (lit "closing task events rows: ") faults (db.taskRows taskID)

/-- `GetRiskEvents`. It passes errors on as they are, and never sets the task. -/
def getRiskEvents (faults : ReadFaults) (db : DB) : Except Fault (List Event) :=
  readRows strict scanColumns [] (lit "risk events rows error: ")
    (lit "closing risk events rows: ") faults db.riskRows

/-! ## What they return -/

/-- A read path other than `GetAllEvents`, with its arguments. -/
inductive ReadPath where
  | byID (eventID : Bytes)
  | recent (runID : Bytes) (limit : Int)
  | byTask (taskID : Bytes)
  | risk

namespace ReadPath

/-- The events that the path returns. -/
def read (faults : ReadFaults) (db : DB) : ReadPath → Except Fault (List Event)
  | byID eventID => (getEventByID strict faults.query db eventID).map fun e => [e]
  | recent runID limit => getRecentEvents strict faults db runID limit
  | byTask taskID => getEventsByTaskID strict faults db taskID
  | risk => getRiskEvents strict faults db

/-- The event that the path makes of a row. -/
def eventOf (row : EventRow) : ReadPath → Event
  | risk => {
      id := row.id, runID := row.runID, seqIndex := row.seqIndex.toNat, actor := row.actor,
      eventType := row.eventType, method := row.method, parentID := row.parentID,
      policyID := row.policyID, riskLevel := row.riskLevel, prevHash := row.prevHash,
      currentHash := row.currentHash, signature := row.signature }
  | _ => {
      id := row.id, runID := row.runID, seqIndex := row.seqIndex.toNat, actor := row.actor,
      eventType := row.eventType, method := row.method, taskID := row.taskID,
      taskState := row.taskState, parentID := row.parentID, policyID := row.policyID,
      riskLevel := row.riskLevel, prevHash := row.prevHash, currentHash := row.currentHash,
      signature := row.signature }

end ReadPath

theorem scanColumns_eq_ok {row : EventRow} {e : Event} (h : scanColumns row = .ok e) :
    e = ReadPath.risk.eventOf row := by
  unfold scanColumns at h
  split at h
  · cases h
  · cases h
    rfl

theorem scanWithTask_eq_ok {context : Bytes} {row : EventRow} {e : Event} (eventID : Bytes)
    (h : scanWithTask context row = .ok e) : e = (ReadPath.byID eventID).eventOf row := by
  rw [scanWithTask, bind_eq_ok] at h
  obtain ⟨e', hscan, h⟩ := h
  rw [inContext_eq_ok] at hscan
  cases h
  rw [scanColumns_eq_ok hscan]
  rfl

/-- The rows are read one by one. -/
theorem forall₂_of_scanAll {scan : EventRow → Except Fault Event} :
    ∀ {rows : List EventRow} {es : List Event}, scanAll scan rows = .ok es →
      List.Forall₂ (fun row e => scan row = .ok e) rows es
  | [], es, h => by
    cases h
    exact .nil
  | row :: rows, es, h => by
    rw [scanAll, bind_eq_ok] at h
    obtain ⟨e₁, hscan, h⟩ := h
    rw [bind_eq_ok] at h
    obtain ⟨es', hrest, h⟩ := h
    cases h
    exact .cons hscan (forall₂_of_scanAll hrest)

theorem forall₂_of_readRows {scan : EventRow → Except Fault Event} {query rowsError closing : Bytes}
    {faults : ReadFaults} {rows : List EventRow} {es : List Event}
    (h : readRows strict scan query rowsError closing faults rows = .ok es) :
    List.Forall₂ (fun row e => scan row = .ok e) (rows.take maxEventRows) es := by
  unfold readRows at h
  split at h
  · cases h
  · rw [bind_eq_ok] at h
    obtain ⟨es', hscan, h⟩ := h
    rw [bind_eq_ok] at h
    obtain ⟨-, -, h⟩ := h
    split at h
    · cases h
    · cases h
      exact forall₂_of_scanAll hscan

theorem mem_of_readRows {scan : EventRow → Except Fault Event} {query rowsError closing : Bytes}
    {faults : ReadFaults} {rows : List EventRow} {es : List Event}
    (h : readRows strict scan query rowsError closing faults rows = .ok es) :
    ∀ e ∈ es, ∃ row ∈ rows, scan row = .ok e := by
  intro e he
  obtain ⟨row, hrow, hscan⟩ := mem_of_forall₂_right (forall₂_of_readRows strict h) he
  exact ⟨row, List.mem_of_mem_take hrow, hscan⟩

theorem row_of_getEventByID {fault : Option Bytes} {db : DB} {eventID : Bytes} {e : Event}
    (h : getEventByID strict fault db eventID = .ok e) :
    ∃ row ∈ db.events, e = (ReadPath.byID eventID).eventOf row := by
  unfold getEventByID at h
  rw [bind_eq_ok] at h
  obtain ⟨-, -, h⟩ := h
  split at h
  · cases h
  · split at h
    · cases h
    · next row hrow =>
      exact ⟨row, List.mem_of_find?_eq_some hrow, scanWithTask_eq_ok eventID h⟩

/-- **Whatever a path returns was read from a row**, as the path does it. -/
theorem ReadPath.mem_rows {path : ReadPath} {faults : ReadFaults} {db : DB} {es : List Event}
    (h : path.read strict faults db = .ok es) :
    ∀ e ∈ es, ∃ row ∈ db.events, e = path.eventOf row := by
  intro e he
  cases path with
  | byID eventID =>
    cases hget : getEventByID strict faults.query db eventID with
    | error f =>
      rw [read, hget] at h
      cases h
    | ok e' =>
      rw [read, hget] at h
      cases h
      cases List.mem_singleton.mp he
      exact row_of_getEventByID strict hget
  | recent runID limit =>
    rw [read, getRecentEvents, bind_eq_ok] at h
    obtain ⟨-, -, h⟩ := h
    rw [bind_eq_ok] at h
    obtain ⟨-, -, h⟩ := h
    obtain ⟨row, hrow, hscan⟩ := mem_of_readRows strict h e he
    have hmem : row ∈ db.rowsOf runID := (List.mem_insertionSort _).mp (List.mem_of_mem_take hrow)
    exact ⟨row, (List.mem_filter.mp hmem).1, scanWithTask_eq_ok [] hscan⟩
  | byTask taskID =>
    rw [read, getEventsByTaskID, bind_eq_ok] at h
    obtain ⟨-, -, h⟩ := h
    obtain ⟨row, hrow, hscan⟩ := mem_of_readRows strict h e he
    have hmem := (List.mem_insertionSort _).mp hrow
    exact ⟨row, (List.mem_filter.mp hmem).1, scanWithTask_eq_ok [] hscan⟩
  | risk =>
    obtain ⟨row, hrow, hscan⟩ := mem_of_readRows strict h e he
    have hmem := (List.mem_insertionSort _).mp hrow
    exact ⟨row, (List.mem_filter.mp hmem).1, scanColumns_eq_ok hscan⟩

/-! ## Agreement with `GetAllEvents` -/

/-- The text is not a JSON object. -/
def NoObject (text : Bytes) : Prop := ∀ m, unmarshalObject text ≠ some (some m)

theorem decodeColumn_eq_none {text : Bytes} : decodeColumn text = none ↔ NoObject text := by
  unfold decodeColumn NoObject
  split
  · next hblank =>
    have hempty : ((unmarshalObject []).any Option.isSome) = false := by decide +kernel
    have hnull : ((unmarshalObject (lit "null")).any Option.isSome) = false := by decide +kernel
    refine iff_of_true rfl fun m hm => ?_
    rcases hblank with rfl | rfl
    · rw [hm] at hempty
      cases hempty
    · rw [hm] at hnull
      cases hnull
  · rcases unmarshalObject text with _ | _ | m
    · simp
    · simp
    · simp

/-- The columns that the path does not decode have nothing in them. -/
structure ReadPath.Blank (path : ReadPath) (row : EventRow) : Prop where
  timestamp : Time.parse (runes row.timestamp) = none ∨
    Time.parse (runes row.timestamp) = some .zero
  params : NoObject row.params
  response : NoObject row.response
  task : path = .risk → row.taskID = [] ∧ row.taskState = []

theorem decodeTimestamp_eq_zero {text : Bytes} : decodeTimestamp text = .zero ↔
    Time.parse (runes text) = none ∨ Time.parse (runes text) = some .zero := by
  unfold decodeTimestamp
  cases Time.parse (runes text) with
  | none => simp
  | some t => simp

/-- The event of a path against the one of `GetAllEvents`, for one row. -/
theorem ReadPath.eventOf_eq_iff {path : ReadPath} {row : EventRow} {e : Event}
    (h : scanEvent row = .ok e) : path.eventOf row = e ↔ path.Blank row := by
  unfold scanEvent at h
  split at h
  · cases h
  · cases h
    have hblank : path.Blank row ↔ decodeTimestamp row.timestamp = .zero ∧
        decodeColumn row.params = none ∧ decodeColumn row.response = none ∧
        (path = .risk → row.taskID = [] ∧ row.taskState = []) := by
      rw [decodeTimestamp_eq_zero, decodeColumn_eq_none, decodeColumn_eq_none]
      exact ⟨fun h => ⟨h.timestamp, h.params, h.response, h.task⟩,
        fun ⟨h₁, h₂, h₃, h₄⟩ => ⟨h₁, h₂, h₃, h₄⟩⟩
    rw [hblank]
    cases path with
    | risk => simp [eventOf, eq_comm]
    | _ => simp [eventOf, eq_comm]

/-- **The read paths agree on a row exactly when they drop nothing.** For every store and row, the
event that a path returns for the row is the one that `GetAllEvents` returns for it if and only if
the timestamp is none or the zero time, neither the parameters nor the response is an object, and,
for the risks, there is no task and no state. -/
theorem readPath_agrees_iff {path : ReadPath} {faults faults' : ReadFaults} {db : DB}
    {runID : Bytes} {es all : List Event} (hread : path.read strict faults db = .ok es)
    (hall : getAllEvents strict faults' db runID = .ok all) {row : EventRow}
    (hrow : row ∈ db.events) {e e' : Event} (he : e ∈ es) (hid : e.id = row.id) (he' : e' ∈ all)
    (hid' : e'.id = row.id) : e = e' ↔ path.Blank row := by
  have hsame : ∀ row' ∈ db.events, row'.id = row.id → row' = row := fun row' hrow' heq =>
    List.inj_on_of_nodup_map db.events_nodup hrow' hrow heq
  obtain ⟨row₁, hrow₁, rfl⟩ := path.mem_rows strict hread e he
  obtain ⟨-, -, -, -, hscan⟩ := (getAllEvents_eq_ok strict).mp hall
  obtain ⟨row₂, hrow₂, hscan₂⟩ := mem_of_forall₂_right hscan he'
  have hmem₂ : row₂ ∈ db.events :=
    (List.mem_filter.mp ((List.mem_insertionSort _).mp (List.mem_of_mem_take hrow₂))).1
  obtain ⟨-, hid₂, -⟩ := scanEvent_eq_ok hscan₂
  have hrow₁' : row₁ = row := by
    refine hsame row₁ hrow₁ ?_
    cases path <;> exact hid
  rw [hrow₁']
  rw [hsame row₂ hmem₂ (hid₂.symm.trans hid')] at hscan₂
  exact ReadPath.eventOf_eq_iff hscan₂

/-- A tool call with a risk, in a store of its own. -/
def riskyRow (timestamp params taskID : Bytes) : EventRow where
  id := lit "evt-1"
  runID := lit "run-1"
  seqIndex := 1
  timestamp := timestamp
  actor := lit "agent"
  eventType := lit "tool_call"
  method := lit "tools/call"
  params := params
  response := lit "null"
  taskID := taskID
  taskState := []
  parentID := []
  policyID := lit "payments"
  riskLevel := lit "high"
  prevHash := zeroHash
  currentHash := lit "5ef09a6feaeaee998dfb33aee9c9b30f616497523f24f2d4e6580be562b53140"
  signature := lit "00"

def rowStore (row : EventRow) : DB := ⟨[], [row], List.nodup_nil, List.nodup_singleton _⟩

/-- A call without parameters or a task, and with a timestamp that cannot be read. -/
theorem readPath_agrees_blank : ∃ e e',
    ReadPath.risk.read true {} (rowStore (riskyRow [] (lit "null") [])) = .ok [e] ∧
    getAllEvents true {} (rowStore (riskyRow [] (lit "null") [])) (lit "run-1") = .ok [e'] ∧
    e = e' := by
  have hparse : (Time.parse (runes [])).isNone = true := by decide +kernel
  have hnull : decodeColumn (lit "null") = none := if_pos (Or.inr rfl)
  refine ⟨_, _, rfl, rfl, ?_⟩
  refine (@readPath_agrees_iff true .risk {} {} (rowStore (riskyRow [] (lit "null") []))
    (lit "run-1") [_] [_] rfl rfl (riskyRow [] (lit "null") []) List.mem_cons_self _ _
    List.mem_cons_self rfl List.mem_cons_self rfl).mpr ⟨?_, ?_, ?_, fun _ => ⟨rfl, rfl⟩⟩
  · exact Or.inl (Option.isNone_iff_eq_none.mp hparse)
  · exact decodeColumn_eq_none.mp hnull
  · exact decodeColumn_eq_none.mp hnull

/-- **The same row, read in three ways.** -/
theorem readPaths_disagree : ∃ e₁ e₂ e₃,
    getAllEvents true {} (rowStore (riskyRow (lit "2026-01-15T09:30:00Z") (lit "\x7b\x7d")
      (lit "task-1"))) (lit "run-1") = .ok [e₁] ∧
    getEventByID true none (rowStore (riskyRow (lit "2026-01-15T09:30:00Z") (lit "\x7b\x7d")
      (lit "task-1"))) (lit "evt-1") = .ok e₂ ∧
    getRiskEvents true {} (rowStore (riskyRow (lit "2026-01-15T09:30:00Z") (lit "\x7b\x7d")
      (lit "task-1"))) = .ok [e₃] ∧
    e₁.timestamp.year = 2026 ∧ e₂.timestamp.year = 1 ∧ e₃.timestamp.year = 1 ∧
    e₁.params.isSome = true ∧ e₂.params = none ∧ e₃.params = none ∧
    e₁.taskID = lit "task-1" ∧ e₂.taskID = lit "task-1" ∧ e₃.taskID = [] := by
  refine ⟨_, _, _, rfl, rfl, rfl, ?_, rfl, rfl, ?_, rfl, rfl, rfl, rfl, rfl⟩
  · decide +kernel
  · decide +kernel

end Logryph
