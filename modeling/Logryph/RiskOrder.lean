import Logryph.Infra.Rfc3339Order
import Logryph.ReadPaths

/-!
# The order of high-risk events

`GetRiskEvents` is sorted by the column of the timestamp, newest first, and `logyctl risk` prints
the events as they come. The column is a text.

* `risk_newest_first_iff` — with one UTC offset the order is the one of the times, unless it is zero
  and two events of one second have fractions of which one is the beginning of the other
-/

namespace Logryph

open Infra

/-- The row was written at the time of its id, with this UTC offset. -/
structure StampedIn (offset : Int) (time : Bytes → Time) (row : EventRow) : Prop where
  text : row.timestamp = utf8 (time row.id).format
  representable : (time row.id).Representable
  zone : (time row.id).offset = offset

theorem StampedIn.lt_iff {offset : Int} {time : Bytes → Time} {a b : EventRow}
    (ha : StampedIn offset time a) (hb : StampedIn offset time b) :
    a.timestamp < b.timestamp ↔ (time a.id).format < (time b.id).format := by
  rw [ha.text, hb.text, utf8_lt_iff (Time.ascii_format _) (Time.ascii_format _)]

namespace DB

/-- What the query sorts by. -/
theorem pairwise_riskRows (db : DB) :
    db.riskRows.Pairwise fun a b => ¬ a.timestamp < b.timestamp := by
  have : Std.Total fun a b : EventRow => b.timestamp ≤ a.timestamp :=
    ⟨fun a b => le_total b.timestamp a.timestamp⟩
  have : IsTrans EventRow fun a b => b.timestamp ≤ a.timestamp :=
    ⟨fun _ _ _ hab hbc => hbc.trans hab⟩
  exact (List.pairwise_insertionSort _ _).imp fun h => not_lt.mpr h

end DB

/-- Rows in the order of their texts, against the order of their times. -/
theorem newest_first_of_sorted {offset : Int} {time : Bytes → Time} {rows : List EventRow}
    (htexts : rows.Pairwise fun a b => ¬ a.timestamp < b.timestamp)
    (htimes : ∀ row ∈ rows, StampedIn offset time row) :
    rows.Pairwise (fun a b => ¬ (time a.id).Before (time b.id)) ↔
      (offset = 0 → ∀ a ∈ rows, ∀ b ∈ rows, ¬ (time a.id).Extends (time b.id)) := by
  constructor
  · intro hsorted hutc a ha b hb hextends
    obtain ⟨hbefore, htext⟩ := hextends.swapped (htimes a ha).representable
      (htimes b hb).representable ((htimes a ha).zone.trans hutc) ((htimes b hb).zone.trans hutc)
    rw [← (htimes b hb).lt_iff (htimes a ha)] at htext
    -- the later event has the smaller text, so it comes second
    have hne : a ≠ b := by
      rintro rfl
      exact lt_irrefl _ htext
    rcases pairwise_or_of_mem (hsorted.and htexts) ha hb hne with h | h
    · exact h.1 hbefore
    · exact h.2 htext
  · intro hutc
    refine htexts.imp_of_mem fun {a b} ha hb htext hbefore => htext ?_
    rw [(htimes a ha).lt_iff (htimes b hb)]
    refine Time.format_lt_of_before hbefore (htimes a ha).representable (htimes b hb).representable
      ((htimes b hb).zone.trans (htimes a ha).zone.symm) fun hzero => ?_
    have hoffset : offset = 0 := (htimes a ha).zone.symm.trans hzero
    exact ⟨hutc hoffset a ha b hb, hutc hoffset b hb a ha⟩

/-- The events are those of the rows, in their order. -/
theorem getRiskEvents_eq_ok {strict : Bool} {faults : ReadFaults} {db : DB} {events : List Event}
    (h : getRiskEvents strict faults db = .ok events) :
    events = (db.riskRows.take maxEventRows).map ReadPath.risk.eventOf := by
  have hrows := (forall₂_of_readRows strict h).imp fun _ _ hscan => (scanColumns_eq_ok hscan).symm
  rw [← List.forall₂_map_left_iff, List.forall₂_eq_eq_eq] at hrows
  exact hrows.symm

/-- **`GetRiskEvents` has the newest event first**, if all events have one UTC offset that is not
zero (a zone with summer time has two). If it is zero, this is so exactly if no two of the events
are of one second and have fractions of which one is the beginning of the other, such as a full
second and any part of it. -/
theorem risk_newest_first_iff {strict : Bool} {faults : ReadFaults} {db : DB} {events : List Event}
    (hread : getRiskEvents strict faults db = .ok events) {offset : Int} {time : Bytes → Time}
    (htimes : ∀ row ∈ db.riskRows, StampedIn offset time row) :
    events.Pairwise (fun a b => ¬ (time a.id).Before (time b.id)) ↔
      (offset = 0 → ∀ a ∈ events, ∀ b ∈ events, ¬ (time a.id).Extends (time b.id)) := by
  rw [getRiskEvents_eq_ok hread, List.pairwise_map]
  simp only [List.forall_mem_map]
  exact newest_first_of_sorted (db.pairwise_riskRows.sublist (List.take_sublist _ _))
    fun row hrow => htimes row (List.mem_of_mem_take hrow)

/-- A call that was found to be risky, at this time. -/
def riskyCall (id : Bytes) (t : Time) : EventRow where
  id := id
  runID := lit "run-1"
  seqIndex := 1
  timestamp := utf8 t.format
  actor := lit "agent"
  eventType := lit "tool_call"
  method := lit "tools/call"
  params := lit "\x7b\x7d"
  response := lit "null"
  taskID := []
  taskState := []
  parentID := []
  policyID := lit "policy-1"
  riskLevel := lit "high"
  prevHash := zeroHash
  currentHash := zeroHash
  signature := []

def fullSecond : Time := ⟨2026, 1, 15, 10, 0, 7, 0, 0, by decide⟩

def halfSecond : Time := ⟨2026, 1, 15, 10, 0, 7, 500000000, 0, by decide⟩

/-- Two calls, half a second apart. -/
def riskyCalls : DB :=
  ⟨[], [riskyCall (lit "evt-1") fullSecond, riskyCall (lit "evt-2") halfSecond], by decide,
    by decide⟩

def riskyTime (id : Bytes) : Time := if id = lit "evt-1" then fullSecond else halfSecond

/-- In UTC the earlier one comes first. -/
theorem risk_newest_first_utc : ∃ events, getRiskEvents true {} riskyCalls = .ok events ∧
    ¬ events.Pairwise fun a b => ¬ (riskyTime a.id).Before (riskyTime b.id) := by
  have htimes : ∀ row ∈ riskyCalls.riskRows, StampedIn 0 riskyTime row := by
    intro row hrow
    have hmem : row ∈ riskyCalls.events :=
      List.mem_of_mem_filter ((List.mem_insertionSort _).mp hrow)
    simp only [riskyCalls, List.mem_cons, List.not_mem_nil, or_false] at hmem
    rcases hmem with rfl | rfl
    · exact ⟨rfl, by decide, rfl⟩
    · exact ⟨rfl, by decide, rfl⟩
  have hread : getRiskEvents true {} riskyCalls
      = .ok [ReadPath.risk.eventOf (riskyCall (lit "evt-1") fullSecond),
        ReadPath.risk.eventOf (riskyCall (lit "evt-2") halfSecond)] := rfl
  refine ⟨_, hread, fun h => ?_⟩
  exact (risk_newest_first_iff hread htimes).mp h rfl _ List.mem_cons_self _
    (List.mem_cons_of_mem _ List.mem_cons_self) ⟨rfl, List.nil_prefix, by decide⟩

end Logryph
