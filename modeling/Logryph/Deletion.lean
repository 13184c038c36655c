import Logryph.AuditRun

/-!
# Deleting rows

Whoever can write to the database file can delete rows from it. The verifier knows neither where a
run begins nor how long it is, and compares no numbers. It notices a gap by the link of the row that
comes after it.

* `nodup_currentHash` — the rows of a run have different hashes
* `deletion_detected_iff` — the deletions that go unnoticed: those after which the rows that are
  left were in one piece
-/

namespace Logryph

open Infra

variable (c : Crypto) (strict : Bool)

/-- `DELETE` of all events but those that are kept. -/
def DB.keepRows (db : DB) (keep : EventRow → Bool) : DB where
  runs := db.runs
  events := db.events.filter keep
  runs_nodup := db.runs_nodup
  events_nodup := db.events_nodup.sublist (List.filter_sublist.map _)

theorem DB.orderedRows_keepRows (db : DB) (keep : EventRow → Bool) (runID : Bytes) :
    (db.keepRows keep).orderedRows runID = (db.orderedRows runID).filter keep := by
  have : Std.Total fun a b : EventRow => a.seqIndex ≤ b.seqIndex := ⟨fun a b => le_total _ _⟩
  have : IsTrans EventRow fun a b => a.seqIndex ≤ b.seqIndex := ⟨fun _ _ _ hab hbc => hab.trans hbc⟩
  have hrows : (db.keepRows keep).rowsOf runID = (db.rowsOf runID).filter keep := by
    unfold rowsOf keepRows
    rw [List.filter_filter, List.filter_filter]
    exact List.filter_congr fun row _ => Bool.and_comm _ _
  rw [orderedRows, hrows, insertionSort_filter, orderedRows]

/-- Two rows of a run have different hashes, since their numbers are hashed as well. -/
theorem SignedInv.nodup_currentHash {P : Event → Prop} {s : Core} (h : SignedInv c strict P s)
    (hlog : rowView.IsLog s.rows) (hcoll : NoCollision c s.signed)
    (hcount : s.rows.length < 2 ^ 53) : (s.rows.map EventRow.currentHash).Nodup := by
  rw [List.Nodup, List.pairwise_map]
  refine hlog.pairwise_num.imp_of_mem ?_
  intro a b ha hb hlt heq
  obtain ⟨x, hx, hencx⟩ := h.stored a ha
  obtain ⟨y, hy, hency⟩ := h.stored b hb
  obtain ⟨_, _, -, -, rfl⟩ := encodeEvent_eq_ok hencx
  obtain ⟨_, _, -, -, rfl⟩ := encodeEvent_eq_ok hency
  have hsame := sameHashed_of_hash_eq c strict hcoll hx hy ((h.seq_le y hy).trans_lt hcount)
    (h.hash x hx) (h.hash y hy) heq
  have hlt' : (x.seqIndex : Int) < y.seqIndex := hlt
  have hseq := hsame.seqIndex
  omega

/-- Rows that pass, in one piece. -/
theorem RowsPass.of_isInfix {signer : Signer} {rows part : List EventRow}
    (h : RowsPass c strict signer rows) (hne : part ≠ []) (hpart : part <:+: rows) :
    RowsPass c strict signer part := by
  obtain ⟨before, after, rfl⟩ := hpart
  refine ⟨hne, h.linked.left_of_append.right_of_append, fun row hrow => h.passes row ?_⟩
  exact List.mem_append_left _ (List.mem_append_right _ hrow)

/-- **Which deletions go unnoticed.** Whatever rows are deleted from a ledger that the processor
wrote, the rest is accepted exactly if it is not empty and was in one piece: rows may be missing at
the beginning and at the end, but not in between. Only the rows that the verifier reads count.
SHA-256 is assumed to have no collision among the signed events. -/
theorem deletion_detected_iff {env : GenesisEnv} {signer : Signer} {pool : List Event}
    {agentName runID : Bytes} {s : State}
    (hown : ∀ m, c.verify signer.publicKey m (c.sign signer.privateKey m) = true)
    (hgen : createGenesisBlock c strict env (initialState signer pool) agentName = (.ok runID, s))
    (calls : List Call) (hnow : env.now.Representable)
    (htimes : ∀ call ∈ calls, (∀ e ∈ call.event, e.timestamp.Representable) ∧
      call.completion.now.Representable)
    (hcoll : NoCollision c (processAll c strict (newEventProcessor s runID) calls).signed)
    (hcount : ((processAll c strict (newEventProcessor s runID) calls).db.rowsOf runID).length
      < 2 ^ 53) (keep : EventRow → Bool) :
    let final := processAll c strict (newEventProcessor s runID) calls
    let left := ((final.db.orderedRows runID).filter keep).take maxEventRows
    Accepts c strict (getAllEvents strict {} (final.db.keepRows keep)) runID signer ↔
      left ≠ [] ∧ left <:+: final.db.orderedRows runID := by
  intro final left
  obtain ⟨-, -, -, -, -, -, hrun⟩ := createGenesisBlock_eq_ok c strict hgen rfl
  have hinv := runInv_processAll c strict hgen calls
  have hsigned := signedInv_representable c strict hgen calls hnow htimes
  have hpass := rowsPass_processAll c strict hgen calls hnow htimes hown
  have hnodup : ((final.db.orderedRows runID).map EventRow.currentHash).Nodup := by
    have hlog := hinv.isLog
    have hhashes := hsigned.nodup_currentHash c strict hlog hcoll (hinv.rows_eq ▸ hcount)
    rw [hinv.rows_eq] at hlog hhashes
    rwa [DB.orderedRows_of_isLog hlog]
  rw [accepts_store, DB.orderedRows_keepRows]
  constructor
  · rintro ⟨-, hleft⟩
    refine ⟨hleft.nonempty, View.isInfix_of_sublist (v := rowView) hpass.linked hnodup ?_
      hleft.linked⟩
    exact (List.take_sublist _ _).trans List.filter_sublist
  · rintro ⟨hne, hpart⟩
    exact ⟨hrun, hpass.of_isInfix c strict hne hpart⟩

/-- The genesis row is kept. -/
def isFirst (row : EventRow) : Bool := row.seqIndex = 0

/-- The genesis row is the only one with its number. -/
theorem filter_isFirst {rows : List EventRow} (hlog : rowView.IsLog rows) :
    rows.filter isFirst = rows.take 1 := by
  cases rows with
  | nil => rfl
  | cons first rest =>
    have hfirst : first.seqIndex = 0 := by
      have hnum := hlog.map_num
      rw [List.length_cons, List.range_succ_eq_map, List.map_cons, List.map_cons] at hnum
      exact (List.cons.inj hnum).1
    have hrest : ∀ row ∈ rest, ¬ isFirst row = true := by
      intro row hrow hzero
      have hlt : first.seqIndex < row.seqIndex :=
        (List.pairwise_cons.mp hlog.pairwise_num).1 row hrow
      exact hlt.ne (hfirst.trans (of_decide_eq_true hzero).symm)
    have hkept : isFirst first = true := decide_eq_true hfirst
    rw [List.filter_cons_of_pos hkept, List.filter_eq_nil_iff.mpr hrest]
    rfl

/-- The row behind the genesis row is deleted. -/
def isNotSecond (row : EventRow) : Bool := row.seqIndex ≠ 1

/-- What is left of four rows has a gap then. -/
theorem not_isInfix_isNotSecond {rows : List EventRow} (hlog : rowView.IsLog rows)
    (hlen : rows.length = 4) : ¬ (rows.filter isNotSecond).take maxEventRows <:+: rows := by
  have hfew : (rows.filter isNotSecond).length ≤ maxEventRows :=
    (List.length_filter_le _ _).trans (hlen.trans_le (by decide))
  rw [List.take_of_length_le hfew]
  intro hpart
  have hnum : rows.map EventRow.seqIndex = [0, 1, 2, 3] := by
    have hrange := hlog.map_num
    rw [hlen] at hrange
    exact hrange
  have hkeep : isNotSecond = (fun n : Int => decide (n ≠ 1)) ∘ EventRow.seqIndex := rfl
  have hnums := hpart.map EventRow.seqIndex
  rw [hkeep, ← List.filter_map, hnum] at hnums
  exact absurd hnums (by decide)

theorem recordedRun_noCollision : NoCollision recordedCrypto (recordedRun 3).signed := by
  decide +kernel

theorem deletion_detected_recorded :
    Accepts recordedCrypto true (getAllEvents true {} ((recordedRun 3).db.keepRows isFirst))
      (lit "run-1") recordedSigner ∧
    ¬ Accepts recordedCrypto true (getAllEvents true {} ((recordedRun 3).db.keepRows isNotSecond))
      (lit "run-1") recordedSigner ∧
    ¬ Accepts recordedCrypto true
      (getAllEvents true {} ((recordedRun 3).db.keepRows fun _ => false)) (lit "run-1")
      recordedSigner := by
  have h := deletion_detected_iff recordedCrypto true recordedSigner_own createGenesisBlock_recorded
    (recordedCalls.take 3) (by decide) (fun call hcall => recordedCalls_representable call
      (List.mem_of_mem_take hcall)) recordedRun_noCollision
    (recordedRun_rows.trans_lt (by decide))
  have hinv := runInv_processAll recordedCrypto true createGenesisBlock_recorded
    (recordedCalls.take 3)
  have hlog := hinv.isLog
  have hne := hinv.nonempty
  rw [hinv.rows_eq] at hlog hne
  refine ⟨(h isFirst).mpr ?_, fun hacc => ?_, fun hacc => ((h fun _ => false).mp hacc).1 ?_⟩
  · rw [DB.orderedRows_of_isLog hlog, filter_isFirst hlog]
    refine ⟨?_, (List.take_prefix _ _).isInfix.trans (List.take_prefix _ _).isInfix⟩
    simpa [maxEventRows] using hne
  · obtain ⟨-, hpart⟩ := (h isNotSecond).mp hacc
    rw [DB.orderedRows_of_isLog hlog] at hpart
    exact not_isInfix_isNotSecond hlog recordedRun_rows hpart
  · rw [List.filter_false, List.take_nil]

end Logryph
