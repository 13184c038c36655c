import Logryph.Infra.LinkedLog
import Logryph.Store

/-!
# Chain verification

`audit.VerifyChain` reads the events of a run and checks each one's hash and signature, and from
the second on that it links to the one before.

* `verifyChain_accepts` — what the whole function accepts: a list that is not empty, not too long,
  linked, and sound event by event
* `verifyChain_store` — the same over the store: the rows that the reader returns, row by row
-/

namespace Logryph

open Infra

variable (c : Crypto) (strict : Bool)

def errChainTampered : Bytes := lit "forensic integrity error: hash chain link broken"

def errInvalidSignature : Bytes := lit "forensic integrity error: invalid ed25519 signature"

def errHashMismatch : Bytes := lit "forensic integrity error: hash mismatch (data tampered)"

def errNoEvents : Bytes := lit "forensic integrity error: no events found in ledger"

/-- `audit.VerificationResult`. -/
structure VerificationResult where
  valid : Bool
  totalEvents : Nat
  errorMessage : Bytes := []
  failedAtSeq : Nat := 0
  deriving DecidableEq

/-! ## One event -/

/-- `VerifyEvent`. -/
def verifyEvent (signer : Signer) (e : Event) : Except Fault Unit := do
  check strict (e.signature ≠ []) (lit "event signature must not be empty: id=" ++ e.id)
  check strict (e.currentHash ≠ []) (lit "event current hash is missing: id=" ++ e.id)
  let calculatedHash ← inContext (lit "failed to calculate hash")
    (calculateEventHash c strict e.prevHash e.payload)
  if calculatedHash ≠ e.currentHash then .error (.error errHashMismatch)
  else if signer.verifySignature c calculatedHash e.signature then .ok ()
  else .error (.error errInvalidSignature)

theorem verifyEvent_eq_ok {signer : Signer} {e : Event} {u : Unit} :
    verifyEvent c strict signer e = .ok u ↔
      e.signature ≠ [] ∧ calculateEventHash c strict e.prevHash e.payload = .ok e.currentHash ∧
        signer.verifySignature c e.currentHash e.signature = true := by
  unfold verifyEvent
  simp only [bind_eq_ok, check_eq_ok, inContext_eq_ok, decide_eq_true_eq, exists_const]
  constructor
  · rintro ⟨hsig, -, h, hcalc, hrest⟩
    split at hrest
    · cases hrest
    · next heq =>
      rw [not_not] at heq
      split at hrest
      · next hv => exact ⟨hsig, heq ▸ hcalc, heq ▸ hv⟩
      · cases hrest
  · rintro ⟨hsig, hcalc, hv⟩
    have hne : e.currentHash ≠ [] := by
      intro hnil
      have := calculateEventHash_length c strict hcalc
      rw [hnil] at this
      cases this
    refine ⟨hsig, hne, e.currentHash, hcalc, ?_⟩
    rw [if_neg (not_not.mpr rfl), if_pos hv]

/-! ## The chain -/

def maxVerifyEvents : Nat := 100000

/-- The loop from index `i` on. It gives the message and the number of the first event that fails,
and stops early only at a panic. -/
def verifyFrom (signer : Signer) : Nat → Option Event → List Event →
    Except Fault (Option (Bytes × Nat))
  | _, _, [] => .ok none
  | i, prevEvent, event :: events =>
    if prevEvent.any (fun p => event.prevHash ≠ p.currentHash) then
      .ok (some (errChainTampered, event.seqIndex))
    else
      match verifyEvent c strict signer event with
      | .error (.panic msg) => .error (.panic msg)
      | .error (.error msg) => .ok (some (lit "Event " ++ natText i ++ lit " (seq " ++
          natText event.seqIndex ++ lit ") failed verification: " ++ msg, event.seqIndex))
      | .ok () => verifyFrom signer (i + 1) (some event) events

/-- `VerifyChain`. The reader is the store's `GetAllEvents`. -/
def verifyChain (reader : Bytes → Except Fault (List Event)) (runID : Bytes) (signer : Signer) :
    Except Fault VerificationResult := do
  check strict (runID ≠ []) (lit "runID must not be empty")
  let events ← inContext (lit "failed to get events") (reader runID)
  if events.length = 0 then
    .ok { valid := false, totalEvents := 0, errorMessage := errNoEvents }
  else
    check strict (events.length ≤ maxVerifyEvents)
      (lit "event count exceeds max: " ++ natText events.length)
    let failure ← verifyFrom c strict signer 0 none (events.take maxVerifyEvents)
    match failure with
    | none => .ok { valid := true, totalEvents := events.length }
    | some (errorMessage, failedAtSeq) =>
      .ok { valid := false, totalEvents := events.length, errorMessage, failedAtSeq }

/-- The second event links to the first. -/
def Links (a b : Event) : Prop := b.prevHash = a.currentHash

instance (a b : Event) : Decidable (Links a b) := inferInstanceAs (Decidable (_ = _))

theorem verifyFrom_eq_none {signer : Signer} : ∀ {i : Nat} {prevEvent : Option Event}
    {events : List Event}, verifyFrom c strict signer i prevEvent events = .ok none ↔
      (∀ p ∈ prevEvent, ∀ e ∈ events.head?, Links p e) ∧ events.IsChain Links ∧
        ∀ e ∈ events, verifyEvent c strict signer e = .ok ()
  | _, _, [] => by simp [verifyFrom]
  | i, prevEvent, event :: events => by
    rw [verifyFrom]
    split
    · next hbad =>
      rw [Option.any_eq_true] at hbad
      obtain ⟨p, hp, hne⟩ := hbad
      simp only [Except.ok.injEq, reduceCtorEq, false_iff]
      rintro ⟨hlink, -⟩
      have hlink' : event.prevHash = p.currentHash := hlink p hp event rfl
      simp [hlink'] at hne
    · next hgood =>
      have hlink : ∀ p ∈ prevEvent, ∀ e ∈ (event :: events).head?, Links p e := by
        intro p hp e he
        cases he
        rw [Option.any_eq_true] at hgood
        by_contra hne
        exact hgood ⟨p, hp, by simpa [Links] using hne⟩
      split
      · next h => simp [h]
      · next h => simp [h]
      · next h =>
        rw [verifyFrom_eq_none, List.isChain_cons]
        simp only [Option.mem_def, Option.some.injEq, forall_eq', List.forall_mem_cons, h,
          true_and]
        constructor
        · rintro ⟨h1, h2, h3⟩
          exact ⟨hlink, ⟨h1, h2⟩, h3⟩
        · rintro ⟨-, ⟨h1, h2⟩, h3⟩
          exact ⟨h1, h2, h3⟩

/-- A list of events that passes every check of the verifier. -/
structure Verified (signer : Signer) (events : List Event) : Prop where
  nonempty : events ≠ []
  length_le : events.length ≤ maxVerifyEvents
  linked : events.IsChain Links
  sound : ∀ e ∈ events, verifyEvent c strict signer e = .ok ()

/-- **What `VerifyChain` accepts**, and what it then reports. -/
theorem verifyChain_accepts {reader : Bytes → Except Fault (List Event)} {runID : Bytes}
    {signer : Signer} {r : VerificationResult} :
    verifyChain c strict reader runID signer = .ok r ∧ r.valid = true ↔
      runID ≠ [] ∧ ∃ events, reader runID = .ok events ∧ Verified c strict signer events ∧
        r = { valid := true, totalEvents := events.length } := by
  unfold verifyChain
  simp only [bind_eq_ok, check_eq_ok, inContext_eq_ok, decide_eq_true_eq, exists_const]
  constructor
  · rintro ⟨⟨hrun, events, hread, h⟩, hvalid⟩
    split at h
    · cases h
      cases hvalid
    · next hlen =>
      simp only [bind_eq_ok, check_eq_ok, decide_eq_true_eq, exists_const] at h
      obtain ⟨hmax, failure, hloop, h⟩ := h
      split at h
      · rw [List.take_of_length_le hmax, verifyFrom_eq_none] at hloop
        cases h
        refine ⟨hrun, events, hread, ⟨?_, hmax, hloop.2.1, hloop.2.2⟩, rfl⟩
        exact fun hnil => hlen (by rw [hnil]; rfl)
      · cases h
        cases hvalid
  · rintro ⟨hrun, events, hread, hv, rfl⟩
    refine ⟨⟨hrun, events, hread, ?_⟩, rfl⟩
    rw [if_neg (by simpa using hv.nonempty)]
    simp only [bind_eq_ok, check_eq_ok, decide_eq_true_eq, exists_const]
    refine ⟨hv.length_le, none, ?_, rfl⟩
    rw [List.take_of_length_le hv.length_le, verifyFrom_eq_none]
    exact ⟨by simp, hv.linked, hv.sound⟩

/-- The verifier returns `Valid = true`. -/
def Accepts (reader : Bytes → Except Fault (List Event)) (runID : Bytes) (signer : Signer) : Prop :=
  ∃ r, verifyChain c strict reader runID signer = .ok r ∧ r.valid = true

theorem accepts_iff {reader : Bytes → Except Fault (List Event)} {runID : Bytes}
    {signer : Signer} : Accepts c strict reader runID signer ↔
      runID ≠ [] ∧ ∃ events, reader runID = .ok events ∧ Verified c strict signer events := by
  unfold Accepts
  simp only [verifyChain_accepts]
  constructor
  · rintro ⟨r, hrun, events, hread, hv, -⟩
    exact ⟨hrun, events, hread, hv⟩
  · rintro ⟨hrun, events, hread, hv⟩
    exact ⟨_, hrun, events, hread, hv, rfl⟩

/-! ## Reading from the store -/

theorem scanEvent_eq_ok {row : EventRow} {e : Event} (h : scanEvent row = .ok e) :
    0 ≤ row.seqIndex ∧ e.id = row.id ∧ e.seqIndex = row.seqIndex.toNat ∧
      e.prevHash = row.prevHash ∧ e.currentHash = row.currentHash ∧
      e.signature = row.signature := by
  unfold scanEvent at h
  split at h
  · cases h
  · next hneg =>
    cases h
    exact ⟨not_lt.mp hneg, rfl, rfl, rfl, rfl, rfl⟩

theorem scanEvents_eq_ok : ∀ {rows : List EventRow} {es : List Event},
    scanEvents rows = .ok es ↔ List.Forall₂ (fun row e => scanEvent row = .ok e) rows es
  | [], es => by
    rw [List.forall₂_nil_left_iff]
    exact ⟨fun h => (Except.ok.inj h).symm, fun h => by rw [h]; rfl⟩
  | row :: rows, es => by
    rw [scanEvents, bind_eq_ok, List.forall₂_cons_left_iff]
    simp only [bind_eq_ok, scanEvents_eq_ok, Except.ok.injEq]
    constructor
    · rintro ⟨e, he, es', hes, rfl⟩
      exact ⟨e, es', he, hes, rfl⟩
    · rintro ⟨e, es', he, hes, rfl⟩
      exact ⟨e, he, es', hes, rfl⟩

/-- What `GetAllEvents` reads: the first `maxEventRows` rows of the run. -/
theorem getAllEvents_eq_ok {faults : ReadFaults} {db : DB} {runID : Bytes} {es : List Event} :
    getAllEvents strict faults db runID = .ok es ↔
      runID ≠ [] ∧ faults.query = none ∧ faults.rows = none ∧ faults.close = none ∧
        List.Forall₂ (fun row e => scanEvent row = .ok e)
          ((db.orderedRows runID).take maxEventRows) es := by
  unfold getAllEvents
  rw [bind_eq_ok]
  simp only [check_eq_ok, decide_eq_true_eq, exists_const]
  cases hq : faults.query with
  | some msg => simp
  | none =>
    simp only [bind_eq_ok, scanEvents_eq_ok, check_eq_ok, Option.isNone_iff_eq_none, exists_const,
      true_and]
    cases hc : faults.close with
    | some msg => simp
    | none =>
      simp only [Except.ok.injEq, true_and]
      constructor
      · rintro ⟨hrun, es', hes, hrows, rfl⟩
        exact ⟨hrun, hrows, hes⟩
      · rintro ⟨hrun, hrows, hes⟩
        exact ⟨hrun, es, hes, hrows, rfl⟩

/-! ## Row by row -/

/-- A row that is read as an event that passes. -/
def RowPasses (signer : Signer) (row : EventRow) : Prop :=
  ∃ e, scanEvent row = .ok e ∧ verifyEvent c strict signer e = .ok ()

/-- Rows that pass every check of the verifier. -/
structure RowsPass (signer : Signer) (rows : List EventRow) : Prop where
  nonempty : rows ≠ []
  linked : rows.IsChain fun a b => b.prevHash = a.currentHash
  passes : ∀ row ∈ rows, RowPasses c strict signer row

/-- The events are linked if the rows are that they are read from. -/
theorem isChain_links_iff {rows : List EventRow} {es : List Event}
    (hscan : List.Forall₂ (fun row e => scanEvent row = .ok e) rows es) :
    es.IsChain Links ↔ rows.IsChain fun a b => b.prevHash = a.currentHash := by
  constructor
  · refine isChain_of_forall₂ (fun _ _ _ _ ha hb hab => ?_) hscan.flip
    obtain ⟨-, -, -, -, hcur, -⟩ := scanEvent_eq_ok ha
    obtain ⟨-, -, -, hprev, -⟩ := scanEvent_eq_ok hb
    rw [← hprev, ← hcur]
    exact hab
  · refine isChain_of_forall₂ (fun _ _ _ _ ha hb hab => ?_) hscan
    obtain ⟨-, -, -, -, hcur, -⟩ := scanEvent_eq_ok ha
    obtain ⟨-, -, -, hprev, -⟩ := scanEvent_eq_ok hb
    rw [Links, hprev, hcur]
    exact hab

theorem RowsPass.verified {signer : Signer} {rows : List EventRow}
    (h : RowsPass c strict signer rows) (hlen : rows.length ≤ maxVerifyEvents) :
    ∃ es, List.Forall₂ (fun row e => scanEvent row = .ok e) rows es ∧
      Verified c strict signer es := by
  obtain ⟨es, hes⟩ := exists_forall₂ h.passes
  have hscan := hes.imp fun _ _ h => h.1
  refine ⟨es, hscan, ?_, ?_, ?_, ?_⟩
  · rw [← List.length_pos_iff, ← hes.length_eq]
    exact List.length_pos_iff.mpr h.nonempty
  · rwa [← hes.length_eq]
  · exact (isChain_links_iff hscan).mpr h.linked
  · intro e he
    obtain ⟨row, -, -, hv⟩ := mem_of_forall₂_right hes he
    exact hv

theorem Verified.rowsPass {signer : Signer} {rows : List EventRow} {es : List Event}
    (h : Verified c strict signer es)
    (hscan : List.Forall₂ (fun row e => scanEvent row = .ok e) rows es) :
    RowsPass c strict signer rows := by
  refine ⟨?_, ?_, ?_⟩
  · rw [← List.length_pos_iff, hscan.length_eq]
    exact List.length_pos_iff.mpr h.nonempty
  · exact (isChain_links_iff hscan).mp h.linked
  · intro row hrow
    obtain ⟨e, he, hrow⟩ := mem_of_forall₂_right hscan.flip hrow
    exact ⟨e, hrow, h.sound e he⟩

/-- **What `VerifyChain` accepts over the store.** Only the first `maxEventRows` rows are read,
and only they are counted. -/
theorem verifyChain_store {faults : ReadFaults} {db : DB} {runID : Bytes} {signer : Signer}
    {r : VerificationResult} :
    verifyChain c strict (getAllEvents strict faults db) runID signer = .ok r ∧ r.valid = true ↔
      runID ≠ [] ∧ faults = {} ∧
        RowsPass c strict signer ((db.orderedRows runID).take maxEventRows) ∧
        r = { valid := true, totalEvents := min maxEventRows (db.rowsOf runID).length } := by
  have hlen : ((db.orderedRows runID).take maxEventRows).length
      = min maxEventRows (db.rowsOf runID).length := by
    rw [List.length_take, DB.orderedRows, List.length_insertionSort]
  simp only [verifyChain_accepts, getAllEvents_eq_ok]
  constructor
  · rintro ⟨hrun, es, ⟨-, hquery, hrows, hclose, hscan⟩, hv, rfl⟩
    refine ⟨hrun, ?_, hv.rowsPass c strict hscan, ?_⟩
    · cases faults
      cases hquery
      cases hrows
      cases hclose
      rfl
    · rw [← hlen, hscan.length_eq]
  · rintro ⟨hrun, rfl, hpass, rfl⟩
    obtain ⟨es, hscan, hv⟩ := hpass.verified c strict (by
      rw [hlen]
      exact Nat.min_le_left _ _)
    exact ⟨hrun, es, ⟨hrun, rfl, rfl, rfl, hscan⟩, hv, by rw [← hlen, hscan.length_eq]⟩

theorem accepts_store {db : DB} {runID : Bytes} {signer : Signer} :
    Accepts c strict (getAllEvents strict {} db) runID signer ↔
      runID ≠ [] ∧ RowsPass c strict signer ((db.orderedRows runID).take maxEventRows) := by
  unfold Accepts
  simp only [verifyChain_store]
  constructor
  · rintro ⟨r, hrun, -, hpass, -⟩
    exact ⟨hrun, hpass⟩
  · rintro ⟨hrun, hpass⟩
    exact ⟨_, hrun, trivial, hpass, rfl⟩

end Logryph
