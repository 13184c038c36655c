import Logryph.Outcome

/-!
# Failures of the repository

`ProcessEvent` is to report a failure of the database to its caller. Some failures are returned,
others go through an assertion, and the event that completes a task has a way of its own: whatever
keeps it from being stored trips an assertion.

* `panics_persistEvent` — what has to hold for `persistEvent` to return
* `persistEvent_ok_iff` — and for it to store the event
* `processEvent_reported_iff` — when a `ProcessEvent` reports what happened
-/

namespace Logryph

open Infra

/-- The repository returns its failures. -/
def RepoFaults.Returned (faults : RepoFaults) : Prop :=
  ∀ f, faults.runStats = some f ∨ faults.lastEvent = some f ∨ faults.storeEvent = some f →
    f.isPanic = false

theorem RepoFaults.eq_none {faults : RepoFaults} (hstats : faults.runStats = none)
    (hlast : faults.lastEvent = none) (hstore : faults.storeEvent = none) : faults = {} := by
  obtain ⟨_, _, _⟩ := faults
  cases hstats
  cases hlast
  cases hstore
  rfl

variable (c : Crypto)

/-! ## When persistEvent returns -/

/-- `GetLastEvent` has a result. -/
def LastEventReturns (faults : RepoFaults) (s : State) : Prop :=
  faults.lastEvent = none ∧ ∀ last, s.db.lastRow s.runID = some last → 0 ≤ last.seqIndex

/-- The row with the largest number can be followed. -/
def Continues (s : State) : Prop :=
  ∀ last, s.db.lastRow s.runID = some last →
    PrevHashOk last.currentHash ∧ last.seqIndex + 1 = s.core.rows.length

/-- The maps of the event can be written as JSON and read back, and so can a number. -/
def Readable (n : Nat) (e : Event) : Prop :=
  (∃ x, Float64.ofRat? n = some x) ∧ (∃ p, Reads e.params.value p) ∧ ∃ r, Reads e.response.value r

/-- What no assertion of `persistEvent` objects to. -/
structure PersistReturns (faults : RepoFaults) (s : State) (e : Event) : Prop where
  run : s.runID ≠ []
  runStats : faults.runStats = none
  event : LastEventReturns faults s →
    Continues s ∧ Readable s.core.rows.length e ∧ e.id ≠ []

theorem lastRow_eq_none {db : DB} {runID : Bytes} :
    db.lastRow runID = none ↔ db.rowsOf runID = [] := by
  rw [DB.lastRow, List.head?_eq_none_iff, ← List.length_eq_zero_iff, List.length_insertionSort,
    List.length_eq_zero_iff]

/-- A row with the largest number. -/
theorem lastRow_max {db : DB} {runID : Bytes} {last : EventRow} (h : db.lastRow runID = some last) :
    last ∈ db.rowsOf runID ∧ ∀ row ∈ db.rowsOf runID, row.seqIndex ≤ last.seqIndex := by
  have : Std.Total fun a b : EventRow => b.seqIndex ≤ a.seqIndex := ⟨fun a b => le_total _ _⟩
  have : IsTrans EventRow fun a b => b.seqIndex ≤ a.seqIndex := ⟨fun a b c hab hbc => hbc.trans hab⟩
  have hperm := List.perm_insertionSort (fun a b : EventRow => b.seqIndex ≤ a.seqIndex)
    (db.rowsOf runID)
  have hsorted := List.pairwise_insertionSort (fun a b : EventRow => b.seqIndex ≤ a.seqIndex)
    (db.rowsOf runID)
  obtain ⟨rest, hrest⟩ := List.head?_eq_some_iff.mp h
  rw [hrest] at hperm hsorted
  refine ⟨hperm.subset List.mem_cons_self, fun row hrow => ?_⟩
  rcases List.mem_cons.mp (hperm.symm.subset hrow) with rfl | hmem
  · exact le_refl _
  · exact (List.pairwise_cons.mp hsorted).1 row hmem

/-- A row with a larger number than all others is the last one. -/
theorem lastRow_eq_some {db : DB} {runID : Bytes} {row : EventRow} (hmem : row ∈ db.rowsOf runID)
    (hlt : ∀ r ∈ db.rowsOf runID, r ≠ row → r.seqIndex < row.seqIndex) :
    db.lastRow runID = some row := by
  cases hlast : db.lastRow runID with
  | none =>
    rw [lastRow_eq_none] at hlast
    rw [hlast] at hmem
    cases hmem
  | some last =>
    obtain ⟨hlmem, hmax⟩ := lastRow_max hlast
    by_contra hne
    have := hlt last hlmem fun h => hne (by rw [h])
    exact absurd (hmax row hmem) (not_le.mpr this)

/-- What `GetLastEvent` does in a run with an id, when its failures are returned. -/
theorem getLastEvent_cases {faults : RepoFaults} {s : State} (hf : faults.Returned)
    (hrun : s.runID ≠ []) :
    (¬ LastEventReturns faults s ∧
      ∃ msg, getLastEvent true faults.lastEvent s.db s.runID = .error (.error msg)) ∨
    LastEventReturns faults s ∧
      (s.db.lastRow s.runID = none ∧
          getLastEvent true faults.lastEvent s.db s.runID = .ok (0, []) ∨
        ∃ last, s.db.lastRow s.runID = some last ∧
          getLastEvent true faults.lastEvent s.db s.runID
            = .ok (last.seqIndex.toNat, last.currentHash)) := by
  unfold getLastEvent LastEventReturns
  rw [decide_eq_true hrun, check_true]
  cases hfault : faults.lastEvent with
  | some f =>
    have hreturned := hf f (Or.inr (Or.inl hfault))
    refine Or.inl ⟨fun h => (by cases h.1), ?_⟩
    cases f with
    | error msg => exact ⟨_, rfl⟩
    | panic msg => cases hreturned
  | none =>
    cases hrow : s.db.lastRow s.runID with
    | none =>
      refine Or.inr ⟨⟨rfl, fun last h => (by cases h)⟩, Or.inl ⟨rfl, rfl⟩⟩
    | some last =>
      by_cases hneg : last.seqIndex < 0
      · refine Or.inl ⟨fun h => absurd (h.2 last rfl) (not_le.mpr hneg), _, if_pos hneg⟩
      · refine Or.inr ⟨⟨rfl, fun l h => ?_⟩, Or.inr ⟨last, rfl, if_neg hneg⟩⟩
        cases h
        exact not_lt.mp hneg

/-- The row that was numbered and linked by `assignSequenceAndPrevHash`. -/
def Event.linked (e : Event) (s : State) (prevHash : Bytes) : Event :=
  { e with seqIndex := s.core.rows.length, runID := s.runID, prevHash }

/-- What `assignSequenceAndPrevHash` does once `GetRunStats` has a result. -/
theorem assignSequenceAndPrevHash_cases {faults : RepoFaults} {s : State} (hf : faults.Returned)
    (hrun : s.runID ≠ []) (hstats : faults.runStats = none) (e : Event) :
    (¬ LastEventReturns faults s ∧
      ∃ msg, assignSequenceAndPrevHash true faults s e = .error (.error msg)) ∨
    LastEventReturns faults s ∧
      (s.db.lastRow s.runID = none ∧
          assignSequenceAndPrevHash true faults s e = .ok (e.linked s zeroHash) ∨
        ∃ last, s.db.lastRow s.runID = some last ∧
          (¬ (last.currentHash ≠ [] ∧ last.seqIndex + 1 = s.core.rows.length) ∧
              Panics (assignSequenceAndPrevHash true faults s e) ∨
            last.currentHash ≠ [] ∧ last.seqIndex + 1 = s.core.rows.length ∧
              assignSequenceAndPrevHash true faults s e = .ok (e.linked s last.currentHash))) := by
  obtain ⟨st, hst, htotal⟩ := getRunStats_ok true s.db hrun
  have htotal' : st.totalEvents = s.core.rows.length := htotal
  rw [← hstats] at hst
  unfold assignSequenceAndPrevHash
  rw [mapError_eq_ok.mpr hst]
  rcases getLastEvent_cases hf hrun with ⟨hnot, msg, hlast⟩ |
    ⟨hreturns, ⟨hnone, hlast⟩ | ⟨last, hsome, hlast⟩⟩
  · rw [hlast]
    exact Or.inl ⟨hnot, _, rfl⟩
  · have hzero : s.core.rows.length = 0 := by
      rw [List.length_eq_zero_iff]
      exact lastRow_eq_none.mp hnone
    refine Or.inr ⟨hreturns, Or.inl ⟨hnone, ?_⟩⟩
    rw [hlast]
    show (if st.totalEvents = 0 then _ else _) = _
    rw [if_pos (htotal'.trans hzero), Event.linked, ← htotal']
    rfl
  · have hpos : s.core.rows.length ≠ 0 := by
      intro hzero
      have hnil : s.db.rowsOf s.runID = [] := List.length_eq_zero_iff.mp hzero
      rw [lastRow_eq_none.mpr hnil] at hsome
      cases hsome
    have hnonneg := hreturns.2 last hsome
    refine Or.inr ⟨hreturns, Or.inr ⟨last, hsome, ?_⟩⟩
    rw [hlast]
    have hgap : st.totalEvents = last.seqIndex.toNat + 1 ↔
        last.seqIndex + 1 = s.core.rows.length := by
      rw [htotal']
      omega
    by_cases hok : last.currentHash ≠ [] ∧ last.seqIndex + 1 = s.core.rows.length
    · refine Or.inr ⟨hok.1, hok.2, ?_⟩
      show (if st.totalEvents = 0 then _ else _) = _
      rw [if_neg (by omega), decide_eq_true hok.1]
      show (check true (decide (st.totalEvents = _)) _ >>= fun _ => _) = _
      rw [decide_eq_true (hgap.mpr hok.2), Event.linked, ← htotal']
      rfl
    · refine Or.inl ⟨hok, ?_⟩
      show Panics (if st.totalEvents = 0 then _ else _)
      rw [if_neg (by omega), panics_check_bind, panics_check_bind, decide_eq_true_eq]
      intro hne hnum
      rw [decide_eq_true_eq] at hnum
      exact absurd ⟨hne, hgap.mp hnum⟩ hok

/-- What `StoreEvent` does with an event that has a run, a hash and a signature. -/
theorem storeEvent_outcome {fault : Option Fault} (hf : ∀ f, fault = some f → f.isPanic = false)
    (db : DB) {e : Event} {row : EventRow} (henc : encodeEvent e = .ok row) (hrun : e.runID ≠ [])
    (hhash : e.currentHash ≠ []) (hsig : e.signature ≠ []) :
    (e.id = [] ∧ Panics (storeEvent true fault db e).1) ∨
    e.id ≠ [] ∧
      (¬ (fault = none ∧ e.id ∉ db.events.map EventRow.id ∧ e.seqIndex < 2 ^ 63) ∧
          (∃ msg, storeEvent true fault db e = (.error (.error msg), db)) ∨
        (fault = none ∧ e.id ∉ db.events.map EventRow.id ∧ e.seqIndex < 2 ^ 63) ∧
          ∃ db', storeEvent true fault db e = (.ok (), db')) := by
  obtain ⟨_, _, -, -, hrow⟩ := encodeEvent_eq_ok henc
  have hid : row.id = e.id := by rw [hrow]
  have hseq : row.seqIndex = e.seqIndex := by rw [hrow]
  unfold storeEvent
  rw [henc]
  dsimp only
  unfold insertEvent
  by_cases hne : e.id = []
  · have hchecks : Panics (insertChecks true row) := by
      unfold insertChecks
      rw [panics_check_bind, hid]
      exact fun h => absurd hne (of_decide_eq_true h)
    obtain ⟨msg, hmsg⟩ := hchecks
    rw [hmsg]
    exact Or.inl ⟨hne, panics_panic msg⟩
  · have hchecks : insertChecks true row = .ok () := by
      rw [insertChecks_eq_ok, hrow]
      exact ⟨hne, hrun, hhash, hsig⟩
    rw [hchecks]
    refine Or.inr ⟨hne, ?_⟩
    cases fault with
    | some f =>
      have hreturned := hf f rfl
      cases f with
      | error msg => exact Or.inl ⟨fun h => (by cases h.1), _, rfl⟩
      | panic msg => cases hreturned
    | none =>
      dsimp only
      rw [hseq]
      by_cases hroom : 2 ^ 63 ≤ (e.seqIndex : Int)
      · rw [if_pos hroom]
        exact Or.inl ⟨fun h => absurd h.2.2 (by omega), _, rfl⟩
      · rw [if_neg hroom, DB.addEvent]
        by_cases hmem : row.id ∈ db.events.map EventRow.id
        · rw [dif_pos hmem]
          exact Or.inl ⟨fun h => h.2.1 (hid ▸ hmem), _, rfl⟩
        · rw [dif_neg hmem]
          exact Or.inr ⟨⟨rfl, hid ▸ hmem, by omega⟩, _, rfl⟩

/-- What keeps an event that can be persisted from being stored. -/
structure Stores (faults : RepoFaults) (s : State) (e : Event) : Prop where
  lastEvent : LastEventReturns faults s
  storeEvent : faults.storeEvent = none
  fresh : e.id ∉ s.ids
  room : s.core.rows.length < 2 ^ 63

/-- Once an event is numbered and linked, hashing and storing it are what is left. -/
theorem persistEvent_linked {faults : RepoFaults} {s : State} {e : Event} {prevHash : Bytes}
    (hf : faults.Returned) (hrun : s.runID ≠ [])
    (hassign : assignSequenceAndPrevHash true faults s e = .ok (e.linked s prevHash)) :
    (¬ (PrevHashOk prevHash ∧ Readable s.core.rows.length e ∧ e.id ≠ []) ∧
      Panics (persistEvent c true faults s e).1) ∨
    (PrevHashOk prevHash ∧ Readable s.core.rows.length e ∧ e.id ≠ []) ∧
      (¬ (faults.storeEvent = none ∧ e.id ∉ s.ids ∧ s.core.rows.length < 2 ^ 63) ∧
          (∃ msg s₁, persistEvent c true faults s e = (.error (.error msg), s₁)) ∨
        (faults.storeEvent = none ∧ e.id ∉ s.ids ∧ s.core.rows.length < 2 ^ 63) ∧
          ∃ e' s₁, persistEvent c true faults s e = (.ok e', s₁)) := by
  have hreadable : Readable s.core.rows.length e ↔
      ∃ w, normalForm (e.linked s prevHash).payload = some w := by
    constructor
    · rintro ⟨⟨x, hx⟩, ⟨p, hp⟩, r, hr⟩
      exact ⟨_, normalForm_payload_of hx hp hr⟩
    · rintro ⟨w, hw⟩
      obtain ⟨x, p, r, hx, hp, hr, -⟩ := normalForm_payload.mp hw
      exact ⟨⟨x, hx⟩, ⟨p, hp⟩, r, hr⟩
  unfold persistEvent
  rw [hassign]
  dsimp only
  by_cases hhashed : PrevHashOk prevHash ∧ Readable s.core.rows.length e
  · obtain ⟨hprev, hread⟩ := hhashed
    obtain ⟨w, hw⟩ := hreadable.mp hread
    obtain ⟨x, hx⟩ := exists_hashInput (p := prevHash) hw
    have hhash := (calculateEventHash_eq_ok c true).mpr ⟨hprev, rfl, x, hx, rfl⟩
    have hsign : hashAndSignEvent c true s.signer (e.linked s prevHash)
        = .ok ((e.linked s prevHash).signedWith c s.signer (hexEncode (c.sha256 x))) := by
      refine bind_eq_ok.mpr ⟨(), ?_, bind_eq_ok.mpr ⟨_, inContext_eq_ok.mpr hhash, rfl⟩⟩
      rw [check_eq_ok, decide_eq_true_eq]
      exact hprev.1
    rw [hsign]
    dsimp only
    obtain ⟨-, ⟨p, hp⟩, r, hr⟩ := hread
    obtain ⟨row, henc⟩ := exists_encodeEvent
      (e := (e.linked s prevHash).signedWith c s.signer (hexEncode (c.sha256 x))) hp hr
    have hlen := calculateEventHash_length c true hhash
    rcases @storeEvent_outcome faults.storeEvent
      (fun f h => hf f (Or.inr (Or.inr h))) s.db _ row henc hrun
      (fun hnil => by rw [show hexEncode (c.sha256 x) = [] from hnil] at hlen; cases hlen)
      (s.signer.signHash_ne_nil c _) with
      ⟨hid, msg, hst⟩ | ⟨hid, ⟨hnot, msg, hst⟩ | ⟨hyes, db, hst⟩⟩
    · refine Or.inl ⟨fun h => h.2.2 hid, ?_⟩
      cases hres : storeEvent true faults.storeEvent s.db
        ((e.linked s prevHash).signedWith c s.signer (hexEncode (c.sha256 x))) with
      | mk res db =>
        rw [hres] at hst
        dsimp only at hst
        rw [hst]
        exact panics_panic msg
    · rw [hst]
      exact Or.inr ⟨⟨hprev, ⟨hreadable.mpr ⟨w, hw⟩, hid⟩⟩, Or.inl ⟨hnot, msg, _, rfl⟩⟩
    · rw [hst]
      exact Or.inr ⟨⟨hprev, ⟨hreadable.mpr ⟨w, hw⟩, hid⟩⟩, Or.inr ⟨hyes, _, _, rfl⟩⟩
  · have hpanics : Panics (hashAndSignEvent c true s.signer (e.linked s prevHash)) := by
      unfold hashAndSignEvent
      rw [panics_check_bind, panics_bind, panics_inContext, panics_calculateEventHash]
      intro hne
      refine Or.inl fun h => hhashed ⟨h.1, hreadable.mpr h.2.2⟩
    obtain ⟨msg, hmsg⟩ := hpanics
    rw [hmsg]
    exact Or.inl ⟨fun h => hhashed ⟨h.1, h.2.1⟩, panics_panic msg⟩

theorem prevHashOk_zeroHash : PrevHashOk zeroHash := prevHashOk_of_length List.length_replicate

/-- **What `persistEvent` does in strict mode**: it trips an assertion, returns an error, or stores
the event, and which of them is decided by the state, the event and the failures. -/
theorem persistEvent_trichotomy {faults : RepoFaults} (s : State) (e : Event)
    (hf : faults.Returned) :
    (¬ PersistReturns faults s e ∧ Panics (persistEvent c true faults s e).1) ∨
    PersistReturns faults s e ∧
      (¬ Stores faults s e ∧
          (∃ msg s₁, persistEvent c true faults s e = (.error (.error msg), s₁)) ∨
        Stores faults s e ∧ ∃ e' s₁, persistEvent c true faults s e = (.ok e', s₁)) := by
  have hearly : Panics (assignSequenceAndPrevHash true faults s e) →
      Panics (persistEvent c true faults s e).1 := by
    rintro ⟨msg, hmsg⟩
    unfold persistEvent
    rw [hmsg]
    exact panics_panic msg
  by_cases hrun : s.runID = []
  · refine Or.inl ⟨fun h => h.run hrun, hearly ?_⟩
    unfold assignSequenceAndPrevHash getRunStats
    rw [hrun]
    exact panics_panic _
  cases hstats : faults.runStats with
  | some f =>
    refine Or.inl ⟨fun h => (by cases hstats.symm.trans h.runStats), hearly ?_⟩
    have hreturned := hf f (Or.inl hstats)
    unfold assignSequenceAndPrevHash getRunStats
    rw [hstats, decide_eq_true hrun]
    cases f with
    | error msg => exact panics_panic _
    | panic msg => cases hreturned
  | none =>
    rcases assignSequenceAndPrevHash_cases hf hrun hstats e with ⟨hnot, msg, hassign⟩ |
      ⟨hlast, ⟨hnone, hassign⟩ | ⟨last, hsome, ⟨hbad, hassign⟩ | ⟨hne, hnum, hassign⟩⟩⟩
    · refine Or.inr ⟨⟨hrun, hstats, fun h => absurd h hnot⟩, Or.inl ⟨fun h => hnot h.lastEvent, ?_⟩⟩
      unfold persistEvent
      rw [hassign]
      exact ⟨msg, s, rfl⟩
    · have hcontinues : Continues s := fun l h => by cases hnone.symm.trans h
      rcases persistEvent_linked c hf hrun hassign with ⟨hno, hp⟩ | ⟨hyes, ⟨hno, hp⟩ | ⟨hall, hp⟩⟩
      · exact Or.inl ⟨fun h => hno ⟨prevHashOk_zeroHash, (h.event hlast).2⟩, hp⟩
      · exact Or.inr ⟨⟨hrun, hstats, fun _ => ⟨hcontinues, hyes.2⟩⟩,
          Or.inl ⟨fun h => hno ⟨h.storeEvent, h.fresh, h.room⟩, hp⟩⟩
      · exact Or.inr ⟨⟨hrun, hstats, fun _ => ⟨hcontinues, hyes.2⟩⟩,
          Or.inr ⟨⟨hlast, hall.1, hall.2.1, hall.2.2⟩, hp⟩⟩
    · refine Or.inl ⟨fun h => hbad ?_, hearly hassign⟩
      obtain ⟨hprev, hnum⟩ := (h.event hlast).1 last hsome
      exact ⟨hprev.1, hnum⟩
    · rcases persistEvent_linked c hf hrun hassign with ⟨hno, hp⟩ | ⟨hyes, hcases⟩
      · exact Or.inl ⟨fun h => hno ⟨((h.event hlast).1 last hsome).1, (h.event hlast).2⟩, hp⟩
      · have hcontinues : Continues s := by
          intro l h
          cases hsome.symm.trans h
          exact ⟨hyes.1, hnum⟩
        refine Or.inr ⟨⟨hrun, hstats, fun _ => ⟨hcontinues, hyes.2⟩⟩, ?_⟩
        rcases hcases with ⟨hno, hp⟩ | ⟨hall, hp⟩
        · exact Or.inl ⟨fun h => hno ⟨h.storeEvent, h.fresh, h.room⟩, hp⟩
        · exact Or.inr ⟨⟨hlast, hall.1, hall.2.1, hall.2.2⟩, hp⟩

/-! ## The completion event -/

/-- What a stored event leaves for the next one. -/
theorem persistEvent_leaves {faults : RepoFaults} {s s₁ : State} {e e' : Event}
    (hf : faults.Returned) (h : persistEvent c true faults s e = (.ok e', s₁)) :
    (∃ row, s₁.db.lastRow s₁.runID = some row ∧ row.seqIndex = s.core.rows.length ∧
      row.currentHash.length = 64) ∧
    s₁.ids = s.ids ++ [e.id] ∧ s₁.core.rows.length = s.core.rows.length + 1 ∧
    s₁.runID = s.runID ∧ s₁.pool = s.pool ∧ s₁.taskStates = s.taskStates := by
  obtain ⟨hprep, row, db, henc, hadd, hs₁⟩ := persistEvent_eq_ok c h
  have hstored : PersistReturns faults s e ∧ Stores faults s e := by
    rcases persistEvent_trichotomy c s e hf with ⟨-, msg, hp⟩ | ⟨hret, ⟨-, msg, s₂, hp⟩ | ⟨hst, -⟩⟩
    · rw [h] at hp
      cases hp
    · cases h.symm.trans hp
    · exact ⟨hret, hst⟩
  obtain ⟨hcontinues, -, -⟩ := hstored.1.event hstored.2.lastEvent
  obtain ⟨-, hevents, -⟩ := DB.addEvent_eq_some hadd
  obtain ⟨_, _, -, -, hrow⟩ := encodeEvent_eq_ok henc
  have hrun : row.runID = s.runID := by rw [hrow, hprep.fields]; rfl
  have hid : row.id = e.id := by rw [hrow, hprep.fields]
  have hseq : row.seqIndex = s.core.rows.length := by rw [hrow, ← hprep.seq]
  have hhash : row.currentHash = e'.currentHash := by rw [hrow]
  have hrows : db.rowsOf s.runID = s.db.rowsOf s.runID ++ [row] := by
    rw [← hrun]
    exact DB.rowsOf_append hevents
  -- every older row has a number below the count of them
  have holder : ∀ r ∈ s.db.rowsOf s.runID, r.seqIndex < row.seqIndex := by
    intro r hr
    cases hlast : s.db.lastRow s.runID with
    | none =>
      rw [lastRow_eq_none.mp hlast] at hr
      cases hr
    | some last =>
      have hle := (lastRow_max hlast).2 r hr
      have hnum := (hcontinues last hlast).2
      omega
  subst hs₁
  refine ⟨⟨row, lastRow_eq_some ?_ fun r hr hne => ?_, hseq, ?_⟩, ?_, ?_, rfl, rfl, rfl⟩
  · show row ∈ db.rowsOf s.runID
    rw [hrows]
    exact List.mem_append_right _ (List.mem_singleton_self _)
  · replace hr : r ∈ db.rowsOf s.runID := hr
    rw [hrows] at hr
    rcases List.mem_append.mp hr with hr | hr
    · exact holder r hr
    · exact absurd (List.mem_singleton.mp hr) hne
  · rw [hhash]
    exact calculateEventHash_length c true hprep.hash
  · show db.events.map EventRow.id = s.db.events.map EventRow.id ++ [e.id]
    rw [hevents, List.map_append, List.map_singleton, hid]
  · show (db.rowsOf s.runID).length = (s.db.rowsOf s.runID).length + 1
    rw [hrows, List.length_append]
    rfl

/-- What has to hold for the event that completes a task to be stored after the one that ended
it. -/
structure CompletionStores (s : State) (env : CompletionEnv) (e : Event) : Prop where
  faults : env.faults = {}
  id : env.id ≠ []
  fresh : env.id ∉ s.ids
  ne : env.id ≠ e.id
  room : s.core.rows.length + 1 < 2 ^ 63

theorem completion_stored_iff {faults : RepoFaults} {s s₁ : State} {e e' : Event}
    {env : CompletionEnv} (hpool : ∀ p ∈ s.pool, Clean p) (hf : faults.Returned)
    (hf' : env.faults.Returned) (h : persistEvent c true faults s e = (.ok e', s₁)) :
    (∃ e₂ s₂, persistEvent c true env.faults (s₁.taken env) (s₁.completion env e) = (.ok e₂, s₂)) ↔
      CompletionStores s env e := by
  obtain ⟨⟨row, hlast, hseq, hhash⟩, hids, hrows, hrun, hpool₁, -⟩ := persistEvent_leaves c hf h
  have hne : s.runID ≠ [] := by
    rcases persistEvent_trichotomy c s e hf with ⟨-, msg, hp⟩ | ⟨hret, -⟩
    · rw [h] at hp
      cases hp
    · exact hret.run
  rw [← hpool₁] at hpool
  have hstorable : env.id ≠ [] → Storable (s₁.completion env e) := fun hid =>
    storable_completionEvent (clean_getEvent hpool env.pick).1 hid _ _
  have htaken : (s₁.taken env).ids = s.ids ++ [e.id] := hids
  have hcount : (s₁.taken env).core.rows.length = s.core.rows.length + 1 := hrows
  have hfresh : (s₁.completion env e).id ∉ (s₁.taken env).ids ↔
      env.id ∉ s.ids ∧ env.id ≠ e.id := by
    rw [htaken, List.mem_append, List.mem_singleton, not_or]
    rfl
  constructor
  · rintro ⟨e₂, s₂, hp₂⟩
    rcases persistEvent_trichotomy c (s₁.taken env) (s₁.completion env e) hf' with
      ⟨-, msg, hp⟩ | ⟨hret, ⟨-, msg, s₃, hp⟩ | ⟨hst, -⟩⟩
    · rw [hp₂] at hp
      cases hp
    · cases hp₂.symm.trans hp
    · obtain ⟨hf₁, hf₂⟩ := hfresh.mp hst.fresh
      have hroom := hst.room
      rw [hcount] at hroom
      exact ⟨RepoFaults.eq_none hret.runStats hst.lastEvent.1 hst.storeEvent,
        (hret.event hst.lastEvent).2.2, hf₁, hf₂, hroom⟩
  · intro hall
    rcases persistEvent_trichotomy c (s₁.taken env) (s₁.completion env e) hf' with
      ⟨hno, -⟩ | ⟨-, ⟨hno, -⟩ | ⟨-, hp⟩⟩
    · refine absurd ⟨?_, by rw [hall.faults], fun _ => ⟨?_, ?_, hall.id⟩⟩ hno
      · show s₁.runID ≠ []
        rw [hrun]
        exact hne
      · intro last hl
        cases hlast.symm.trans hl
        exact ⟨prevHashOk_of_length hhash, by rw [hseq, hcount]; rfl⟩
      · obtain ⟨-, hp, hr⟩ := hstorable hall.id
        have hroom := hall.room
        exact ⟨Float64.exists_ofRat?_natCast (by omega), hp, hr⟩
    · refine absurd ⟨⟨by rw [hall.faults], fun last hl => ?_⟩, by rw [hall.faults],
        hfresh.mpr ⟨hall.fresh, hall.ne⟩, by rw [hcount]; exact hall.room⟩ hno
      cases hlast.symm.trans hl
      rw [hseq]
      exact Int.natCast_nonneg _
    · exact hp

/-! ## ProcessEvent -/

/-- The call returns; it returns nil only if the event, and the one that completes its task where
that was due, were stored; and it returns an error only if nothing changed. -/
structure Reported (s : State) (call : Call) : Prop where
  returns : ¬ Panics (processEvent c true s call).1
  stored : (processEvent c true s call).1 = .ok () → ∃ e row, call.event = some e ∧
    row.id = e.id ∧ row.runID = s.runID ∧
    (s.completionDue e = false ∧ s.db.Added (processEvent c true s call).2.db [row] ∨
      s.completionDue e = true ∧ ∃ row', row'.id = call.completion.id ∧ row'.runID = s.runID ∧
        row'.eventType = lit "task_terminal" ∧ row'.taskID = e.taskID ∧
        row'.taskState = e.taskState ∧
        s.db.Added (processEvent c true s call).2.db [row, row'])
  unchanged : ∀ msg, (processEvent c true s call).1 = .error (.error msg) →
    (processEvent c true s call).2.db = s.db ∧
      (processEvent c true s call).2.taskStates = s.taskStates

/-- What a call has to meet with. -/
def Withstands (s : State) (call : Call) : Prop :=
  ∃ e, call.event = some e ∧ PersistReturns call.faults s e ∧
    (Stores call.faults s e → s.completionDue e = true → CompletionStores s call.completion e)

theorem RowOf.columns {s : State} {e : Event} {row : EventRow} (h : RowOf c s e row) :
    row.id = e.id ∧ row.runID = s.runID ∧ row.eventType = e.eventType ∧ row.taskID = e.taskID ∧
      row.taskState = e.taskState := by
  obtain ⟨e', hprep, henc⟩ := h
  obtain ⟨_, _, -, -, hrow⟩ := encodeEvent_eq_ok henc
  rw [hrow, hprep.fields]
  exact ⟨rfl, rfl, rfl, rfl, rfl⟩

/-- Whatever a call reports is true. -/
theorem Outcome.reported {s : State} {call : Call} {e : Event} {out : Except Fault Unit × State}
    (h : Outcome c s call e out) :
    (out.1 = .ok () → ∃ row, row.id = e.id ∧ row.runID = s.runID ∧
      (s.completionDue e = false ∧ s.db.Added out.2.db [row] ∨
        s.completionDue e = true ∧ ∃ row', row'.id = call.completion.id ∧ row'.runID = s.runID ∧
          row'.eventType = lit "task_terminal" ∧ row'.taskID = e.taskID ∧
          row'.taskState = e.taskState ∧ s.db.Added out.2.db [row, row'])) ∧
    ∀ msg, out.1 = .error (.error msg) → out.2.db = s.db ∧ out.2.taskStates = s.taskStates := by
  cases h with
  | refused persisted =>
    obtain ⟨signed, rfl⟩ := persistEvent_eq_error c persisted
    exact ⟨fun h => (by cases h), fun msg _ => ⟨rfl, rfl⟩⟩
  | stored persisted due =>
    obtain ⟨row, hrow, hadded⟩ := persistEvent_added c persisted
    obtain ⟨hid, hrun, -⟩ := hrow.columns c
    exact ⟨fun _ => ⟨row, hid, hrun, Or.inl ⟨due, hadded⟩⟩, fun msg h => (by cases h)⟩
  | @completed e' e₂ s₁ s₂ _ _ persisted due completed =>
    obtain ⟨row, hrow, hadded⟩ := persistEvent_added c persisted
    obtain ⟨row', hrow', hadded'⟩ := persistEvent_added c completed
    obtain ⟨hid, hrun, -⟩ := hrow.columns c
    obtain ⟨hid', hrun', htype, htask, hstate⟩ := hrow'.columns c
    obtain ⟨-, _, _, -, -, hs₁⟩ := persistEvent_eq_ok c persisted
    have hsame : (s₁.taken call.completion).runID = s.runID := by
      rw [hs₁]
      rfl
    exact ⟨fun _ => ⟨row, hid, hrun, Or.inr ⟨due, row', hid', hrun'.trans hsame, htype, htask,
      hstate, hadded.trans hadded'⟩⟩, fun msg h => (by cases h)⟩
  | broken persisted due refused => exact ⟨fun h => (by cases h), fun msg h => (by cases h)⟩

/-- **When a `ProcessEvent` reports what happened.** In strict mode, for every state, every event
and every pattern of failures that the repository returns: the call returns, nil only if all that
was due is stored and an error only if nothing has changed, if and only if there is an event,
`GetRunStats` does not fail for it, its last row, id and maps are in order where `GetLastEvent` has
a result, and nothing keeps a completion that is due from being stored. -/
theorem processEvent_reported_iff {s : State} {call : Call} (hpool : ∀ p ∈ s.pool, Clean p)
    (hf : call.faults.Returned) (hf' : call.completion.faults.Returned) :
    Reported c s call ↔ Withstands s call := by
  cases hevent : call.event with
  | none =>
    have hpanics : Panics (processEvent c true s call).1 := by
      unfold processEvent
      rw [hevent]
      exact panics_assertionFailed _
    refine iff_of_false (fun h => h.returns hpanics) ?_
    rintro ⟨e, he, -⟩
    cases hevent.symm.trans he
  | some e =>
    have hout := processEvent_outcome c hpool hevent
    obtain ⟨hstored, hunchanged⟩ := hout.reported c
    have hreported : Reported c s call ↔ ¬ Panics (processEvent c true s call).1 := by
      refine ⟨fun h => h.returns, fun h => ⟨h, fun hok => ?_, hunchanged⟩⟩
      obtain ⟨row, hrow⟩ := hstored hok
      exact ⟨e, row, hevent, hrow⟩
    have hwithstands : Withstands s call ↔ PersistReturns call.faults s e ∧
        (Stores call.faults s e → s.completionDue e = true →
          CompletionStores s call.completion e) := by
      constructor
      · rintro ⟨e₁, he₁, h⟩
        cases hevent.symm.trans he₁
        exact h
      · exact fun h => ⟨e, hevent, h⟩
    rw [hreported, hwithstands]
    have htri := persistEvent_trichotomy c s e hf
    generalize processEvent c true s call = out at hout
    cases hout with
    | @refused f s' persisted =>
      rw [persisted] at htri
      rcases htri with ⟨hno, msg, hp⟩ | ⟨hret, ⟨hno, msg, s₁, hp⟩ | ⟨-, e₁, s₁, hp⟩⟩
      · cases hp
        exact iff_of_false (not_not_intro (panics_panic msg)) fun h => hno h.1
      · cases hp
        exact iff_of_true (not_panics_error msg) ⟨hret, fun h => absurd h hno⟩
      · cases hp
    | stored persisted due =>
      rw [persisted] at htri
      rcases htri with ⟨-, msg, hp⟩ | ⟨hret, -⟩
      · cases hp
      · refine iff_of_true (not_panics_ok ()) ⟨hret, fun _ hdue => ?_⟩
        cases due.symm.trans hdue
    | completed persisted due completed =>
      have hiff := completion_stored_iff c hpool hf hf' persisted
      rw [persisted] at htri
      rcases htri with ⟨-, msg, hp⟩ | ⟨hret, -⟩
      · cases hp
      · exact iff_of_true (not_panics_ok ()) ⟨hret, fun _ _ => hiff.mp ⟨_, _, completed⟩⟩
    | @broken e' s₁ s₂ f msg persisted due refused =>
      have hiff := completion_stored_iff c hpool hf hf' persisted
      rw [persisted] at htri
      rcases htri with ⟨-, msg, hp⟩ | ⟨hret, ⟨-, msg, s₃, hp⟩ | ⟨hst, -⟩⟩
      · cases hp
      · cases hp
      · refine iff_of_false (not_not_intro (panics_panic msg)) fun h => ?_
        obtain ⟨e₂, s₃, hp₂⟩ := hiff.mpr (h.2 hst due)
        cases refused.symm.trans hp₂

/-- In a run, the last row can always be followed. -/
theorem RunInv.continues {strict : Bool} {signer : Signer} {runID : Bytes} {s : State}
    (h : RunInv c strict signer runID s.core) : Continues s := by
  intro last hlast
  obtain ⟨init, row, hrows⟩ := (List.eq_nil_or_concat' s.core.rows).resolve_left h.nonempty
  have hlog : rowView.IsLog (init ++ [row]) := hrows ▸ h.isLog
  have hrow : s.db.lastRow s.runID = some row := by
    refine (DB.lastRow_of_isLog h.isLog : s.db.lastRow s.runID = _).trans ?_
    show s.core.rows.getLast? = some row
    rw [hrows, List.getLast?_concat]
  cases hlast.symm.trans hrow
  have hmem : last ∈ s.core.rows := by
    rw [hrows]
    exact List.mem_append_right _ (List.mem_singleton_self _)
  have hnum : last.seqIndex = init.length := hlog.num_last
  refine ⟨prevHashOk_of_length (calculateEventHash_length c strict (h.sound last hmem).1), ?_⟩
  rw [hrows, hnum, List.length_append]
  rfl

/-! ## A disk that fails -/

/-- A call of a tool, outside of any task. -/
def bareCall : Event where
  id := lit "evt-1"
  eventType := lit "tool_call"
  params := some SortedMap.empty

/-- The handling of the call, with what fails. -/
def failingCall (faults : RepoFaults) : Call where
  event := some bareCall
  faults
  completion := { id := lit "evt-2", now := .zero }

theorem returned_of_store {msg : Bytes} :
    RepoFaults.Returned { storeEvent := some (.error msg) } := by
  rintro f (h | h | h)
  · cases h
  · cases h
  · cases h
    rfl

/-- A failure of `StoreEvent` is reported, and leaves everything as it was. -/
theorem processEvent_reported_storeEvent : Reported recordedCrypto
    (newEventProcessor recordedGenesis (lit "run-1"))
    (failingCall { storeEvent := some (.error (lit "disk I/O error")) }) := by
  obtain ⟨hready, -, hrows⟩ := ready_recorded
  refine (processEvent_reported_iff recordedCrypto hready.pool returned_of_store ?_).mpr
    ⟨bareCall, rfl,
      ⟨by decide, rfl, fun _ => ⟨hready.inv.continues recordedCrypto, ?_, by decide⟩⟩,
      fun h => ?_⟩
  · rintro f (h | h | h) <;> cases h
  · rw [hrows]
    exact ⟨Float64.exists_ofRat?_natCast (by decide), exists_reads_of_mapLen rfl,
      exists_reads_of_mapLen rfl⟩
  · cases h.storeEvent

/-- **A failure of `GetRunStats` ends the process** instead of being reported. -/
theorem processEvent_runStats_panics :
    (∀ p ∈ (newEventProcessor recordedGenesis (lit "run-1")).pool, Clean p) ∧
    (processEvent recordedCrypto true (newEventProcessor recordedGenesis (lit "run-1"))
      (failingCall { runStats := some (.error (lit "disk I/O error")) })).1
      = .error (.panic (lit "ASSERTION FAILED: failed to get run stats: disk I/O error")) :=
  ⟨ready_recorded.1.pool, by decide +kernel⟩

end Logryph
