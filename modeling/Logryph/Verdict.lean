import Logryph.Audit
import Logryph.Ledger

/-!
# When VerifyChain gives a verdict

The events that `audit.VerifyChain` checks come from a database that may have been tampered with.
A broken link, a wrong hash and a wrong signature are reported. Fields of another shape trip an
assertion, in `VerifyEvent` or in `CalculateEventHash`.

* `panics_verifyEvent` — the events that trip an assertion
* `verifyFrom_error_iff`, `verifyFrom_eq_some` — how the loop can end before the last event
* `verifyChain_verdict_iff` — when there is a verdict, and that it is then the right one
-/

namespace Logryph

open Infra

variable (c : Crypto)

/-! ## One event -/

/-- The event has the shape that the assertions ask for. -/
structure Checkable (e : Event) : Prop where
  signature : e.signature ≠ []
  currentHash : e.currentHash ≠ []
  prevHash : PrevHashOk e.prevHash
  payload : ∃ w, normalForm e.payload = some w

theorem panics_verifyEvent {signer : Signer} {e : Event} :
    Panics (verifyEvent c true signer e) ↔ ¬ Checkable e := by
  have hrest : ∀ hash, ¬ Panics (if hash ≠ e.currentHash then .error (.error errHashMismatch)
      else if signer.verifySignature c hash e.signature then .ok ()
      else .error (.error errInvalidSignature) : Except Fault Unit) := by
    intro hash
    split
    · exact not_panics_error _
    · split
      · exact not_panics_ok _
      · exact not_panics_error _
  unfold verifyEvent
  rw [panics_check_bind, panics_check_bind, panics_bind, panics_inContext,
    panics_calculateEventHash]
  simp only [hrest, and_false, exists_false, or_false, decide_eq_true_eq]
  constructor
  · exact fun h he => h he.signature he.currentHash ⟨he.prevHash, rfl, he.payload⟩
  · exact fun h hsig hcur hhash => h ⟨hsig, hcur, hhash.1, hhash.2.2⟩

/-! ## The loop -/

/-- The link of the next event. The events before it are those of the loop so far. -/
theorem isChain_toList_cons {prevEvent : Option Event} {e : Event} {events : List Event} :
    (prevEvent.toList ++ e :: events).IsChain Links ↔
      (prevEvent.any fun p => e.prevHash ≠ p.currentHash) = false ∧
        ((some e).toList ++ events).IsChain Links := by
  cases prevEvent with
  | none => simp
  | some p => simp [Links]

section

variable {signer : Signer}

/-- The loop fails at a panic only, at the first event that trips an assertion. -/
theorem verifyFrom_error_iff {strict : Bool} : ∀ {i : Nat} {prevEvent : Option Event}
    {events : List Event}, (∃ f, verifyFrom c strict signer i prevEvent events = .error f) ↔
      ∃ before e after, events = before ++ e :: after ∧
        (prevEvent.toList ++ (before ++ [e])).IsChain Links ∧
        (∀ x ∈ before, verifyEvent c strict signer x = .ok ()) ∧
        Panics (verifyEvent c strict signer e)
  | _, _, [] => by
    simp [verifyFrom]
  | i, prevEvent, event :: events => by
    rw [verifyFrom]
    constructor
    · rintro ⟨f, h⟩
      split at h
      · cases h
      · next hlink =>
        rw [Bool.not_eq_true] at hlink
        split at h
        · next msg hpanic =>
          exact ⟨[], event, events, rfl, isChain_toList_cons.mpr ⟨hlink, by simp⟩, by simp, msg,
            hpanic⟩
        · cases h
        · next hok =>
          obtain ⟨before, e, after, rfl, hchain, hpass, hpanic⟩ := verifyFrom_error_iff.mp ⟨f, h⟩
          exact ⟨event :: before, e, after, rfl, isChain_toList_cons.mpr ⟨hlink, hchain⟩,
            List.forall_mem_cons.mpr ⟨hok, hpass⟩, hpanic⟩
    · rintro ⟨before, e, after, heq, hchain, hpass, hpanic⟩
      -- either the event itself is the one, or it passes and the one comes later
      cases before with
      | nil =>
        cases heq
        obtain ⟨msg, hpanic⟩ := hpanic
        rw [(isChain_toList_cons.mp hchain).1, hpanic]
        exact ⟨_, rfl⟩
      | cons x before =>
        cases heq
        obtain ⟨hlink, hchain⟩ := isChain_toList_cons.mp hchain
        obtain ⟨hok, hpass⟩ := List.forall_mem_cons.mp hpass
        rw [hlink, hok]
        exact verifyFrom_error_iff.mpr ⟨before, e, after, rfl, hchain, hpass, hpanic⟩

/-- The loop stops at the first event that fails. -/
theorem verifyFrom_eq_some {msg : Bytes} {seq : Nat} : ∀ {i : Nat} {prevEvent : Option Event}
    {events : List Event}, verifyFrom c true signer i prevEvent events = .ok (some (msg, seq)) →
      ∃ before e after, events = before ++ e :: after ∧
        (prevEvent.toList ++ before).IsChain Links ∧
        (∀ x ∈ before, verifyEvent c true signer x = .ok ()) ∧
        (¬ (prevEvent.toList ++ (before ++ [e])).IsChain Links ∨
          verifyEvent c true signer e ≠ .ok ()) ∧ seq = e.seqIndex
  | _, _, [], h => by cases h
  | i, prevEvent, event :: events, h => by
    have hprev : (prevEvent.toList ++ []).IsChain Links := by
      cases prevEvent <;> simp
    rw [verifyFrom] at h
    split at h
    · next hbroken =>
      cases h
      refine ⟨[], event, events, rfl, hprev, by simp, Or.inl fun hchain => ?_, rfl⟩
      cases hbroken.symm.trans (isChain_toList_cons.mp hchain).1
    · next hlink =>
      rw [Bool.not_eq_true] at hlink
      split at h
      · cases h
      · next hbad =>
        cases h
        exact ⟨[], event, events, rfl, hprev, by simp, Or.inr (by simp [hbad]), rfl⟩
      · next hok =>
        obtain ⟨before, e, after, rfl, hchain, hpass, hbad, hseq⟩ := verifyFrom_eq_some h
        refine ⟨event :: before, e, after, rfl, isChain_toList_cons.mpr ⟨hlink, hchain⟩,
          List.forall_mem_cons.mpr ⟨hok, hpass⟩, hbad.imp_left fun hnot hchain' => ?_, hseq⟩
        exact hnot (isChain_toList_cons.mp hchain').2

end

/-! ## The verdict -/

/-- Every event passes, and so does every link. -/
def Passing (signer : Signer) (events : List Event) : Prop :=
  events.IsChain Links ∧ ∀ e ∈ events, verifyEvent c true signer e = .ok ()

/-- The first event whose link or own check fails. -/
def FirstFailing (signer : Signer) (events : List Event) (e : Event) : Prop :=
  ∃ before after, events = before ++ e :: after ∧ Passing c signer before ∧
    (¬ (before ++ [e]).IsChain Links ∨ verifyEvent c true signer e ≠ .ok ())

/-- What `VerifyChain` is to return for the events. -/
structure VerdictOn (signer : Signer) (events : List Event) (r : VerificationResult) : Prop where
  valid : r.valid = true ↔ events ≠ [] ∧ Passing c signer events
  failedAt : events ≠ [] → r.valid = false →
    ∃ e, FirstFailing c signer events e ∧ r.failedAtSeq = e.seqIndex

/-- The events that the loop gets to, and whose links are intact, have the shape that the assertions
ask for. -/
def ReachedCheckable (signer : Signer) (events : List Event) : Prop :=
  ∀ before e after, events = before ++ e :: after → (before ++ [e]).IsChain Links →
    (∀ x ∈ before, verifyEvent c true signer x = .ok ()) → Checkable e

/-- What is returned is right. -/
theorem verdictOn_of_ok {reader : Bytes → Except Fault (List Event)} {runID : Bytes}
    {signer : Signer} {events : List Event} {r : VerificationResult}
    (hread : reader runID = .ok events) (hlen : events.length ≤ maxVerifyEvents)
    (h : verifyChain c true reader runID signer = .ok r) : VerdictOn c signer events r := by
  have hvalid : r.valid = true ↔ events ≠ [] ∧ Passing c signer events := by
    constructor
    · intro hr
      obtain ⟨-, events', hread', hv, -⟩ := (verifyChain_accepts c true).mp ⟨h, hr⟩
      cases hread.symm.trans hread'
      exact ⟨hv.nonempty, hv.linked, hv.sound⟩
    · rintro ⟨hne, hlinked, hsound⟩
      have hrun : runID ≠ [] := by
        rw [verifyChain, bind_eq_ok] at h
        obtain ⟨_, hcheck, -⟩ := h
        simpa using hcheck
      obtain ⟨hok, -⟩ := (verifyChain_accepts c true).mpr
        ⟨hrun, events, hread, ⟨hne, hlen, hlinked, hsound⟩, rfl⟩
      cases h.symm.trans hok
      rfl
  refine ⟨hvalid, fun hne hr => ?_⟩
  unfold verifyChain at h
  simp only [bind_eq_ok, check_eq_ok, inContext_eq_ok, exists_const] at h
  obtain ⟨-, events', hread', h⟩ := h
  cases hread.symm.trans hread'
  rw [if_neg (by simpa using hne)] at h
  simp only [bind_eq_ok, check_eq_ok, exists_const] at h
  obtain ⟨-, failure, hloop, h⟩ := h
  rw [List.take_of_length_le hlen] at hloop
  split at h
  · cases h
    cases hr
  · next msg seq =>
    cases h
    obtain ⟨before, e, after, heq, hchain, hpass, hbad, hseq⟩ := verifyFrom_eq_some c hloop
    exact ⟨e, ⟨before, after, heq, ⟨hchain, hpass⟩, hbad⟩, hseq⟩

/-- `VerifyChain` returns unless the loop panics. -/
theorem exists_verifyChain_iff {reader : Bytes → Except Fault (List Event)} {runID : Bytes}
    {signer : Signer} {events : List Event} (hread : reader runID = .ok events)
    (hlen : events.length ≤ maxVerifyEvents) :
    (∃ r, verifyChain c true reader runID signer = .ok r) ↔
      runID ≠ [] ∧ ReachedCheckable c signer events := by
  have hfails : (∃ f, verifyFrom c true signer 0 none events = .error f) ↔
      ¬ ReachedCheckable c signer events := by
    simp only [verifyFrom_error_iff, panics_verifyEvent, ReachedCheckable]
    push Not
    rfl
  unfold verifyChain
  simp only [bind_eq_ok, check_eq_ok, inContext_eq_ok, decide_eq_true_eq, exists_const, hread,
    Except.ok.injEq, exists_eq_left']
  by_cases hnil : events = []
  · have hreach : ReachedCheckable c signer events := by
      intro before e after heq
      simp [hnil] at heq
    rw [if_pos (by simp [hnil])]
    simp [hreach]
  · rw [if_neg (by simpa using hnil)]
    simp only [bind_eq_ok, check_eq_ok, decide_eq_true_eq, exists_const,
      List.take_of_length_le hlen]
    constructor
    · rintro ⟨r, hrun, -, failure, hloop, -⟩
      refine ⟨hrun, ?_⟩
      by_contra hreach
      obtain ⟨f, hf⟩ := hfails.mpr hreach
      cases hloop.symm.trans hf
    · rintro ⟨hrun, hreach⟩
      cases hloop : verifyFrom c true signer 0 none events with
      | error f => exact absurd hreach (hfails.mp ⟨f, hloop⟩)
      | ok failure =>
        cases failure with
        | none => exact ⟨_, hrun, hlen, none, rfl, rfl⟩
        | some failure => exact ⟨_, hrun, hlen, some failure, rfl, rfl⟩

/-- **When `VerifyChain` gives a verdict.** For every list of at most 100000 events: it returns,
with the right answer and the number of the first event that fails, if and only if the run id is not
empty and every event that it gets to with an intact link has a signature, a hash, a previous hash
of an accepted form and a payload that can be written as JSON and read back. -/
theorem verifyChain_verdict_iff {reader : Bytes → Except Fault (List Event)} {runID : Bytes}
    {signer : Signer} {events : List Event} (hread : reader runID = .ok events)
    (hlen : events.length ≤ maxVerifyEvents) :
    (∃ r, verifyChain c true reader runID signer = .ok r ∧ VerdictOn c signer events r) ↔
      runID ≠ [] ∧ ReachedCheckable c signer events := by
  rw [← exists_verifyChain_iff c hread hlen]
  constructor
  · rintro ⟨r, hr, -⟩
    exact ⟨r, hr⟩
  · rintro ⟨r, hr⟩
    exact ⟨r, hr, verdictOn_of_ok c hread hlen hr⟩

/-- An event with the given signature and hashes. -/
def forgedEvent (prevHash currentHash signature : Bytes) : Event where
  id := lit "evt-1"
  runID := lit "run-1"
  seqIndex := 7
  eventType := lit "tool_call"
  prevHash := prevHash
  currentHash := currentHash
  signature := signature

/-- The genesis event of the recorded run, and an event that is linked to it with a wrong hash. -/
def forgedEvents : List Event :=
  recordedGenesis.signed ++ (recordedGenesis.signed.map fun e =>
    forgedEvent e.currentHash (lit "00") (lit "00"))

/-- What is evaluated: the shape of the two events, and the verdict. -/
theorem forgedEvents_evaluated : forgedEvents.length = 2 ∧
    (forgedEvents.all fun e => decide (e.signature ≠ []) && decide (e.currentHash ≠ []) &&
      decide (PrevHashOk e.prevHash) && (normalForm e.payload).isSome) = true ∧
    (verifyChain recordedCrypto true (fun _ => .ok forgedEvents) (lit "run-1")
        recordedSigner).toOption.map (fun r => (r.valid, r.totalEvents, r.failedAtSeq))
      = some (false, 2, 7) := by
  decide +kernel

/-- A verdict on the two events: the first one passes, and the second one fails. -/
theorem verifyChain_verdict_forged :
    ∃ r, verifyChain recordedCrypto true (fun _ => .ok forgedEvents) (lit "run-1") recordedSigner
        = .ok r ∧
      VerdictOn recordedCrypto recordedSigner forgedEvents r ∧ r.valid = false ∧
      r.failedAtSeq = 7 := by
  obtain ⟨hlen, hshape, hresult⟩ := forgedEvents_evaluated
  have hcheckable : ∀ e ∈ forgedEvents, Checkable e := by
    intro e he
    have h := List.all_eq_true.mp hshape e he
    simp only [Bool.and_eq_true, decide_eq_true_eq] at h
    exact ⟨h.1.1.1, h.1.1.2, h.1.2, Option.isSome_iff_exists.mp h.2⟩
  have hmax : forgedEvents.length ≤ maxVerifyEvents := by
    rw [hlen]
    decide
  obtain ⟨r, hr, hverdict⟩ := (@verifyChain_verdict_iff recordedCrypto (fun _ => .ok forgedEvents)
    (lit "run-1") recordedSigner forgedEvents rfl hmax).mpr
      ⟨by decide, fun before e after heq _ _ => hcheckable e (by rw [heq]; simp)⟩
  rw [hr] at hresult
  simp only [Except.toOption, Option.map_some, Option.some.injEq, Prod.mk.injEq] at hresult
  exact ⟨r, hr, hverdict, hresult.1, hresult.2.2⟩

/-- **Events that are not reported.** One without a signature, one without a hash, and one with an
empty previous hash. -/
theorem verifyChain_panics : ∃ msg₁ msg₂ msg₃,
    verifyChain (.ofTables [] [] []) true (fun _ => .ok [forgedEvent zeroHash (lit "00") []])
      (lit "run-1") ⟨[], []⟩ = .error (.panic msg₁) ∧
    verifyChain (.ofTables [] [] []) true (fun _ => .ok [forgedEvent zeroHash [] (lit "00")])
      (lit "run-1") ⟨[], []⟩ = .error (.panic msg₂) ∧
    verifyChain (.ofTables [] [] []) true (fun _ => .ok [forgedEvent [] (lit "00") (lit "00")])
      (lit "run-1") ⟨[], []⟩ = .error (.panic msg₃) :=
  ⟨_, _, _, rfl, rfl, rfl⟩

end Logryph
