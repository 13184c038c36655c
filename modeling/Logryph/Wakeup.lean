import Logryph.PipelineSteps

/-!
# No lost wake-up

`signalChan` has one slot, so several sends can leave one token. That is enough: whenever the loop
waits and the buffer is not empty, there is a token, or a `Submit` has pushed and not sent yet.

While a batch is handled the argument is a count. The loop was woken with at most as many events in
the buffer as it has room for, which is at most `maxDrainEvents`; each iteration takes one. Without
a token or a pending send nothing was added since. So the loop does not run out of iterations before
the buffer is empty (`LoopPc.Covers`).
-/

namespace Logryph

open Infra

/-- Without further pushes, what the goroutine still does before it waits is enough for `n`
events. -/
def ConsumerPc.Covers (n : Nat) : ConsumerPc → Prop
  | waiting _ => n = 0
  | draining _ pc => pc.Covers n
  | capacity _ => True
  | stopped => True

/-- The loop is at its receive. -/
def ConsumerPc.isWaiting : ConsumerPc → Bool
  | waiting _ => true
  | _ => false

theorem ConsumerPc.isWaiting_iff {pc : ConsumerPc} :
    pc.isWaiting = true ↔ ∃ i, pc = .waiting i := by
  cases pc <;> simp [isWaiting]

namespace Pipeline

variable (c : Crypto) (strict : Bool)

/-- A `Submit` has pushed its event and not sent its token yet. -/
def Pending (p : Pipeline) : Prop := ∃ s ∈ p.submits, s.pc = .send

/-- The invariant of the wake-ups. -/
structure Awake (p : Pipeline) (q : List Event) : Prop where
  holds : p.memory.worker.ringBuffer.Holds q
  capacity : p.memory.worker.ringBuffer.capacity ≤ maxDrainEvents
  opened : p.memory.worker.signalClosed = false
  awake : p.memory.worker.signal = true ∨ p.Pending ∨ p.consumer.Covers q.length

/-- A pending `Submit` stays so while others go on. -/
theorem Pending.set {p : Pipeline} {memory : Memory} {i : Nat} {s s' : Submitting}
    (h : p.Pending) (hs : p.submits[i]? = some s) (hpc : s.pc ≠ .send) :
    { p with memory, submits := p.submits.set i s' }.Pending := by
  obtain ⟨t, ht, hsend⟩ := h
  obtain ⟨k, hk⟩ := List.mem_iff_getElem?.mp ht
  have hne : i ≠ k := by
    rintro rfl
    rw [hs] at hk
    cases hk
    exact hpc hsend
  refine ⟨t, List.mem_iff_getElem?.mpr ⟨k, ?_⟩, hsend⟩
  rw [List.getElem?_set_ne hne]
  exact hk

theorem Pending.append {p : Pipeline} {anchor : AnchorPc} {new : List Submitting}
    (h : p.Pending) : { p with anchor, submits := p.submits ++ new }.Pending := by
  obtain ⟨t, ht, hsend⟩ := h
  exact ⟨t, List.mem_append_left new ht, hsend⟩

/-- **The step lemma.** -/
theorem Awake.step {p p' : Pipeline} {a : Action} {q : List Event} (h : p.Awake q)
    (ha : a.isShutdown = false) (hstep : p.step c strict a = some p') : ∃ q', p'.Awake q' := by
  obtain ⟨q', hcases, hholds, hcap⟩ := step_cases c strict h.holds hstep
  have hcapacity : p'.memory.worker.ringBuffer.capacity ≤ maxDrainEvents := hcap.le.trans h.capacity
  obtain ⟨hq, hsize, hopen, hawake⟩ := h
  cases hcases with
  | submit =>
    exact ⟨q, hholds, hcapacity, hopen, hawake.imp_right (Or.imp_left Pending.append)⟩
  | next call step =>
    cases step with
    | drop before push =>
      refine ⟨q, hholds, hcapacity, hopen, hawake.imp_right (Or.imp_left fun hp => hp.set call ?_)⟩
      rintro rfl
      simp [SubmitPc.admitted] at before
    | enter running after =>
      exact ⟨q, hholds, hcapacity, hopen,
        hawake.imp_right (Or.imp_left fun hp => hp.set call (by simp))⟩
    | goOn before push after =>
      refine ⟨q, hholds, hcapacity, hopen, hawake.imp_right (Or.imp_left fun hp => hp.set call ?_)⟩
      rintro rfl
      cases before
    | push room =>
      -- the event is new in the buffer, and the token is still to be sent
      have hlt := (List.getElem?_eq_some_iff.mp call).1
      exact ⟨_, hholds, hcapacity, hopen, Or.inr (Or.inl ⟨_, List.mem_set hlt _, rfl⟩)⟩
    | lose full =>
      exact ⟨q, hholds, hcapacity, hopen,
        hawake.imp_right (Or.imp_left fun hp => hp.set call (by simp))⟩
    | send opened => exact ⟨q, hholds, hcapacity, hopen, Or.inl rfl⟩
    | crash closed =>
      rw [hopen] at closed
      cases closed
  | consume before step =>
    cases step with
    | receive token => exact ⟨q, hholds, hcapacity, hopen, Or.inr (Or.inr trivial)⟩
    | stop _ => exact ⟨q, hholds, hcapacity, hopen, Or.inr (Or.inr trivial)⟩
    | start capacity =>
      exact ⟨q, hholds, hcapacity, hopen, Or.inr (Or.inr (hq.length_le.trans capacity))⟩
    | loop step going =>
      obtain ⟨hsignal, hclosed, -⟩ := step.signal
      rw [before] at hawake
      refine ⟨_, hholds, hcapacity, hclosed.trans hopen, ?_⟩
      exact hawake.imp hsignal.trans (Or.imp_right (LoopStep.covers c strict step))
    | leave step =>
      obtain ⟨hsignal, hclosed, -⟩ := step.signal
      rw [before] at hawake
      refine ⟨_, hholds, hcapacity, hclosed.trans hopen, ?_⟩
      exact hawake.imp hsignal.trans (Or.imp_right (LoopStep.covers c strict step))
  | tick running free =>
    exact ⟨q, hholds, hcapacity, hopen, hawake.imp_right (Or.imp_left Pending.append)⟩
  | quit free => exact ⟨q, hholds, hcapacity, hopen, hawake⟩
  | shutdown before step => cases ha

theorem awake_initial {ringBuffer : Buffer Event} {state : State} {mode : BackpressureMode}
    (hq : ringBuffer.Holds []) (hcap : ringBuffer.capacity ≤ maxDrainEvents) :
    (initial ringBuffer state mode).Awake [] :=
  ⟨hq, hcap, rfl, Or.inr (Or.inr rfl)⟩

/-- **No lost wake-up.** In every state that is reached without a `Shutdown`, when the loop waits
and the buffer is not empty, there is a token in the channel, or a `Submit` has pushed its event and
not sent its token yet. It does not matter how the last batch has ended. -/
theorem no_lost_wakeup {zero : Event} {capacity : Int} {ringBuffer : Buffer Event}
    (hnew : Buffer.new strict zero capacity = .ok ringBuffer) (hcap : capacity ≤ maxDrainEvents)
    (state : State) (mode : BackpressureMode) {actions : List Action} {p : Pipeline} {i : Nat}
    (hbefore : ∀ a ∈ actions, a.isShutdown = false)
    (hrun : runSteps (step c strict) (initial ringBuffer state mode) actions = some p)
    (hwaiting : p.consumer = .waiting i) (hne : p.memory.worker.ringBuffer.isEmpty = false) :
    p.memory.worker.signal = true ∨ ∃ s ∈ p.submits, s.pc = .send := by
  obtain ⟨hq, hsize⟩ := Buffer.holds_new hnew
  have hok : along (step c strict) (fun _ a => !a.isShutdown) (initial ringBuffer state mode)
      actions = true := along_of_forall fun a ha => by rw [hbefore a ha]; rfl
  obtain ⟨q, hinv⟩ := runSteps_inv (fun p => ∃ q, Awake p q)
    (fun ⟨q, hq⟩ ha hstep => hq.step c strict (Bool.not_eq_true' _ ▸ ha) hstep)
    ⟨[], awake_initial hq (by omega)⟩ hok hrun
  rcases hinv.awake with hsignal | hpending | hcovers
  · exact Or.inl hsignal
  · exact Or.inr hpending
  · -- the loop waits, so it covers no event at all
    rw [hwaiting] at hcovers
    have hnil : q = [] := List.length_eq_zero_iff.mp hcovers
    rw [hinv.holds.isEmpty_iff.mpr hnil] at hne
    cases hne

/-- A `Submit` that has pushed its event. -/
def pushedRun : Option Pipeline :=
  runSteps (step recordedCrypto true) smallPipeline
    [.submit recordedCall, .next 0, .next 0, .next 0]

/-- With the buffer not empty and the loop waiting, the token is still to come. -/
theorem no_lost_wakeup_pushed : ∃ p, pushedRun = some p ∧
    p.memory.worker.ringBuffer.isEmpty = false ∧
    (p.memory.worker.signal = true ∨ ∃ s ∈ p.submits, s.pc = .send) := by
  have hpushed : pushedRun.any (fun p =>
      p.consumer.isWaiting && !p.memory.worker.ringBuffer.isEmpty) = true := by decide +kernel
  obtain ⟨p, hp, hfacts⟩ := (Option.any_eq_true _ _).mp hpushed
  rw [Bool.and_eq_true, Bool.not_eq_true'] at hfacts
  obtain ⟨i, hwaiting⟩ := ConsumerPc.isWaiting_iff.mp hfacts.1
  exact ⟨p, hp, hfacts.2, @no_lost_wakeup recordedCrypto true {} 1 smallBuffer rfl
    (by decide) _ _ _ p i (by decide) hp hwaiting hfacts.2⟩

end Pipeline

end Logryph
