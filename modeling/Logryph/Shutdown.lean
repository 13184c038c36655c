import Logryph.PipelineSteps

/-!
# Submit and Shutdown

`Submit` tests `closing` once at its start, and in the blocking mode while it waits. Between that
test and its send `Shutdown` can set the flag and close the channel, and a send on a closed channel
panics. What would keep them apart is that the channel is closed only when no `Submit` is on its
way (`closesQuietly`); a `Submit` that starts later sees the flag.

* `no_send_on_closed` — then no `Submit` panics, in any interleaving
* `send_on_closed` — otherwise one can
-/

namespace Logryph

open Infra

namespace Pipeline

/-- A `Submit` is between its test of `closing` and the end of its send. -/
def onItsWay (s : Submitting) : Bool := s.pc.admitted || s.pc = .send

/-- The channel is closed only when no `Submit` is on its way. -/
def closesQuietly (p : Pipeline) : Action → Bool
  | .shutdown _ _ =>
    match p.shutdown with
    | .closeSignal => p.submits.all fun s => !onItsWay s
    | _ => true
  | _ => true

variable (c : Crypto) (strict : Bool)

/-- The invariant of a quiet `Shutdown`. -/
structure Quiet (p : Pipeline) (q : List Event) : Prop where
  holds : p.memory.worker.ringBuffer.Holds q
  closing : p.shutdown = .idle ∨ p.memory.worker.closing = true
  closed : p.memory.worker.signalClosed = true →
    p.memory.worker.closing = true ∧ ∀ s ∈ p.submits, onItsWay s = false
  alive : ∀ s ∈ p.submits, s.pc ≠ .panicked

/-- A `Submit` that goes on without a panic stays out of the way of a closed channel. -/
theorem Quiet.next {p : Pipeline} {q q' : List Event} {i : Nat} {event : Event} {anchor : Bool}
    {pc pc' : SubmitPc} {memory : Memory} (h : p.Quiet q)
    (call : p.submits[i]? = some ⟨event, anchor, pc⟩)
    (step : SubmitStep p.memory event q pc memory pc' q')
    (hholds : memory.worker.ringBuffer.Holds q') :
    { p with memory, submits := p.submits.set i ⟨event, anchor, pc'⟩ }.Quiet q' := by
  obtain ⟨hclosing', hclosed'⟩ := step.flags
  have hmem : (⟨event, anchor, pc⟩ : Submitting) ∈ p.submits := List.mem_of_getElem? call
  -- on a closed channel there is nobody on the way, and nobody new is let in
  have hnew : p.memory.worker.signalClosed = true → onItsWay ⟨event, anchor, pc'⟩ = false := by
    intro hclosed
    obtain ⟨hclosing, hnone⟩ := h.closed hclosed
    have hpc := hnone _ hmem
    cases step with
    | enter running after =>
      rw [hclosing] at running
      cases running
    | goOn before push after =>
      rw [onItsWay, before] at hpc
      cases hpc
    | push room => cases hpc
    | _ => rfl
  have hpanic : pc' ≠ .panicked := by
    rintro rfl
    cases step with
    | enter running after => cases after
    | goOn before push after => cases after
    | crash closed => cases (h.closed closed).2 _ hmem
  refine ⟨hholds, h.closing.imp_right hclosing'.trans, fun hclosed => ?_, fun s hs => ?_⟩
  · have hbefore := hclosed'.symm.trans hclosed
    refine ⟨hclosing'.trans (h.closed hbefore).1, fun s hs => ?_⟩
    rcases List.mem_or_eq_of_mem_set hs with hs | rfl
    · exact (h.closed hbefore).2 s hs
    · exact hnew hbefore
  · rcases List.mem_or_eq_of_mem_set hs with hs | rfl
    · exact h.alive s hs
    · exact hpanic

/-- A new `Submit` is at its start. -/
theorem Quiet.append {p : Pipeline} {q : List Event} {anchor : AnchorPc} {new : List Submitting}
    (h : p.Quiet q) (hnew : ∀ s ∈ new, s.pc = .closing) :
    { p with anchor, submits := p.submits ++ new }.Quiet q := by
  refine ⟨h.holds, h.closing, fun hclosed => ⟨(h.closed hclosed).1, fun s hs => ?_⟩, fun s hs => ?_⟩
  · rcases List.mem_append.mp hs with hs | hs
    · exact (h.closed hclosed).2 s hs
    · rw [onItsWay, hnew s hs]
      rfl
  · rcases List.mem_append.mp hs with hs | hs
    · exact h.alive s hs
    · rw [hnew s hs]
      simp

/-- **The step lemma.** -/
theorem Quiet.step {p p' : Pipeline} {a : Action} {q : List Event} (h : p.Quiet q)
    (hok : p.closesQuietly a = true) (hstep : p.step c strict a = some p') : ∃ q', p'.Quiet q' := by
  obtain ⟨q', hcases, hholds, -⟩ := step_cases c strict h.holds hstep
  cases hcases with
  | submit => exact ⟨q, h.append (by simp)⟩
  | next call step => exact ⟨q', h.next call step hholds⟩
  | consume before step =>
    obtain ⟨hclosing, hclosed⟩ := step.flags
    refine ⟨q', hholds, h.closing.imp_right hclosing.trans, fun hc => ?_, h.alive⟩
    exact ⟨hclosing.trans (h.closed (hclosed.symm.trans hc)).1,
      (h.closed (hclosed.symm.trans hc)).2⟩
  | tick running free => exact ⟨q, h.append (by simp)⟩
  | quit free => exact ⟨q, h.holds, h.closing, h.closed, h.alive⟩
  | shutdown before step =>
    have hclosing : p.shutdown ≠ .idle → p.memory.worker.closing = true := h.closing.resolve_left
    rw [before] at hclosing
    cases step with
    | close => exact ⟨q, hholds, Or.inr rfl, fun hc => ⟨rfl, (h.closed hc).2⟩, h.alive⟩
    | closeQuit => exact ⟨q, hholds, Or.inr (hclosing (by simp)), h.closed, h.alive⟩
    | closeSignal =>
      rw [closesQuietly, before] at hok
      refine ⟨q, hholds, Or.inr (hclosing (by simp)), fun _ => ⟨hclosing (by simp), ?_⟩, h.alive⟩
      intro s hs
      simpa using List.all_eq_true.mp hok s hs
    | stopWaiting ready => exact ⟨q, hholds, Or.inr (hclosing (by simp)), h.closed, h.alive⟩
    | giveUp release capacity =>
      exact ⟨q, hholds, Or.inr (hclosing (by simp)), h.closed, h.alive⟩
    | start capacity => exact ⟨q, hholds, Or.inr (hclosing (by simp)), h.closed, h.alive⟩
    | loop step going =>
      obtain ⟨-, hclosed, hflag⟩ := step.signal
      have hset := hflag.trans (hclosing (by simp))
      exact ⟨q', hholds, Or.inr hset,
        fun hc => ⟨hset, (h.closed (hclosed.symm.trans hc)).2⟩, h.alive⟩
    | leave step =>
      obtain ⟨-, hclosed, hflag⟩ := step.signal
      have hset := hflag.trans (hclosing (by simp))
      exact ⟨q', hholds, Or.inr hset,
        fun hc => ⟨hset, (h.closed (hclosed.symm.trans hc)).2⟩, h.alive⟩

/-- **`Submit` and `Shutdown` do not collide**, in any interleaving in which the channel is closed
only when no `Submit` is on its way: no `Submit`, by `anchorLoop` or by anybody else, sends on the
closed channel and panics. -/
theorem no_send_on_closed {zero : Event} {capacity : Int} {ringBuffer : Buffer Event}
    (hnew : Buffer.new strict zero capacity = .ok ringBuffer) (state : State)
    (mode : BackpressureMode) {actions : List Action} {p : Pipeline}
    (hok : along (step c strict) closesQuietly (initial ringBuffer state mode) actions = true)
    (hrun : runSteps (step c strict) (initial ringBuffer state mode) actions = some p) :
    ∀ s ∈ p.submits, s.pc ≠ .panicked := by
  have hinit : (initial ringBuffer state mode).Quiet [] :=
    ⟨(Buffer.holds_new hnew).1, Or.inl rfl, fun hc => (by cases hc), List.forall_mem_nil _⟩
  obtain ⟨q, hinv⟩ := runSteps_inv (fun p => ∃ q, Quiet p q)
    (fun ⟨q, hq⟩ ha hstep => hq.step c strict ha hstep) ⟨[], hinit⟩ hok hrun
  exact hinv.alive

/-- The channel is closed. -/
def close : List Action := List.replicate 3 (.shutdown quietEnv false)

/-- A `Submit` that has ended before the channel is closed. -/
theorem no_send_on_closed_quiet : ∃ p, runSteps (step recordedCrypto true) smallPipeline
      (.submit recordedCall :: (List.replicate 4 (.next 0) ++ close)) = some p ∧
    p.memory.worker.signalClosed = true ∧ ∀ s ∈ p.submits, s.pc ≠ .panicked := by
  have hclosed : (runAlong (step recordedCrypto true) closesQuietly smallPipeline
      (.submit recordedCall :: (List.replicate 4 (.next 0) ++ close))).any
        (fun p => p.memory.worker.signalClosed) = true := by decide +kernel
  obtain ⟨p, hok, hp, hfact⟩ := exists_of_runAlong hclosed
  exact ⟨p, hp, hfact, @no_send_on_closed recordedCrypto true {} 1 smallBuffer rfl _ _ _ p hok hp⟩

/-- **They collide**: a `Submit` has passed its test when the channel is closed, and goes on to its
send. If it was called by `anchorLoop`, that is the end of the process. -/
theorem send_on_closed :
    (runSteps (step recordedCrypto true) smallPipeline
      (.submit recordedCall :: .next 0 :: (close ++ List.replicate 3 (.next 0)))).any
        (fun p => p.submits.any fun s => s.pc = .panicked) = true ∧
    (runSteps (step recordedCrypto true) smallPipeline
      (.tick (some recordedCall) :: .next 0 :: (close ++ List.replicate 3 (.next 0)))).any
        (fun p => p.crashed) = true := by
  decide +kernel

end Pipeline

end Logryph
