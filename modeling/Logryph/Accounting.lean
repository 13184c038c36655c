import Logryph.PipelineSteps

/-!
# Every event is accounted for

Each `Submit` ends in one of four ways: its event is dropped and counted, it is pushed, `Push`
refuses it, or the send after `Push` panics. `IsFull` and `Push` are two steps, so `Push` can refuse
an event although the buffer was not full before; such an event is counted nowhere.

* `Accounted.step` — the counters are right, up to the events that `Push` has refused
* `events_accounted` — so they are right if `Push` never meets a full buffer; and if nothing is
  pushed once `drainBuffer` has started, the buffer is empty when `Shutdown` has returned
* `event_lost` — otherwise an event can be lost, and one can be left behind
-/

namespace Logryph

open Infra

/-- How many events a loop has taken and not finished. -/
def LoopPc.held : LoopPc → Nat
  | process _ _ _ => 1
  | _ => 0

def ConsumerPc.held : ConsumerPc → Nat
  | draining _ pc => pc.held
  | _ => 0

def ShutdownPc.held : ShutdownPc → Nat
  | draining pc => pc.held
  | _ => 0

/-- `drainBuffer` has started. -/
def ShutdownPc.drains : ShutdownPc → Bool
  | draining _ => true
  | returned => true
  | _ => false

def ShutdownPc.hasReturned : ShutdownPc → Bool
  | returned => true
  | _ => false

/-- Events move from the buffer to a loop that holds `n` of them, and from there to those that were
handled. Nothing else is counted. -/
structure Memory.Moves (m : Memory) (n : Nat) (q : List Event) (m' : Memory) (n' : Nat)
    (q' : List Event) : Prop where
  total : m'.handled.length + n' + q'.length = m.handled.length + n + q.length
  processed : m'.worker.processedEvents = UInt64.ofNat m'.handled.length
  pushed : m'.pushed = m.pushed
  dropped : m'.worker.droppedEvents = m.worker.droppedEvents

section

variable {c : Crypto} {strict : Bool} {env : Worker.HandleEnv} {m m' : Memory} {q q' : List Event}

theorem LoopStep.moves {pc pc' : LoopPc} (h : LoopStep c strict env m q pc m' pc' q')
    (hprocessed : m.worker.processedEvents = UInt64.ofNat m.handled.length) :
    m.Moves pc.held q m' pc'.held q' := by
  cases h with
  | take first =>
    refine ⟨?_, hprocessed, rfl, rfl⟩
    simp only [LoopPc.held, first, List.length_cons]
    omega
  | finish =>
    refine ⟨?_, ?_, rfl, rfl⟩
    · simp only [LoopPc.held, List.length_append, List.length_singleton]
    · simp only [List.length_append, List.length_singleton, UInt64.ofNat_add, hprocessed]
      rfl
  | _ => exact ⟨rfl, hprocessed, rfl, rfl⟩

theorem ConsumerStep.moves {pc pc' : ConsumerPc} (h : ConsumerStep c strict env m q pc m' pc' q')
    (hprocessed : m.worker.processedEvents = UInt64.ofNat m.handled.length) :
    m.Moves pc.held q m' pc'.held q' := by
  cases h with
  | stop before => rcases before with ⟨i, rfl⟩ | ⟨i, rfl⟩ <;> exact ⟨rfl, hprocessed, rfl, rfl⟩
  | loop step going => exact step.moves hprocessed
  | leave step => exact step.moves hprocessed
  | _ => exact ⟨rfl, hprocessed, rfl, rfl⟩

theorem ShutdownStep.moves {goOn : Bool} {pc pc' : ShutdownPc}
    (h : ShutdownStep c strict env goOn m q pc m' pc' q')
    (hprocessed : m.worker.processedEvents = UInt64.ofNat m.handled.length) :
    m.Moves pc.held q m' pc'.held q' := by
  cases h with
  | loop step going => exact step.moves hprocessed
  | leave step => exact step.moves hprocessed
  | _ => exact ⟨rfl, hprocessed, rfl, rfl⟩

end

/-- A step of `Submit` that drops its event counts it, and one that pushes it puts it into the
buffer. -/
theorem SubmitStep.counts {m m' : Memory} {e : Event} {pc pc' : SubmitPc} {q q' : List Event}
    (h : SubmitStep m e q pc m' pc' q') :
    (pc ≠ .dropped ∧ m'.worker.droppedEvents
        = m.worker.droppedEvents + UInt64.ofNat (decide (pc' = .dropped)).toNat) ∧
      m'.pushed.length + pc.hasPushed.toNat = m.pushed.length + pc'.hasPushed.toNat ∧
      q'.length + m.pushed.length = q.length + m'.pushed.length ∧ m'.handled = m.handled ∧
      m'.worker.processedEvents = m.worker.processedEvents := by
  have hadmitted : ∀ {pc : SubmitPc}, pc.admitted = true →
      pc ≠ .dropped ∧ pc.hasPushed = false := by
    intro pc hpc
    cases pc <;> simp [SubmitPc.admitted] at hpc <;> simp [SubmitPc.hasPushed]
  cases h with
  | drop before push =>
    have hpc : pc ≠ .dropped ∧ pc.hasPushed = false := by
      rcases before with ⟨rfl, -⟩ | hpc
      · exact ⟨by simp, rfl⟩
      · exact hadmitted hpc
    exact ⟨⟨hpc.1, rfl⟩, by rw [hpc.2]; rfl, rfl, rfl, rfl⟩
  | enter running after =>
    obtain ⟨hne, hnot⟩ := hadmitted after
    exact ⟨⟨by simp, by simp [hne]⟩, by rw [hnot]; rfl, rfl, rfl, rfl⟩
  | goOn before push after =>
    obtain ⟨hne, hnot⟩ := hadmitted before
    obtain ⟨hne', hnot'⟩ := hadmitted after
    exact ⟨⟨hne, by simp [hne']⟩, by rw [hnot, hnot'], rfl, rfl, rfl⟩
  | push room =>
    refine ⟨⟨by simp, by simp⟩, by simp [SubmitPc.hasPushed], ?_, rfl, rfl⟩
    simp only [List.length_append, List.length_singleton]
    omega
  | lose full => exact ⟨⟨by simp, by simp⟩, rfl, rfl, rfl, rfl⟩
  | send opened => exact ⟨⟨by simp, by simp⟩, rfl, rfl, rfl, rfl⟩
  | crash closed => exact ⟨⟨by simp, by simp⟩, rfl, rfl, rfl, rfl⟩

/-- A change of one element moves a count by one at most. -/
theorem countP_set_add {α : Type} {f : α → Bool} {l : List α} {i : Nat} {x y : α}
    (h : l[i]? = some x) :
    (l.set i y).countP f + (f x).toNat = l.countP f + (f y).toNat := by
  obtain ⟨hlt, hx⟩ := List.getElem?_eq_some_iff.mp h
  rw [List.countP_set hlt, hx]
  cases hfx : f x with
  | false => simp [Bool.toNat, Bool.cond_eq_ite]
  | true =>
    have hpos : 0 < l.countP f := List.countP_pos_iff.mpr ⟨x, List.mem_of_getElem? h, hfx⟩
    simp only [Bool.toNat, Bool.cond_eq_ite, if_true]
    omega

namespace Pipeline

/-- How many events the loops have taken and not finished. -/
def held (p : Pipeline) : Nat := p.consumer.held + p.shutdown.held

/-- `Push` meets with room in the buffer, and `drainBuffer` has not started. -/
def pushesInTime (p : Pipeline) : Action → Bool
  | .next i =>
    match p.submits[i]? with
    | some ⟨_, _, .push⟩ => !p.memory.worker.ringBuffer.isFull && !p.shutdown.drains
    | _ => true
  | _ => true

variable (c : Crypto) (strict : Bool)

/-- The counters fit to what has happened. -/
structure Accounted (p : Pipeline) (q : List Event) : Prop where
  holds : p.memory.worker.ringBuffer.Holds q
  dropped : p.memory.worker.droppedEvents = UInt64.ofNat (p.submits.countP (·.pc = .dropped))
  processed : p.memory.worker.processedEvents = UInt64.ofNat p.memory.handled.length
  pushed : p.memory.pushed.length = p.submits.countP (·.pc.hasPushed)
  taken : p.memory.pushed.length = p.memory.handled.length + p.held + q.length

theorem Accounted.next {p : Pipeline} {q q' : List Event} {i : Nat} {event : Event}
    {anchor : Bool} {pc pc' : SubmitPc} {memory : Memory} (h : p.Accounted q)
    (call : p.submits[i]? = some ⟨event, anchor, pc⟩)
    (step : SubmitStep p.memory event q pc memory pc' q')
    (hholds : memory.worker.ringBuffer.Holds q') :
    { p with memory, submits := p.submits.set i ⟨event, anchor, pc'⟩ }.Accounted q' := by
  obtain ⟨⟨hne, hdropped⟩, hpushed, hqueue, hhandled, hprocessed⟩ := step.counts
  have hcount := countP_set_add (f := fun s : Submitting => s.pc = .dropped)
    (y := ⟨event, anchor, pc'⟩) call
  have hcount' := countP_set_add (f := fun s : Submitting => s.pc.hasPushed)
    (y := ⟨event, anchor, pc'⟩) call
  have hbefore := h.pushed
  have htaken := h.taken
  refine ⟨hholds, ?_, ?_, ?_, ?_⟩
  · dsimp only at hcount ⊢
    rw [decide_eq_false hne] at hcount
    rw [hdropped, h.dropped, ← UInt64.ofNat_add, ← hcount]
    rfl
  · dsimp only
    rw [hprocessed, hhandled]
    exact h.processed
  · dsimp only at hcount' ⊢
    omega
  · show memory.pushed.length = memory.handled.length + p.held + q'.length
    rw [hhandled]
    omega

theorem Accounted.append {p : Pipeline} {q : List Event} {anchor : AnchorPc}
    {new : List Submitting} (h : p.Accounted q) (hnew : ∀ s ∈ new, s.pc = .closing) :
    { p with anchor, submits := p.submits ++ new }.Accounted q := by
  have hnone : ∀ f : SubmitPc → Bool, f .closing = false →
      (p.submits ++ new).countP (fun s => f s.pc) = p.submits.countP (fun s => f s.pc) := by
    intro f hf
    have hzero : new.countP (fun s => f s.pc) = 0 :=
      List.countP_eq_zero.mpr fun s hs => by rw [hnew s hs, hf]; simp
    rw [List.countP_append, hzero, Nat.add_zero]
  refine ⟨h.holds, ?_, h.processed, ?_, h.taken⟩
  · exact h.dropped.trans (congrArg _ (hnone (fun pc => decide (pc = .dropped)) rfl).symm)
  · exact h.pushed.trans (hnone SubmitPc.hasPushed rfl).symm

/-- **The step lemma**: the counters stay right. -/
theorem Accounted.step {p p' : Pipeline} {a : Action} {q q' : List Event} (h : p.Accounted q)
    (hstep : Step c strict p q a p' q') (hholds : p'.memory.worker.ringBuffer.Holds q') :
    p'.Accounted q' := by
  have htaken := h.taken
  unfold held at htaken
  cases hstep with
  | submit => exact h.append (by simp)
  | next call step => exact h.next call step hholds
  | @consume _ _ pc' memory _ before step =>
    have hmoves := step.moves h.processed
    have htotal := hmoves.total
    rw [before] at htaken
    refine ⟨hholds, hmoves.dropped.trans h.dropped, hmoves.processed, ?_, ?_⟩
    · exact (congrArg List.length hmoves.pushed).trans h.pushed
    · show memory.pushed.length = memory.handled.length + (pc'.held + p.shutdown.held) + q'.length
      rw [hmoves.pushed]
      omega
  | tick running free => exact h.append (by simp)
  | quit free => exact ⟨h.holds, h.dropped, h.processed, h.pushed, h.taken⟩
  | @shutdown _ _ _ pc' memory _ before step =>
    have hmoves := step.moves h.processed
    have htotal := hmoves.total
    rw [before] at htaken
    refine ⟨hholds, hmoves.dropped.trans h.dropped, hmoves.processed, ?_, ?_⟩
    · exact (congrArg List.length hmoves.pushed).trans h.pushed
    · show memory.pushed.length = memory.handled.length + (p.consumer.held + pc'.held) + q'.length
      rw [hmoves.pushed]
      omega

/-- A `Submit` that has ended has dropped, pushed or lost its event. -/
theorem length_eq_countP : ∀ {l : List Submitting}, (∀ s ∈ l, s.pc.inProgress = false) →
    l.length = l.countP (·.pc = .dropped) + l.countP (·.pc.hasPushed) + l.countP (·.pc = .lost)
  | [], _ => rfl
  | s :: l, h => by
    rw [List.forall_mem_cons] at h
    have ih := length_eq_countP h.2
    have hone : (if decide (s.pc = .dropped) then 1 else 0) + (if s.pc.hasPushed then 1 else 0)
        + (if decide (s.pc = .lost) then 1 else 0) = 1 := by
      obtain ⟨event, anchor, pc⟩ := s
      cases pc <;> first | rfl | cases h.1
    simp only [List.length_cons, List.countP_cons]
    omega

/-- **The counters, with the events that `Push` has refused.** -/
theorem Accounted.total {p : Pipeline} {q : List Event} (h : p.Accounted q)
    (hidle : ∀ s ∈ p.submits, s.pc.inProgress = false) :
    UInt64.ofNat p.submits.length = p.memory.worker.processedEvents + p.memory.worker.droppedEvents
      + UInt64.ofNat p.memory.worker.ringBuffer.len + UInt64.ofNat p.held
      + UInt64.ofNat (p.submits.countP (·.pc = .lost)) := by
  have hlength := length_eq_countP hidle
  have hpushed := h.pushed
  have htaken := h.taken
  have hlen : p.memory.worker.ringBuffer.len = q.length := h.holds.count_eq
  rw [h.processed, h.dropped, hlen, ← UInt64.ofNat_add, ← UInt64.ofNat_add, ← UInt64.ofNat_add,
    ← UInt64.ofNat_add]
  congr 1
  omega

end Pipeline

/-- The buffer is empty, or will be when the loop of `drainBuffer` is left. -/
def ShutdownPc.Drained (n : Nat) : ShutdownPc → Prop
  | draining pc => pc.Covers n
  | returned => n = 0
  | _ => True

theorem ShutdownPc.Drained.mono {n n' : Nat} {pc : ShutdownPc} (h : pc.Drained n) (hle : n' ≤ n) :
    pc.Drained n' := by
  cases pc with
  | draining pc => exact LoopPc.Covers.mono h hle
  | returned => exact Nat.eq_zero_of_le_zero (hle.trans (Nat.le_of_eq h))
  | _ => trivial

theorem ShutdownPc.drained_of_not_drains {pc : ShutdownPc} (h : pc.drains = false) (n : Nat) :
    pc.Drained n := by
  cases pc <;> trivial

section

variable {c : Crypto} {strict : Bool} {env : Worker.HandleEnv} {m m' : Memory} {q q' : List Event}

/-- `processEvents` only takes from the buffer. -/
theorem ConsumerStep.length_le {pc pc' : ConsumerPc}
    (h : ConsumerStep c strict env m q pc m' pc' q') : q'.length ≤ q.length := by
  cases h with
  | loop step going => exact step.length_le
  | leave step => exact step.length_le
  | _ => exact le_rfl

/-- `drainBuffer` has enough iterations for a full buffer. -/
theorem ShutdownStep.drained {goOn : Bool} {pc pc' : ShutdownPc}
    (h : ShutdownStep c strict env goOn m q pc m' pc' q')
    (hcap : strict = true ∨ m.worker.ringBuffer.capacity ≤ maxDrainEvents)
    (hle : q.length ≤ m.worker.ringBuffer.capacity) (hpc : pc.Drained q.length) :
    pc'.Drained q'.length := by
  cases h with
  | giveUp release capacity =>
    rcases hcap with hstrict | hcap
    · cases hstrict.symm.trans release
    · exact absurd capacity (not_lt.mpr hcap)
  | start capacity => exact hle.trans capacity
  | loop step going => exact step.covers c strict hpc
  | leave step => exact step.covers c strict hpc
  | _ => trivial

end

namespace Pipeline

variable (c : Crypto) (strict : Bool)

/-- `drainBuffer` does not return because of the size of the buffer. -/
def Drainable (p : Pipeline) : Prop :=
  strict = true ∨ p.memory.worker.ringBuffer.cap ≤ maxDrainEvents

/-- The invariant of a run in which everything is pushed in time. -/
structure InTime (p : Pipeline) (q : List Event) : Prop where
  accounted : p.Accounted q
  kept : ∀ s ∈ p.submits, s.pc ≠ .lost
  drained : p.Drainable strict → p.shutdown.Drained q.length

theorem InTime.next {p : Pipeline} {q q' : List Event} {i : Nat} {event : Event} {anchor : Bool}
    {pc pc' : SubmitPc} {memory : Memory} (h : p.InTime strict q)
    (hok : p.pushesInTime (.next i) = true)
    (call : p.submits[i]? = some ⟨event, anchor, pc⟩)
    (step : SubmitStep p.memory event q pc memory pc' q') :
    pc' ≠ .lost ∧ (p.Drainable strict → p.shutdown.Drained q'.length) := by
  rw [pushesInTime, call] at hok
  cases step with
  | enter running after =>
    refine ⟨?_, h.drained⟩
    rintro rfl
    cases after
  | goOn before push after =>
    refine ⟨?_, h.drained⟩
    rintro rfl
    cases after
  | push room =>
    rw [Bool.and_eq_true, Bool.not_eq_true', Bool.not_eq_true'] at hok
    exact ⟨by simp, fun _ => ShutdownPc.drained_of_not_drains hok.2 _⟩
  | lose full =>
    rw [Bool.and_eq_true, Bool.not_eq_true', Bool.not_eq_true'] at hok
    rw [h.accounted.holds.isFull_iff.mpr full] at hok
    cases hok.1
  | _ => exact ⟨by simp, h.drained⟩

/-- **The step lemma.** -/
theorem InTime.step {p p' : Pipeline} {a : Action} {q : List Event} (h : p.InTime strict q)
    (hok : p.pushesInTime a = true) (hstep : p.step c strict a = some p') :
    ∃ q', p'.InTime strict q' := by
  obtain ⟨q', hcases, hholds, hcap⟩ := step_cases c strict h.accounted.holds hstep
  have hgoal : (∀ s ∈ p'.submits, s.pc ≠ .lost) ∧
      (p.Drainable strict → p'.shutdown.Drained q'.length) := by
    cases hcases with
    | submit => exact ⟨List.forall_mem_append.mpr ⟨h.kept, by simp⟩, h.drained⟩
    | next call step =>
      obtain ⟨hpc, hdrained⟩ := h.next strict hok call step
      refine ⟨fun s hs => ?_, hdrained⟩
      rcases List.mem_or_eq_of_mem_set hs with hs | rfl
      · exact h.kept s hs
      · exact hpc
    | consume before step => exact ⟨h.kept, fun hp => (h.drained hp).mono step.length_le⟩
    | tick running free => exact ⟨List.forall_mem_append.mpr ⟨h.kept, by simp⟩, h.drained⟩
    | quit free => exact ⟨h.kept, h.drained⟩
    | shutdown before step =>
      refine ⟨h.kept, fun hp => step.drained hp h.accounted.holds.length_le ?_⟩
      rw [← before]
      exact h.drained hp
  refine ⟨q', h.accounted.step c strict hcases hholds, hgoal.1, fun hp => hgoal.2 ?_⟩
  rw [Drainable, Buffer.cap, hcap] at hp
  exact hp

/-- **Every submitted event is accounted for**, in any interleaving in which `Push` always meets
with room in the buffer and nothing is pushed once `drainBuffer` has started. When no `Submit` is in
progress, the events passed to `Submit` are those that were processed, those that were dropped,
those in the buffer and those that a loop has in hand; and once `Shutdown` has returned the buffer
is empty. -/
theorem events_accounted {zero : Event} {capacity : Int} {ringBuffer : Buffer Event}
    (hnew : Buffer.new strict zero capacity = .ok ringBuffer) (state : State)
    (mode : BackpressureMode) {actions : List Action} {p : Pipeline}
    (hok : along (step c strict) pushesInTime (initial ringBuffer state mode) actions = true)
    (hrun : runSteps (step c strict) (initial ringBuffer state mode) actions = some p)
    (hidle : ∀ s ∈ p.submits, s.pc.inProgress = false) :
    UInt64.ofNat p.submits.length = p.memory.worker.processedEvents + p.memory.worker.droppedEvents
        + UInt64.ofNat p.memory.worker.ringBuffer.len + UInt64.ofNat p.held ∧
      (p.Drainable strict → p.shutdown.hasReturned = true →
        p.memory.worker.ringBuffer.len = 0) := by
  have hinit : (initial ringBuffer state mode).InTime strict [] :=
    ⟨⟨(Buffer.holds_new hnew).1, rfl, rfl, rfl, rfl⟩, List.forall_mem_nil _, fun _ => trivial⟩
  obtain ⟨q, hinv⟩ := runSteps_inv (fun p => ∃ q, InTime strict p q)
    (fun ⟨q, hq⟩ ha hstep => hq.step c strict ha hstep) ⟨[], hinit⟩ hok hrun
  have hlost : p.submits.countP (·.pc = .lost) = 0 :=
    List.countP_eq_zero.mpr fun s hs => by simpa using hinv.kept s hs
  refine ⟨?_, fun hp hreturned => ?_⟩
  · have htotal := hinv.accounted.total hidle
    rw [hlost] at htotal
    exact htotal.trans (UInt64.add_zero _)
  · have hdrained := hinv.drained hp
    cases hpc : p.shutdown with
    | returned =>
      rw [hpc] at hdrained
      exact hinv.accounted.holds.count_eq.trans hdrained
    | _ =>
      rw [hpc] at hreturned
      cases hreturned

/-- An event is pushed, processed by `processEvents`, and the worker is shut down. -/
def orderlyRun : List Action :=
  List.flatten [[.submit recordedCall], List.replicate 4 (.next 0),
    List.replicate 10 (.consume quietEnv), List.replicate 3 (.shutdown quietEnv false),
    [.consume quietEnv, .quit], List.replicate 3 (.shutdown quietEnv false)]

theorem events_accounted_orderly : ∃ p,
    runSteps (step recordedCrypto true) (recordedPipeline smallBuffer recordedGenesis) orderlyRun
        = some p ∧
      p.shutdown.hasReturned = true ∧ p.memory.worker.processedEvents = 1 ∧
      UInt64.ofNat p.submits.length = p.memory.worker.processedEvents
        + p.memory.worker.droppedEvents + UInt64.ofNat p.memory.worker.ringBuffer.len
        + UInt64.ofNat p.held ∧
      p.memory.worker.ringBuffer.len = 0 := by
  have hfacts : (runAlong (step recordedCrypto true) pushesInTime
      (recordedPipeline smallBuffer recordedGenesis) orderlyRun).any
        (fun p => p.shutdown.hasReturned && p.memory.worker.processedEvents == 1 &&
          p.submits.all fun s => !s.pc.inProgress) = true := by decide +kernel
  obtain ⟨p, hok, hp, hfacts⟩ := exists_of_runAlong hfacts
  rw [Bool.and_eq_true, Bool.and_eq_true, beq_iff_eq, List.all_eq_true] at hfacts
  obtain ⟨⟨hreturned, hprocessed⟩, hidle⟩ := hfacts
  obtain ⟨htotal, hempty⟩ := @events_accounted recordedCrypto true {} 1 smallBuffer rfl _ _ _ p
    hok hp (fun s hs => by simpa using hidle s hs)
  exact ⟨p, hp, hreturned, hprocessed, htotal, hempty (Or.inl rfl) hreturned⟩

/-- Two calls of `Submit` find room for one event, and both push. -/
def doubleRun : List Action :=
  List.flatten [[.submit recordedCall, .submit recordedCall], List.replicate 2 (.next 0),
    List.replicate 4 (.next 1), [.next 0]]

/-- A `Submit` that has passed its tests pushes its event after `Shutdown` has returned. -/
def lateRun : List Action :=
  List.flatten [[.submit recordedCall], List.replicate 2 (.next 0),
    List.replicate 3 (.shutdown quietEnv false), [.consume quietEnv, .quit],
    List.replicate 3 (.shutdown quietEnv false), List.replicate 2 (.next 0)]

/-- **An event can be lost.** `Push` refuses the second of two events, and nothing counts it. An
event that is pushed too late stays in the buffer. -/
theorem event_lost :
    (runSteps (step recordedCrypto true) smallPipeline doubleRun).any (fun p =>
      p.submits.all (fun s => !s.pc.inProgress) && p.submits.length == 2 &&
        p.memory.worker.processedEvents + p.memory.worker.droppedEvents
          + UInt64.ofNat p.memory.worker.ringBuffer.len + UInt64.ofNat p.held == 1) = true ∧
    (runSteps (step recordedCrypto true) smallPipeline lateRun).any (fun p =>
      p.submits.all (fun s => !s.pc.inProgress) && p.shutdown.hasReturned &&
        p.memory.worker.ringBuffer.len == 1) = true := by
  decide +kernel

end Pipeline

end Logryph
