import Logryph.Accounting

/-!
# The counter of processed events

`processedEvents` is exported as the number of events that were written to the ledger. Both loops
count an event when `ProcessEvent` has returned, with or without an error.

* `Pipeline.Bounded.handled_lt` — the loops are bounded, so the counter does not wrap around
* `processed_stored_iff` — the counter is the number of stored events exactly if every event that
  was handled was stored
* `failure_counted` — in either loop, an event that fails to be stored is counted
-/

namespace Logryph

open Infra

/-! ## The bounds of the loops -/

/-- The loop has handled `n` events. -/
def LoopPc.Within (n : Nat) : LoopPc → Prop
  | test j => n ≤ j ∧ j ≤ maxDrainEvents
  | pop j => n ≤ j ∧ j < maxDrainEvents
  | process j _ _ => n ≤ j ∧ j < maxDrainEvents
  | left => n ≤ maxDrainEvents

/-- `processEvents` has handled `n` events. -/
def ConsumerPc.Within (n : Nat) : ConsumerPc → Prop
  | waiting i => n ≤ i * maxDrainEvents
  | capacity i => n ≤ i * maxDrainEvents
  | draining i pc => ∃ k, n ≤ i * maxDrainEvents + k ∧ pc.Within k
  | stopped => n ≤ maxSignalBatches * maxDrainEvents

/-- The batches of `processEvents` are bounded. -/
def ConsumerPc.InRange : ConsumerPc → Prop
  | waiting i => i ≤ maxSignalBatches
  | capacity i => i < maxSignalBatches
  | draining i _ => i < maxSignalBatches
  | stopped => True

/-- `drainBuffer` has handled `n` events. -/
def ShutdownPc.Within (n : Nat) : ShutdownPc → Prop
  | draining pc => pc.Within n
  | returned => n ≤ maxDrainEvents
  | _ => n = 0

section

variable {c : Crypto} {strict : Bool} {env : Worker.HandleEnv} {m m' : Memory} {q q' : List Event}

theorem LoopPc.Within.le {n : Nat} {pc : LoopPc} (h : pc.Within n) : n ≤ maxDrainEvents := by
  cases pc with
  | test j => exact h.1.trans h.2
  | pop j => exact h.1.trans h.2.le
  | process j item pc => exact h.1.trans h.2.le
  | left => exact h

/-- A step handles at most one event. -/
theorem LoopStep.within {pc pc' : LoopPc} (h : LoopStep c strict env m q pc m' pc' q') {n : Nat}
    (hpc : pc.Within n) :
    ∃ d, m'.handled.length = m.handled.length + d ∧ pc'.Within (n + d) := by
  cases h with
  | goOn bound nonempty => exact ⟨0, rfl, hpc.1, bound⟩
  | leave why => exact ⟨0, rfl, hpc.le⟩
  | take first => exact ⟨0, rfl, hpc⟩
  | miss empty => exact ⟨0, rfl, hpc.le⟩
  | process going => exact ⟨0, rfl, hpc⟩
  | finish => exact ⟨1, List.length_append, Nat.succ_le_succ hpc.1, hpc.2⟩

theorem ConsumerStep.within {pc pc' : ConsumerPc} (h : ConsumerStep c strict env m q pc m' pc' q')
    {n : Nat} (hpc : pc.Within n) (hrange : pc.InRange) :
    ∃ d, m'.handled.length = m.handled.length + d ∧ pc'.Within (n + d) := by
  cases h with
  | receive token => exact ⟨0, rfl, hpc⟩
  | stop before =>
    -- a loop that stops early is within the bound of one that goes on to the end
    refine ⟨0, rfl, ?_⟩
    rcases before with ⟨i, rfl⟩ | ⟨i, rfl⟩
    · exact hpc.trans (Nat.mul_le_mul_right _ hrange)
    · exact hpc.trans (Nat.mul_le_mul_right _ (Nat.le_of_lt hrange))
  | start capacity =>
    refine ⟨0, rfl, 0, ?_, Nat.le_refl 0, Nat.zero_le _⟩
    rw [Nat.add_zero, Nat.add_zero]
    exact hpc
  | loop step going =>
    obtain ⟨k, hn, hk⟩ := hpc
    obtain ⟨d, hlen, hd⟩ := step.within hk
    exact ⟨d, hlen, k + d, by omega, hd⟩
  | leave step =>
    -- the batch is over, and one more full batch covers what it has handled
    obtain ⟨k, hn, hk⟩ := hpc
    obtain ⟨d, hlen, hd⟩ := step.within hk
    have hle := hd.le
    refine ⟨d, hlen, ?_⟩
    rw [ConsumerPc.Within, Nat.succ_mul]
    omega

theorem ShutdownStep.within {goOn : Bool} {pc pc' : ShutdownPc}
    (h : ShutdownStep c strict env goOn m q pc m' pc' q') {n : Nat} (hpc : pc.Within n) :
    ∃ d, m'.handled.length = m.handled.length + d ∧ pc'.Within (n + d) := by
  cases h with
  | giveUp release capacity =>
    cases hpc
    exact ⟨0, rfl, Nat.zero_le _⟩
  | start capacity =>
    cases hpc
    exact ⟨0, rfl, Nat.le_refl _, Nat.zero_le _⟩
  | loop step going => exact step.within hpc
  | leave step => exact step.within hpc
  | _ => exact ⟨0, rfl, hpc⟩

theorem consumerStep_inRange {pc pc' : ConsumerPc}
    (h : consumerStep c strict env m pc = some (m', pc')) (hpc : pc.InRange) : pc'.InRange := by
  cases pc with
  | waiting i =>
    rw [consumerStep] at h
    split at h
    · next hlt =>
      split at h
      · cases h
        exact hlt
      · split at h
        · cases h
          trivial
        · cases h
    · split at h
      · cases h
      · cases h
        trivial
  | capacity i =>
    rw [consumerStep] at h
    split at h
    · cases h
    · cases h
      trivial
    · cases h
      exact hpc
  | draining i pc =>
    rw [consumerStep] at h
    split at h
    · cases h
    · cases h
      exact hpc
    · cases h
      exact hpc
  | stopped => cases h

end

namespace Pipeline

/-- The loops have handled so many events as they had iterations for. -/
structure Bounded (p : Pipeline) (q : List Event) : Prop where
  accounted : p.Accounted q
  inRange : p.consumer.InRange
  handled : ∃ n k, p.memory.handled.length = n + k ∧ p.consumer.Within n ∧ p.shutdown.Within k

variable {c : Crypto} {strict : Bool}

theorem inRange_step {p p' : Pipeline} {a : Action} (h : p.consumer.InRange)
    (hstep : p.step c strict a = some p') {q q' : List Event} (hcases : Step c strict p q a p' q') :
    p'.consumer.InRange := by
  cases hcases with
  | @consume env _ _ _ _ before step =>
    unfold Pipeline.step at hstep
    split at hstep
    · cases hstep
    · dsimp only at hstep
      split at hstep
      · cases hstep
      · next memory consumer hconsumer =>
        cases hstep
        exact consumerStep_inRange hconsumer h
  | _ => exact h

/-- **The step lemma.** -/
theorem Bounded.step {p p' : Pipeline} {a : Action} {q : List Event} (h : p.Bounded q)
    (hstep : p.step c strict a = some p') : ∃ q', p'.Bounded q' := by
  obtain ⟨q', hcases, hholds, -⟩ := step_cases c strict h.accounted.holds hstep
  refine ⟨q', h.accounted.step c strict hcases hholds, inRange_step h.inRange hstep hcases, ?_⟩
  obtain ⟨n, k, hlen, hn, hk⟩ := h.handled
  cases hcases with
  | submit => exact ⟨n, k, hlen, hn, hk⟩
  | next call step => exact ⟨n, k, (congrArg List.length step.counts.2.2.2.1).trans hlen, hn, hk⟩
  | consume before step =>
    rw [before] at hn
    obtain ⟨d, hd, hn'⟩ := step.within hn (before ▸ h.inRange)
    exact ⟨n + d, k, by rw [hd, hlen]; omega, hn', hk⟩
  | tick running free => exact ⟨n, k, hlen, hn, hk⟩
  | quit free => exact ⟨n, k, hlen, hn, hk⟩
  | shutdown before step =>
    rw [before] at hk
    obtain ⟨d, hd, hk'⟩ := step.within hk
    exact ⟨n, k + d, by rw [hd, hlen]; omega, hn, hk'⟩

/-- **The counter does not wrap around.** -/
theorem Bounded.handled_lt {p : Pipeline} {q : List Event} (h : p.Bounded q) :
    p.memory.handled.length < 2 ^ 64 := by
  obtain ⟨n, k, hlen, hn, hk⟩ := h.handled
  have hconsumer : n ≤ maxSignalBatches * maxDrainEvents := by
    have hrange := h.inRange
    cases hpc : p.consumer with
    | waiting i =>
      rw [hpc] at hn hrange
      exact hn.trans (Nat.mul_le_mul_right _ hrange)
    | capacity i =>
      rw [hpc] at hn hrange
      exact hn.trans (Nat.mul_le_mul_right _ (Nat.le_of_lt hrange))
    | draining i pc =>
      rw [hpc] at hn hrange
      obtain ⟨j, hn, hj⟩ := hn
      have hbatches : (i + 1) * maxDrainEvents ≤ maxSignalBatches * maxDrainEvents :=
        Nat.mul_le_mul_right _ hrange
      have hle := hj.le
      rw [Nat.succ_mul] at hbatches
      omega
    | stopped =>
      rw [hpc] at hn
      exact hn
  have hshutdown : k ≤ maxDrainEvents := by
    cases hpc : p.shutdown with
    | draining pc =>
      rw [hpc] at hk
      exact hk.le
    | returned =>
      rw [hpc] at hk
      exact hk
    | _ =>
      rw [hpc] at hk
      cases hk
      exact Nat.zero_le _
  have hsum : maxSignalBatches * maxDrainEvents + maxDrainEvents < 2 ^ 64 := by decide
  omega

end Pipeline

/-! ## The counter -/

theorem ofNat_eq_ofNat_iff {a b : Nat} (ha : a < 2 ^ 64) (hb : b < 2 ^ 64) :
    UInt64.ofNat a = UInt64.ofNat b ↔ a = b := by
  refine ⟨fun h => ?_, congrArg _⟩
  have htoNat := congrArg UInt64.toNat h
  rwa [UInt64.toNat_ofNat_of_lt' ha, UInt64.toNat_ofNat_of_lt' hb] at htoNat

/-- **When the counter is right.** In any interleaving of `Submit`, the two loops and `Shutdown`,
and whatever the repository does, the counter is the number of handled events that were stored
exactly if each of them was. -/
theorem processed_stored_iff (c : Crypto) (strict : Bool) {zero : Event} {capacity : Int}
    {ringBuffer : Buffer Event} (hnew : Buffer.new strict zero capacity = .ok ringBuffer)
    (state : State) (mode : BackpressureMode) {actions : List Pipeline.Action} {p : Pipeline}
    (hrun : runSteps (Pipeline.step c strict) (.initial ringBuffer state mode) actions = some p) :
    p.memory.worker.processedEvents = UInt64.ofNat (p.memory.handled.countP Item.stored) ↔
      ∀ item ∈ p.memory.handled, item.stored = true := by
  have hinit : (Pipeline.initial ringBuffer state mode).Bounded [] :=
    ⟨⟨(Buffer.holds_new hnew).1, rfl, rfl, rfl, rfl⟩, Nat.zero_le _, 0, 0, rfl, Nat.zero_le _, rfl⟩
  obtain ⟨q, hinv⟩ := runSteps_invariant (fun p => ∃ q, Pipeline.Bounded p q)
    (fun ⟨q, hq⟩ hstep => hq.step hstep) ⟨[], hinit⟩ hrun
  have hlt := hinv.handled_lt
  have hle := List.countP_le_length (p := Item.stored) (l := p.memory.handled)
  rw [hinv.accounted.processed, ofNat_eq_ofNat_iff hlt (hle.trans_lt hlt), eq_comm,
    List.countP_eq_length]

/-- An event is taken by `processEvents`, which takes so many steps. -/
def consumedIn (n : Nat) (env : Worker.HandleEnv) : List Pipeline.Action :=
  List.flatten [[.submit recordedCall], List.replicate 4 (.next 0),
    List.replicate n (.consume env)]

/-- An event is taken by `drainBuffer`. -/
def drainedIn (n : Nat) (env : Worker.HandleEnv) : List Pipeline.Action :=
  List.flatten [[.submit recordedCall], List.replicate 3 (.next 0),
    List.replicate 3 (.shutdown env false), List.replicate n (.shutdown env true)]

def processedRun (actions : List Pipeline.Action) : Option Pipeline :=
  runSteps (Pipeline.step recordedCrypto true) (recordedPipeline smallBuffer recordedGenesis)
    actions

/-- The counter, and whether each event that was handled was stored. -/
def Pipeline.tally (p : Pipeline) : UInt64 × List Bool :=
  (p.memory.worker.processedEvents, p.memory.handled.map Item.stored)

theorem tallies_evaluated :
    ((processedRun (consumedIn 9 quietEnv)).map Pipeline.tally = some (1, [true]) ∧
    (processedRun (consumedIn 8 failingEnv)).map Pipeline.tally = some (1, [false])) ∧
    (processedRun (drainedIn 8 failingEnv)).map Pipeline.tally = some (1, [false]) := by
  decide +kernel

/-- An event that is stored is counted. -/
theorem processed_stored_quiet : ∃ p, processedRun (consumedIn 9 quietEnv) = some p ∧
    p.memory.worker.processedEvents = UInt64.ofNat (p.memory.handled.countP Item.stored) := by
  obtain ⟨p, hp, htally⟩ := Option.map_eq_some_iff.mp tallies_evaluated.1.1
  obtain ⟨-, hstored⟩ := Prod.mk.inj htally
  have hall : ∀ item ∈ p.memory.handled, item.stored = true := by
    intro item hitem
    have hmem : item.stored ∈ p.memory.handled.map Item.stored := List.mem_map_of_mem hitem
    rw [hstored, List.mem_singleton] at hmem
    exact hmem
  exact ⟨p, hp, (@processed_stored_iff recordedCrypto true {} 1 smallBuffer rfl _ .drop _ p hp).mpr
    hall⟩

/-- What is counted, when the event that was handled was not stored. -/
theorem counted_of_tally {actions : List Pipeline.Action}
    (h : (processedRun actions).map Pipeline.tally = some (1, [false])) :
    ∃ p, processedRun actions = some p ∧ p.memory.worker.processedEvents = 1 ∧
      p.memory.handled.countP Item.stored = 0 := by
  obtain ⟨p, hp, htally⟩ := Option.map_eq_some_iff.mp h
  obtain ⟨hcount, hstored⟩ := Prod.mk.inj htally
  refine ⟨p, hp, hcount, List.countP_eq_zero.mpr fun item hitem hitemStored => ?_⟩
  have hmem : item.stored ∈ p.memory.handled.map Item.stored := List.mem_map_of_mem hitem
  rw [hstored, List.mem_singleton] at hmem
  cases hitemStored.symm.trans hmem

/-- **A failure is counted as processed**, in both loops. -/
theorem failure_counted :
    (∃ p, processedRun (consumedIn 8 failingEnv) = some p ∧ p.memory.worker.processedEvents = 1 ∧
      p.memory.handled.countP Item.stored = 0) ∧
    ∃ p, processedRun (drainedIn 8 failingEnv) = some p ∧ p.memory.worker.processedEvents = 1 ∧
      p.memory.handled.countP Item.stored = 0 :=
  ⟨counted_of_tally tallies_evaluated.1.2, counted_of_tally tallies_evaluated.2⟩

end Logryph
