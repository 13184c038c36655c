import Logryph.AppendLog
import Logryph.Progress
import Logryph.Shutdown
import Logryph.Wakeup

/-!
# Coming to rest

When no new events come in, the goroutines of the worker stop after some time. What is there then?

* `Resting` — no `Submit` and no step of `processEvents` is possible
* `recorded_at_rest` — the ledger has everything that was pushed
-/

namespace Logryph

open Infra

/-- The loop is at its receive, and has batches left. -/
def ConsumerPc.receives : ConsumerPc → Bool
  | waiting i => i < maxSignalBatches
  | _ => false

theorem ConsumerPc.receives_iff {pc : ConsumerPc} :
    pc.receives = true ↔ ∃ i, pc = .waiting i ∧ i < maxSignalBatches := by
  cases pc <;> simp [receives]

namespace Pipeline

variable (c : Crypto) (strict : Bool)

/-- No `Submit` and no step of `processEvents` is possible. -/
structure Resting (p : Pipeline) : Prop where
  submits : ∀ i, p.step c strict (.next i) = none
  consumer : ∀ env, p.step c strict (.consume env) = none

/-- A `Submit` that has not ended can go on. -/
theorem submitStep_isSome {m : Memory} {e : Event} {pc : SubmitPc} (h : pc.inProgress = true) :
    ∃ x, submitStep strict m e pc = some x := by
  cases pc with
  | closing =>
    rw [submitStep]
    split
    · exact ⟨_, rfl⟩
    · split <;> exact ⟨_, rfl⟩
  | push =>
    rw [submitStep]
    split <;> exact ⟨_, rfl⟩
  | test i =>
    rw [submitStep]
    split <;> exact ⟨_, rfl⟩
  | wait i =>
    rw [submitStep]
    split <;> exact ⟨_, rfl⟩
  | full =>
    rw [submitStep]
    split <;> exact ⟨_, rfl⟩
  | send =>
    rw [submitStep]
    split <;> exact ⟨_, rfl⟩
  | sent => cases h
  | dropped => cases h
  | lost => cases h
  | panicked => cases h

theorem crashed_eq_false {p : Pipeline} (halive : ∀ s ∈ p.submits, s.pc ≠ .panicked) :
    p.crashed = false := by
  rw [crashed, List.any_eq_false]
  intro s hs
  simp [halive s hs]

variable {c strict}

theorem Resting.ended {p : Pipeline} (h : p.Resting c strict)
    (halive : ∀ s ∈ p.submits, s.pc ≠ .panicked) : ∀ s ∈ p.submits, s.pc.inProgress = false := by
  intro s hs
  obtain ⟨i, hi⟩ := List.mem_iff_getElem?.mp hs
  by_contra hprogress
  rw [Bool.not_eq_false] at hprogress
  obtain ⟨⟨memory, pc⟩, hstep⟩ := submitStep_isSome strict (m := p.memory) (e := s.event) hprogress
  have hnone := h.submits i
  simp [step, crashed_eq_false halive, hi, hstep] at hnone

/-- If the loop waits, there is no token. -/
theorem Resting.signal {p : Pipeline} {i : Nat} (h : p.Resting c strict)
    (halive : ∀ s ∈ p.submits, s.pc ≠ .panicked) (hwaiting : p.consumer = .waiting i)
    (hi : i < maxSignalBatches) : p.memory.worker.signal = false := by
  by_contra hsignal
  rw [Bool.not_eq_false] at hsignal
  have hnone := h.consumer quietEnv
  simp [step, crashed_eq_false halive, hwaiting, consumerStep, hi, hsignal] at hnone

variable (c strict) {signer : Signer} {runID : Bytes}

/-- What is known of a run before `Shutdown`. -/
structure Settling (signer : Signer) (runID : Bytes) (genesis : EventRow) (p : Pipeline) :
    Prop where
  refines : ∃ q, p.Refines c strict signer runID genesis q
  awake : ∃ q, p.Awake q
  quiet : ∃ q, p.Quiet q

theorem quiet_initial {ringBuffer : Buffer Event} (hq : ringBuffer.Holds []) (state : State)
    (mode : BackpressureMode) : (initial ringBuffer state mode).Quiet [] :=
  ⟨hq, Or.inl rfl, fun hclosed => (by cases hclosed), List.forall_mem_nil _⟩

variable {c strict}

theorem Settling.step {genesis : EventRow} {p p' : Pipeline} {a : Action}
    (h : p.Settling c strict signer runID genesis) (ha : a.isShutdown = false)
    (hstep : p.step c strict a = some p') : p'.Settling c strict signer runID genesis := by
  obtain ⟨⟨q, hrefines⟩, ⟨_, hawake⟩, _, hquiet⟩ := h
  refine ⟨?_, hawake.step c strict ha hstep, hquiet.step c strict ?_ hstep⟩
  · obtain ⟨q', hcases, hholds, -⟩ := step_cases c strict hrefines.linked.holds hstep
    exact ⟨q', hrefines.step c strict ha hcases hholds⟩
  · cases a with
    | shutdown env timedOut => cases ha
    | _ => rfl

variable (c strict)

/-- **Everything that was accepted is recorded.** Take any run before `Shutdown`, in any
interleaving and with any failures, that has come to rest: no `Submit` can go on, and
`processEvents` waits. Then every `Submit` has returned, the buffer is empty, and the rows of the
run are the genesis row and those of every event that was pushed, in this order. An event is without
rows only if its `StoreEvent` has failed. -/
theorem recorded_at_rest {env : GenesisEnv} {pool : List Event} {agentName : Bytes} {s : State}
    (hgen : createGenesisBlock c strict env (initialState signer pool) agentName = (.ok runID, s))
    {zero : Event} {capacity : Int} {ringBuffer : Buffer Event}
    (hnew : Buffer.new strict zero capacity = .ok ringBuffer) (hcap : capacity ≤ maxDrainEvents)
    (mode : BackpressureMode) {actions : List Action} {p : Pipeline}
    (hbefore : ∀ a ∈ actions, a.isShutdown = false)
    (hrun : runSteps (step c strict) (initial ringBuffer (newEventProcessor s runID) mode) actions
      = some p) (hrest : p.Resting c strict) (hwaiting : p.consumer.receives = true) :
    (∀ x ∈ p.submits, x.pc.inProgress = false) ∧ p.memory.worker.ringBuffer.isEmpty = true ∧
      ∃ genesis blocks, s.db.rowsOf runID = [genesis] ∧
        p.rows runID = genesis :: blocks.flatten ∧
        p.memory.handled.map Item.event = p.memory.pushed ∧
        List.Forall₂ Item.Rows p.memory.handled blocks := by
  obtain ⟨i, hwaiting, hi⟩ := ConsumerPc.receives_iff.mp hwaiting
  obtain ⟨genesis, hrow, hinit⟩ := refines_initial c strict hgen hnew mode
  obtain ⟨hq, hsize⟩ := Buffer.holds_new hnew
  have hstep : ∀ {p : Pipeline} {a : Action} {p' : Pipeline},
      Settling c strict signer runID genesis p → (!a.isShutdown) = true →
      p.step c strict a = some p' → Settling c strict signer runID genesis p' :=
    fun h ha hstep => h.step (Bool.not_eq_true' _ ▸ ha) hstep
  have hok : along (step c strict) (fun _ a => !a.isShutdown)
      (initial ringBuffer (newEventProcessor s runID) mode) actions = true :=
    along_of_forall fun a ha => by rw [hbefore a ha]; rfl
  obtain ⟨⟨q, hrefines⟩, ⟨q', hawake⟩, _, hquiet⟩ := runSteps_inv _ hstep
    ⟨⟨[], hinit⟩, ⟨[], awake_initial hq (by omega)⟩, ⟨[], quiet_initial hq _ mode⟩⟩ hok hrun
  have hended := hrest.ended hquiet.alive
  -- no token, and nobody who has still to send one: so the loop has left nothing behind
  have hnil : q' = [] := by
    rcases hawake.awake with hsignal | ⟨x, hx, hsend⟩ | hcovers
    · rw [hrest.signal hquiet.alive hwaiting hi] at hsignal
      cases hsignal
    · have hnot := hended x hx
      rw [hsend] at hnot
      cases hnot
    · rw [hwaiting] at hcovers
      exact List.length_eq_zero_iff.mp hcovers
  have hempty := hawake.holds.isEmpty_iff.mpr hnil
  have hnil' := hrefines.linked.holds.isEmpty_iff.mp hempty
  obtain ⟨done, hand, hrows, hdone, hhand⟩ := hrefines.logs.rows
  have hpushed := hrefines.logs.pushed
  rw [hwaiting] at hhand hpushed
  cases hhand
  have hlog := hrefines.linked.chain.isLog
  rw [hrefines.linked.chain.rows_eq] at hrows hlog
  refine ⟨hended, hempty, genesis, done, hrow, ?_, ?_, hdone⟩
  · rw [rows, DB.orderedRows_of_isLog hlog, hrows, List.flatten_nil, List.append_nil]
  · rw [hpushed, hnil']
    simp [ConsumerPc.loop, LoopPc.inHand]

/-- The loop handles both events, and the completion of their task. -/
def restingRun : List Action := completingRun ++ List.replicate 2 (.consume completingEnv)

theorem resting_of_sent {p : Pipeline} (hsent : ∀ s ∈ p.submits, s.pc = .sent)
    (hwaiting : p.consumer.receives = true) (hsignal : p.memory.worker.signal = false)
    (hopen : p.memory.worker.signalClosed = false) : p.Resting c strict := by
  obtain ⟨i, hwaiting, hi⟩ := ConsumerPc.receives_iff.mp hwaiting
  have halive : p.crashed = false := crashed_eq_false fun s hs => by simp [hsent s hs]
  refine ⟨fun k => ?_, fun env => ?_⟩
  · cases hk : p.submits[k]? with
    | none => simp [step, halive, hk]
    | some s => simp [step, halive, hk, hsent s (List.mem_of_getElem? hk), submitStep]
  · simp [step, halive, hwaiting, consumerStep, hi, hsignal, hopen]

theorem recorded_at_rest_completing : ∃ p,
    runSteps (step recordedCrypto true) (recordedPipeline pairBuffer recordedGenesis) restingRun
      = some p ∧ p.memory.pushed.length = 2 ∧
    (∀ x ∈ p.submits, x.pc.inProgress = false) ∧ p.memory.worker.ringBuffer.isEmpty = true ∧
      ∃ genesis blocks, recordedGenesis.db.rowsOf (lit "run-1") = [genesis] ∧
        p.rows (lit "run-1") = genesis :: blocks.flatten ∧
        p.memory.handled.map Item.event = p.memory.pushed ∧
        List.Forall₂ Item.Rows p.memory.handled blocks := by
  have hfacts : (runSteps (step recordedCrypto true) (recordedPipeline pairBuffer recordedGenesis)
      restingRun).any (fun p => p.consumer.receives && !p.memory.worker.signal &&
        !p.memory.worker.signalClosed && decide (p.memory.pushed.length = 2) &&
        p.submits.all fun s => decide (s.pc = .sent)) = true := by decide +kernel
  obtain ⟨p, hp, hfacts⟩ := (Option.any_eq_true _ _).mp hfacts
  simp only [Bool.and_eq_true, Bool.not_eq_true', decide_eq_true_eq, List.all_eq_true] at hfacts
  obtain ⟨⟨⟨⟨hwaiting, hsignal⟩, hopen⟩, hpushed⟩, hsent⟩ := hfacts
  exact ⟨p, hp, hpushed, @recorded_at_rest recordedCrypto true recordedSigner (lit "run-1")
    recordedEnv [] (lit "agent") recordedGenesis createGenesisBlock_recorded {} 2 pairBuffer rfl
    (by decide) .drop restingRun p (by decide +kernel) hp
    (resting_of_sent recordedCrypto true hsent hwaiting hsignal hopen) hwaiting⟩

end Pipeline

end Logryph