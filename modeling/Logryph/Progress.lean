import Logryph.PipelineSteps

/-!
# Progress

A goroutine of the worker waits for others: a `Submit` for room in the buffer, `processEvents` for
a token, `Shutdown` for both loops. When no new events come in, they cannot go on for ever.

Every step of a goroutine uses up something. A `Submit` has its attempts, and pays for what its
event will cost the loop; an event in the buffer pays for its `ProcessEvent`, and a token for one
batch.
`Pipeline.work` adds that up, and each step leaves less of it, whoever takes it.

* `step_work` — each step leaves less to do
* `work_bounded` — so no schedule goes on for longer
-/

namespace Logryph

open Infra

/-! ## What there is to do -/

/-- The steps of a `ProcessEvent` that are left. -/
def ProcessPc.work : ProcessPc → Nat
  | stats .main _ => 7
  | last .main _ => 6
  | store .main _ => 5
  | track _ => 4
  | stats (.completion _) _ => 3
  | last (.completion _) _ => 2
  | store (.completion _) _ => 1
  | ended _ => 0

/-- The steps of the loop that are left with an empty buffer. -/
def LoopPc.work : LoopPc → Nat
  | test _ => 2
  | pop _ => 1
  | process _ _ pc => pc.work + 3
  | left => 0

def ConsumerPc.work : ConsumerPc → Nat
  | waiting _ => 1
  | capacity _ => 4
  | draining _ pc => pc.work + 1
  | stopped => 0

def AnchorPc.work : AnchorPc → Nat
  | running _ => 1
  | stopped => 0

def ShutdownPc.work : ShutdownPc → Nat
  | idle => 8
  | closeQuit => 7
  | closeSignal => 6
  | wait => 5
  | capacity => 4
  | draining pc => pc.work + 1
  | returned => 0

/-- The steps of a `Submit` that are left, with those of the loop for its event and its token. -/
def SubmitPc.work : SubmitPc → Nat
  | closing => 2 * maxBlockAttempts + 20
  | test i => 2 * (maxBlockAttempts - i) + 19
  | wait i => 2 * (maxBlockAttempts - i) + 18
  | full => 17
  | push => 16
  | send => 5
  | _ => 0

/-- What the buffer and the channel still give to the loop. -/
def Memory.work (m : Memory) : Nat :=
  10 * m.worker.ringBuffer.len + if m.worker.signal then 4 else 0

namespace Pipeline

/-- An upper bound on the steps that can still be taken. -/
def work (p : Pipeline) : Nat :=
  p.memory.work + (p.submits.map fun s => s.pc.work).sum + p.consumer.work + p.anchor.work +
    p.shutdown.work

/-- A new event comes in. -/
def Action.isCall : Action → Bool
  | submit _ => true
  | tick _ => true
  | _ => false

end Pipeline

/-! ## Every step does some of it -/

section

variable {c : Crypto} {strict : Bool}

theorem persistFailed_work (s : State) (target : Target) (e : Event) (f : Fault) :
    (persistFailed strict s target e f).1.work = 0 := by
  obtain ⟨result, h⟩ := persistFailed_ended strict s target e f
  rw [h]
  rfl

theorem persistDone_work (s : State) (e : Event) (target : Target) :
    (persistDone strict s e target).1.work < (ProcessPc.store target e).work := by
  cases target with
  | main =>
    rw [persistDone]
    split <;> simp [ProcessPc.work]
  | completion main =>
    obtain ⟨result, h⟩ := completed_ended main (s.putEvent strict e)
    rw [persistDone, h]
    simp [ProcessPc.work]

theorem processStep_work (env : Worker.HandleEnv) (s : State) {pc : ProcessPc}
    (going : ∀ result, pc ≠ .ended result) : (processStep c strict env s pc).1.work < pc.work := by
  cases pc with
  | stats target e =>
    have hpos : 0 < (ProcessPc.stats target e).work := by cases target <;> simp [ProcessPc.work]
    rw [processStep]
    split
    · rwa [persistFailed_work]
    · cases target <;> simp [ProcessPc.work]
  | last target e =>
    have hpos : 0 < (ProcessPc.last target e).work := by cases target <;> simp [ProcessPc.work]
    rw [processStep]
    split
    · rwa [persistFailed_work]
    · split
      · rwa [persistFailed_work]
      · split
        · rwa [persistFailed_work]
        · cases target <;> simp [ProcessPc.work]
  | store target e =>
    have hpos : 0 < (ProcessPc.store target e).work := by cases target <;> simp [ProcessPc.work]
    rw [processStep]
    split
    · rwa [persistFailed_work]
    · exact persistDone_work _ e target
  | track e =>
    rw [processStep]
    dsimp only
    split
    · simp [ProcessPc.work]
    · split <;> simp [ProcessPc.work]
  | ended result => exact absurd rfl (going result)

variable {env : Worker.HandleEnv} {m m' : Memory} {q q' : List Event}

/-- The work in memory, by the items of the buffer. -/
theorem Memory.work_eq (hq : m.worker.ringBuffer.Holds q) :
    m.work = 10 * q.length + if m.worker.signal then 4 else 0 := by
  rw [Memory.work, Buffer.len, hq.count_eq]

theorem LoopStep.work {pc pc' : LoopPc} (h : LoopStep c strict env m q pc m' pc' q')
    (hq : m.worker.ringBuffer.Holds q) (hq' : m'.worker.ringBuffer.Holds q') :
    m'.work + pc'.work < m.work + pc.work := by
  rw [Memory.work_eq hq, Memory.work_eq hq', h.signal.1]
  cases h with
  | goOn bound nonempty => simp [LoopPc.work]
  | leave why => simp [LoopPc.work]
  | take first =>
    simp only [first, List.length_cons, LoopPc.work, ProcessPc.work]
    omega
  | miss empty => simp [LoopPc.work]
  | process going =>
    have hlt := @processStep_work c strict env m.worker.state _ going
    simp only [LoopPc.work]
    omega
  | finish => simp [LoopPc.work]

theorem ConsumerStep.work {pc pc' : ConsumerPc} (h : ConsumerStep c strict env m q pc m' pc' q')
    (hq : m.worker.ringBuffer.Holds q) (hq' : m'.worker.ringBuffer.Holds q') :
    m'.work + pc'.work < m.work + pc.work := by
  cases h with
  | receive token =>
    rw [Memory.work_eq hq, Memory.work_eq hq', token]
    simp [ConsumerPc.work]
  | stop before =>
    rw [Memory.work_eq hq, Memory.work_eq hq']
    rcases before with ⟨i, rfl⟩ | ⟨i, rfl⟩ <;> simp [ConsumerPc.work]
  | start capacity => simp [ConsumerPc.work, LoopPc.work]
  | loop step going =>
    have hlt := step.work hq hq'
    simp only [ConsumerPc.work]
    omega
  | leave step =>
    have hlt := step.work hq hq'
    simp only [ConsumerPc.work, LoopPc.work] at hlt ⊢
    omega

theorem ShutdownStep.work {goOn : Bool} {pc pc' : ShutdownPc}
    (h : ShutdownStep c strict env goOn m q pc m' pc' q')
    (hq : m.worker.ringBuffer.Holds q) (hq' : m'.worker.ringBuffer.Holds q') :
    m'.work + pc'.work < m.work + pc.work := by
  cases h with
  | loop step going =>
    have hlt := step.work hq hq'
    simp only [ShutdownPc.work]
    omega
  | leave step =>
    have hlt := step.work hq hq'
    simp only [ShutdownPc.work, LoopPc.work] at hlt ⊢
    omega
  | _ => simp [Memory.work, ShutdownPc.work, LoopPc.work]

/-- A `Submit` does not wait for ever, and it has paid for what it leaves behind. -/
theorem submitStep_work {e : Event} {pc pc' : SubmitPc} (hq : m.worker.ringBuffer.Holds q)
    (h : submitStep strict m e pc = some (m', pc')) : m'.work + pc'.work < m.work + pc.work := by
  cases pc with
  | closing =>
    rw [submitStep] at h
    split at h
    · cases h
      show m.work + SubmitPc.dropped.work < _
      simp [SubmitPc.work]
    · split at h <;> cases h <;> simp [SubmitPc.work]
  | test i =>
    rw [submitStep] at h
    split at h <;> cases h <;> simp only [SubmitPc.work] <;> omega
  | wait i =>
    rw [submitStep] at h
    split at h
    · cases h
      show m.work + SubmitPc.dropped.work < _
      simp [SubmitPc.work]
    · cases h
      show m.work + SubmitPc.work _ < _
      split
      · simp only [SubmitPc.work]
        omega
      · simp only [SubmitPc.work]
        omega
  | full =>
    rw [submitStep] at h
    split at h
    · cases h
      show m.work + SubmitPc.dropped.work < _
      simp [SubmitPc.work]
    · cases h
      simp [SubmitPc.work]
  | push =>
    rw [submitStep] at h
    rcases hq.length_le.lt_or_eq with hroom | hfull
    · obtain ⟨ringBuffer, hpush, hholds, -⟩ := Buffer.push_ok strict hq hroom e
      rw [hpush] at h
      cases h
      rw [Memory.work_eq hq, Memory.work_eq hholds]
      simp only [List.length_append, List.length_singleton, SubmitPc.work]
      omega
    · rw [Buffer.push_full strict hq hfull] at h
      cases h
      simp [SubmitPc.work]
  | send =>
    rw [submitStep] at h
    split at h
    · cases h
      simp [SubmitPc.work]
    · cases h
      simp only [Memory.work, SubmitPc.work, if_true]
      omega
  | sent => cases h
  | dropped => cases h
  | lost => cases h
  | panicked => cases h

end

/-- A sum with one term replaced. -/
theorem sum_map_set {α : Type} (f : α → Nat) (y : α) : ∀ {l : List α} {i : Nat} {x : α},
    l[i]? = some x → ((l.set i y).map f).sum + f x = (l.map f).sum + f y
  | a :: l, 0, x, h => by
    cases h
    simp only [List.set_cons_zero, List.map_cons, List.sum_cons]
    omega
  | a :: l, i + 1, x, h => by
    have ih := sum_map_set f y (l := l) h
    simp only [List.set_cons_succ, List.map_cons, List.sum_cons]
    omega

namespace Pipeline

variable (c : Crypto) (strict : Bool)

theorem step_next {p p' : Pipeline} {i : Nat} (h : p.step c strict (.next i) = some p') :
    ∃ s memory pc, p.submits[i]? = some s ∧
      submitStep strict p.memory s.event s.pc = some (memory, pc) ∧
      p' = { p with memory, submits := p.submits.set i { s with pc } } := by
  unfold step at h
  split at h
  · cases h
  · dsimp only at h
    split at h
    · cases h
    · next s hs =>
      split at h
      · cases h
      · next memory pc hstep =>
        cases h
        exact ⟨s, memory, pc, hs, hstep, rfl⟩

theorem step_quit {p p' : Pipeline} (h : p.step c strict .quit = some p') :
    (∃ i, p.anchor = .running i) ∧ p' = { p with anchor := .stopped } := by
  unfold step at h
  split at h
  · cases h
  · dsimp only [anchorQuit] at h
    split at h
    · next i hrunning =>
      refine ⟨⟨i, hrunning⟩, ?_⟩
      split at h
      · cases h
      · split at h
        · split at h <;> cases h
          rfl
        · split at h <;> cases h
          rfl
    · cases h

/-- **The step lemma**: whoever goes on leaves less to do. -/
theorem step_work {p p' : Pipeline} {a : Action} {q : List Event}
    (hq : p.memory.worker.ringBuffer.Holds q) (ha : a.isCall = false)
    (h : p.step c strict a = some p') : p'.work < p.work := by
  obtain ⟨q', hcases, hq', -⟩ := step_cases c strict hq h
  cases a with
  | submit e => cases ha
  | tick event => cases ha
  | next i =>
    obtain ⟨s, memory, pc, hs, hsubmit, rfl⟩ := step_next c strict h
    have hlt := submitStep_work hq hsubmit
    have hsum := sum_map_set (fun s : Submitting => s.pc.work) { s with pc } hs
    dsimp only [work] at hsum ⊢
    omega
  | consume env =>
    cases hcases with
    | consume before step =>
      have hlt := step.work hq hq'
      subst before
      dsimp only [work]
      omega
  | quit =>
    obtain ⟨⟨i, hrunning⟩, rfl⟩ := step_quit c strict h
    dsimp only [work]
    rw [hrunning]
    simp only [AnchorPc.work]
    omega
  | shutdown env timedOut =>
    cases hcases with
    | shutdown before step =>
      have hlt := step.work hq hq'
      subst before
      dsimp only [work]
      omega

/-- The work, by the calls that are in progress and the events in the buffer. -/
theorem work_le (p : Pipeline) : p.work ≤
    (2 * maxBlockAttempts + 20) * p.submits.countP (·.pc.inProgress) +
      10 * p.memory.worker.ringBuffer.len + 40 := by
  have hsubmits : ∀ l : List Submitting, (l.map fun s => s.pc.work).sum
      ≤ (2 * maxBlockAttempts + 20) * l.countP (·.pc.inProgress) := by
    intro l
    induction l with
    | nil => simp
    | cons s l ih =>
      have hs : s.pc.work ≤ (2 * maxBlockAttempts + 20) * if s.pc.inProgress then 1 else 0 := by
        cases s.pc <;> simp only [SubmitPc.work, SubmitPc.inProgress] <;> simp <;> omega
      rw [List.map_cons, List.sum_cons, List.countP_cons, Nat.mul_add]
      omega
  have hprocess : ∀ pc : ProcessPc, pc.work ≤ 7 := by
    intro pc
    cases pc with
    | stats target e => cases target <;> simp [ProcessPc.work]
    | last target e => cases target <;> simp [ProcessPc.work]
    | store target e => cases target <;> simp [ProcessPc.work]
    | _ => simp [ProcessPc.work]
  have hloop : ∀ pc : LoopPc, pc.work ≤ 10 := by
    intro pc
    cases pc with
    | process j item pc => exact Nat.add_le_add_right (hprocess pc) 3
    | _ => simp [LoopPc.work]
  have hconsumer : p.consumer.work ≤ 11 := by
    cases p.consumer with
    | draining i pc => exact Nat.add_le_add_right (hloop pc) 1
    | _ => simp [ConsumerPc.work]
  have hshutdown : p.shutdown.work ≤ 11 := by
    cases p.shutdown with
    | draining pc => exact Nat.add_le_add_right (hloop pc) 1
    | _ => simp [ShutdownPc.work]
  have hanchor : p.anchor.work ≤ 1 := by cases p.anchor <;> simp [AnchorPc.work]
  have hmemory : p.memory.work ≤ 10 * p.memory.worker.ringBuffer.len + 4 := by
    rw [Memory.work]
    split <;> omega
  have hsum := hsubmits p.submits
  rw [work]
  omega

/-- In every reachable state the buffer holds its items. -/
theorem holds_of_runSteps {zero : Event} {capacity : Int} {ringBuffer : Buffer Event}
    (hnew : Buffer.new strict zero capacity = .ok ringBuffer) {state : State}
    {mode : BackpressureMode} {actions : List Action} {p : Pipeline}
    (hrun : runSteps (step c strict) (initial ringBuffer state mode) actions = some p) :
    ∃ q, p.memory.worker.ringBuffer.Holds q :=
  runSteps_invariant (fun p : Pipeline => ∃ q, p.memory.worker.ringBuffer.Holds q)
    (fun ⟨q, hq⟩ hstep => by
      obtain ⟨q', -, hholds, -⟩ := step_cases c strict hq hstep
      exact ⟨q', hholds⟩)
    ⟨[], (Buffer.holds_new hnew).1⟩ hrun

/-- **No schedule goes on for ever.** Take any state that the worker can be in, also in the middle
of a `Shutdown`, and any order in which its goroutines go on from there. If no new event is
submitted, they take at most a number of steps that is linear in the calls of `Submit` that are in
progress and in the events in the buffer: no attempt and no batch is repeated without end. -/
theorem work_bounded {zero : Event} {capacity : Int} {ringBuffer : Buffer Event}
    (hnew : Buffer.new strict zero capacity = .ok ringBuffer) (state : State)
    (mode : BackpressureMode) {before after : List Action} {p p' : Pipeline}
    (hrun : runSteps (step c strict) (initial ringBuffer state mode) before = some p)
    (hcalls : ∀ a ∈ after, a.isCall = false) (hrun' : runSteps (step c strict) p after = some p') :
    after.length ≤ (2 * maxBlockAttempts + 20) * p.submits.countP (·.pc.inProgress) +
      10 * p.memory.worker.ringBuffer.len + 40 := by
  have hstep : ∀ {p : Pipeline} {a : Action} {p' : Pipeline},
      (∃ q, p.memory.worker.ringBuffer.Holds q) → (!a.isCall) = true →
      p.step c strict a = some p' →
      (∃ q, p'.memory.worker.ringBuffer.Holds q) ∧ p'.work < p.work := by
    rintro p a p' ⟨q, hq⟩ ha hstep
    obtain ⟨q', -, hholds, -⟩ := step_cases c strict hq hstep
    exact ⟨⟨q', hholds⟩, step_work c strict hq (Bool.not_eq_true' _ ▸ ha) hstep⟩
  have hbound := length_add_le_of_runSteps _ work hstep (holds_of_runSteps c strict hnew hrun)
    (fun a ha => by rw [hcalls a ha]; rfl) hrun'
  have hle := work_le p
  omega

/-- One call of `Submit`, and the loop that takes its event. -/
def handOver : List Action :=
  List.replicate 4 (.next 0) ++ List.replicate 4 (.consume quietEnv)

theorem work_bounded_handOver : ∃ p p',
    runSteps (step recordedCrypto true) (initial pairBuffer (initialState recordedSigner []) .drop)
      [.submit recordedCall] = some p ∧ p.submits.countP (·.pc.inProgress) = 1 ∧
    runSteps (step recordedCrypto true) p handOver = some p' ∧
    handOver.length ≤ (2 * maxBlockAttempts + 20) * p.submits.countP (·.pc.inProgress) +
      10 * p.memory.worker.ringBuffer.len + 40 := by
  refine ⟨_, _, rfl, rfl, rfl, ?_⟩
  exact @work_bounded recordedCrypto true {} 2 pairBuffer rfl _ .drop [.submit recordedCall]
    handOver _ _ rfl (by simp [handOver, Action.isCall]) rfl

end Pipeline

end Logryph
