import Logryph.Pipeline

/-!
# The steps of the pipeline

For a proof about every interleaving: what a step of each goroutine can be, given the items that the
buffer holds. The checks of the buffer's indices never fail, so they are gone here.

* `Pipeline.step_cases` — what a step of the system can be
* `LoopPc.Covers` — the loop has enough iterations left for what is in the buffer
-/

namespace Logryph

open Infra

variable (c : Crypto) (strict : Bool)

/-! ## Submit -/

/-- The `Submit` has passed its first check and not pushed yet. -/
def SubmitPc.admitted : SubmitPc → Bool
  | test _ => true
  | wait _ => true
  | full => true
  | push => true
  | _ => false

/-- The `Submit` has pushed its event. -/
def SubmitPc.hasPushed : SubmitPc → Bool
  | send => true
  | sent => true
  | panicked => true
  | _ => false

/-- What a step of `Submit` can be, with the items of the buffer before and after it. -/
inductive SubmitStep (m : Memory) (e : Event) (q : List Event) :
    SubmitPc → Memory → SubmitPc → List Event → Prop
  /-- The event is dropped. -/
  | drop {pc : SubmitPc} (before : pc = .closing ∧ m.worker.closing = true ∨ pc.admitted = true)
      (push : pc ≠ .push) :
      SubmitStep m e q pc { m with worker := m.worker.dropEvent } .dropped q
  /-- The call is not too late. -/
  | enter {pc : SubmitPc} (running : m.worker.closing = false) (after : pc.admitted = true) :
      SubmitStep m e q .closing m pc q
  /-- It waits, or goes on. -/
  | goOn {pc pc' : SubmitPc} {n : UInt64} (before : pc.admitted = true) (push : pc ≠ .push)
      (after : pc'.admitted = true) :
      SubmitStep m e q pc { m with worker := { m.worker with blockedSubmits := n } } pc' q
  | push {ringBuffer : Buffer Event} (room : q.length < m.worker.ringBuffer.capacity) :
      SubmitStep m e q .push
        { m with worker := { m.worker with ringBuffer }, pushed := m.pushed ++ [e] } .send
        (q ++ [e])
  /-- The buffer has filled up since the check, and the event is gone. -/
  | lose (full : q.length = m.worker.ringBuffer.capacity) : SubmitStep m e q .push m .lost q
  | send (opened : m.worker.signalClosed = false) :
      SubmitStep m e q .send { m with worker := { m.worker with signal := true } } .sent q
  | crash (closed : m.worker.signalClosed = true) : SubmitStep m e q .send m .panicked q

/-- The buffer still holds what it should, and has its size. -/
def Memory.Keeps (m m' : Memory) (q' : List Event) : Prop :=
  m'.worker.ringBuffer.Holds q' ∧
    m'.worker.ringBuffer.capacity = m.worker.ringBuffer.capacity

theorem submitStep_cases {m m' : Memory} {e : Event} {pc pc' : SubmitPc} {q : List Event}
    (hq : m.worker.ringBuffer.Holds q) (h : submitStep strict m e pc = some (m', pc')) :
    ∃ q', SubmitStep m e q pc m' pc' q' ∧ m.Keeps m' q' := by
  cases pc with
  | closing =>
    rw [submitStep] at h
    split at h
    · next hclosing =>
      cases h
      exact ⟨q, .drop (Or.inl ⟨rfl, hclosing⟩) (by simp), hq, rfl⟩
    · next hclosing =>
      rw [Bool.not_eq_true] at hclosing
      split at h
      · cases h
        exact ⟨q, .enter hclosing rfl, hq, rfl⟩
      · cases h
        exact ⟨q, .enter hclosing rfl, hq, rfl⟩
  | test i =>
    rw [submitStep] at h
    split at h
    · cases h
      exact ⟨q, .goOn rfl (by simp) rfl, hq, rfl⟩
    · cases h
      exact ⟨q, .goOn rfl (by simp) rfl, hq, rfl⟩
  | wait i =>
    rw [submitStep] at h
    split at h
    · cases h
      exact ⟨q, .drop (Or.inr rfl) (by simp), hq, rfl⟩
    · cases h
      exact ⟨q, .goOn rfl (by simp) (by split <;> rfl), hq, rfl⟩
  | full =>
    rw [submitStep] at h
    split at h
    · cases h
      exact ⟨q, .drop (Or.inr rfl) (by simp), hq, rfl⟩
    · cases h
      exact ⟨q, .goOn rfl (by simp) rfl, hq, rfl⟩
  | push =>
    rw [submitStep] at h
    rcases hq.length_le.lt_or_eq with hroom | hfull
    · obtain ⟨ringBuffer, hpush, hholds, hcap⟩ := Buffer.push_ok strict hq hroom e
      rw [hpush] at h
      cases h
      exact ⟨q ++ [e], .push hroom, hholds, hcap⟩
    · rw [Buffer.push_full strict hq hfull] at h
      cases h
      exact ⟨q, .lose hfull, hq, rfl⟩
  | send =>
    rw [submitStep] at h
    split at h
    · next hclosed =>
      cases h
      exact ⟨q, .crash hclosed, hq, rfl⟩
    · next hclosed =>
      cases h
      exact ⟨q, .send (Bool.not_eq_true _ ▸ hclosed), hq, rfl⟩
  | sent => cases h
  | dropped => cases h
  | lost => cases h
  | panicked => cases h

/-- `Submit` only reads the flags of a shutdown. -/
theorem SubmitStep.flags {m m' : Memory} {e : Event} {pc pc' : SubmitPc} {q q' : List Event}
    (h : SubmitStep m e q pc m' pc' q') :
    m'.worker.closing = m.worker.closing ∧ m'.worker.signalClosed = m.worker.signalClosed := by
  cases h <;> exact ⟨rfl, rfl⟩

/-! ## The loop -/

theorem recordLatency_ok_cases {w w' : Worker} {d : Int}
    (h : w.recordLatency strict d = (.ok (), w')) : ∃ latency, w' = { w with latency } := by
  unfold Worker.recordLatency at h
  split at h
  · cases h
  · cases h
    exact ⟨w.latency, rfl⟩
  · cases h
    exact ⟨_, rfl⟩

/-- An event that was handled to the end is counted and put back. -/
theorem finishEvent_ok {duration : Int} {w w' : Worker} {e : Event} {result : Except Fault Unit}
    (h : finishEvent strict duration w e result = (.ok (), w')) :
    ∃ isUnhealthy latency, w' = { w with
      isUnhealthy, latency
      processedEvents := w.processedEvents + 1
      state := { w.state with pool := (putEvent strict w.state.pool e).2 } } := by
  unfold finishEvent at h
  split at h
  · cases h
  · split at h
    · cases h
    · next w₁ hlatency =>
      obtain ⟨latency, rfl⟩ := recordLatency_ok_cases strict hlatency
      obtain ⟨-, rfl⟩ := Prod.mk.inj h
      exact ⟨_, _, rfl⟩

/-- What a step of the loop can be. -/
inductive LoopStep (env : Worker.HandleEnv) (m : Memory) (q : List Event) :
    LoopPc → Memory → LoopPc → List Event → Prop
  /-- There is an event to be taken. -/
  | goOn {j : Nat} (bound : j < maxDrainEvents) (nonempty : q ≠ []) :
      LoopStep env m q (.test j) m (.pop j) q
  | leave {j : Nat} (why : maxDrainEvents ≤ j ∨ q = []) : LoopStep env m q (.test j) m .left q
  | take {j : Nat} {e : Event} {q' : List Event} {ringBuffer : Buffer Event} (first : q = e :: q') :
      LoopStep env m q (.pop j) { m with worker := { m.worker with ringBuffer } }
        (.process j { event := e } (.stats .main e)) q'
  /-- Somebody else has taken the last event. -/
  | miss {j : Nat} (empty : q = []) : LoopStep env m q (.pop j) m .left q
  | process {j : Nat} {item : Item} {pc : ProcessPc} (going : ∀ result, pc ≠ .ended result) :
      LoopStep env m q (.process j item pc)
        { m with
          worker := { m.worker with state := (processStep c strict env m.worker.state pc).2 } }
        (.process j (item.note (stores strict env m.worker.state pc) pc)
          (processStep c strict env m.worker.state pc).1) q
  | finish {j : Nat} {item : Item} {result : Except Fault Unit} {isUnhealthy : Bool}
      {latency : Latency} :
      LoopStep env m q (.process j item (.ended result))
        { m with
          worker := { m.worker with
            isUnhealthy, latency
            processedEvents := m.worker.processedEvents + 1
            state := { m.worker.state with
              pool := (putEvent strict m.worker.state.pool item.event).2 } }
          handled := m.handled ++ [item] } (.test (j + 1)) q

theorem loopStep_cases {env : Worker.HandleEnv} {m m' : Memory} {pc pc' : LoopPc} {q : List Event}
    (hq : m.worker.ringBuffer.Holds q) (h : loopStep c strict env m pc = some (m', pc')) :
    ∃ q', LoopStep c strict env m q pc m' pc' q' ∧ m.Keeps m' q' := by
  cases pc with
  | test j =>
    rw [loopStep] at h
    split at h
    · next hgo =>
      cases h
      rw [Bool.and_eq_true, decide_eq_true_eq, Bool.not_eq_true'] at hgo
      refine ⟨q, .goOn hgo.1 fun hnil => ?_, hq, rfl⟩
      rw [hq.isEmpty_iff.mpr hnil] at hgo
      cases hgo.2
    · next hstop =>
      cases h
      refine ⟨q, .leave ?_, hq, rfl⟩
      rw [Bool.and_eq_true, decide_eq_true_eq, Bool.not_eq_true', not_and_or, not_lt,
        Bool.not_eq_false, hq.isEmpty_iff] at hstop
      exact hstop
  | pop j =>
    rw [loopStep] at h
    cases q with
    | nil =>
      rw [Buffer.pop_empty strict hq] at h
      cases h
      exact ⟨[], .miss rfl, hq, rfl⟩
    | cons e q' =>
      obtain ⟨ringBuffer, hpop, hholds, hcap⟩ := Buffer.pop_ok strict hq
      rw [hpop] at h
      cases h
      exact ⟨q', .take rfl, hholds, hcap⟩
  | process j item pc =>
    cases pc with
    | ended result =>
      rw [loopStep] at h
      split at h
      · cases h
      · next worker hfinish =>
        cases h
        obtain ⟨isUnhealthy, latency, rfl⟩ := finishEvent_ok strict hfinish
        exact ⟨q, .finish, hq, rfl⟩
    | stats target e =>
      cases h
      exact ⟨q, .process (by simp), hq, rfl⟩
    | last target e =>
      cases h
      exact ⟨q, .process (by simp), hq, rfl⟩
    | store target e =>
      cases h
      exact ⟨q, .process (by simp), hq, rfl⟩
    | track e =>
      cases h
      exact ⟨q, .process (by simp), hq, rfl⟩
  | left => cases h

/-- Without further pushes, what the loop still does is enough for `n` events. -/
def LoopPc.Covers (n : Nat) : LoopPc → Prop
  | test j => n + j ≤ maxDrainEvents
  | pop j => n + j ≤ maxDrainEvents
  | process j _ _ => n + (j + 1) ≤ maxDrainEvents
  | left => n = 0

theorem LoopPc.Covers.mono {n n' : Nat} {pc : LoopPc} (h : pc.Covers n) (hle : n' ≤ n) :
    pc.Covers n' := by
  cases pc <;> simp only [LoopPc.Covers] at h ⊢ <;> omega

/-- Each iteration takes an event, and the loop is left with an empty buffer. -/
theorem LoopStep.covers {env : Worker.HandleEnv} {m m' : Memory} {pc pc' : LoopPc}
    {q q' : List Event} (h : LoopStep c strict env m q pc m' pc' q') (hpc : pc.Covers q.length) :
    pc'.Covers q'.length := by
  cases h with
  | goOn bound nonempty => exact hpc
  | leave why =>
    rcases why with hbound | hnil
    · simp only [LoopPc.Covers] at hpc ⊢
      omega
    · rw [hnil]
      rfl
  | take first =>
    subst first
    simp only [LoopPc.Covers, List.length_cons] at hpc ⊢
    omega
  | miss empty =>
    rw [empty]
    rfl
  | process going => exact hpc
  | finish => exact hpc

/-- The loop only takes from the buffer. -/
theorem LoopStep.length_le {env : Worker.HandleEnv} {m m' : Memory} {pc pc' : LoopPc}
    {q q' : List Event} (h : LoopStep c strict env m q pc m' pc' q') : q'.length ≤ q.length := by
  cases h with
  | take first => simp [first]
  | _ => exact le_rfl

/-- The loop has nothing to do with the channels. -/
theorem LoopStep.signal {env : Worker.HandleEnv} {m m' : Memory} {pc pc' : LoopPc}
    {q q' : List Event} (h : LoopStep c strict env m q pc m' pc' q') :
    m'.worker.signal = m.worker.signal ∧ m'.worker.signalClosed = m.worker.signalClosed ∧
      m'.worker.closing = m.worker.closing := by
  cases h <;> exact ⟨rfl, rfl, rfl⟩

/-! ## processEvents -/

/-- What a step of `processEvents` can be. -/
inductive ConsumerStep (env : Worker.HandleEnv) (m : Memory) (q : List Event) :
    ConsumerPc → Memory → ConsumerPc → List Event → Prop
  | receive {i : Nat} (token : m.worker.signal = true) :
      ConsumerStep env m q (.waiting i) { m with worker := { m.worker with signal := false } }
        (.capacity i) q
  /-- The channel is closed, or a check has failed without a panic. -/
  | stop {pc : ConsumerPc} {isUnhealthy : Bool}
      (before : (∃ i, pc = .waiting i) ∨ ∃ i, pc = .capacity i) :
      ConsumerStep env m q pc { m with worker := { m.worker with isUnhealthy } } .stopped q
  | start {i : Nat} (capacity : m.worker.ringBuffer.capacity ≤ maxDrainEvents) :
      ConsumerStep env m q (.capacity i) m (.draining i (.test 0)) q
  | loop {i : Nat} {pc pc' : LoopPc} {m' : Memory} {q' : List Event}
      (step : LoopStep c strict env m q pc m' pc' q') (going : pc' ≠ .left) :
      ConsumerStep env m q (.draining i pc) m' (.draining i pc') q'
  | leave {i : Nat} {pc : LoopPc} {m' : Memory} {q' : List Event}
      (step : LoopStep c strict env m q pc m' .left q') :
      ConsumerStep env m q (.draining i pc) m' (.waiting (i + 1)) q'

/-- `processEvents` leaves the flags of a shutdown alone. -/
theorem ConsumerStep.flags {env : Worker.HandleEnv} {m m' : Memory} {pc pc' : ConsumerPc}
    {q q' : List Event} (h : ConsumerStep c strict env m q pc m' pc' q') :
    m'.worker.closing = m.worker.closing ∧ m'.worker.signalClosed = m.worker.signalClosed := by
  cases h with
  | loop step going =>
    obtain ⟨-, hclosed, hclosing⟩ := step.signal
    exact ⟨hclosing, hclosed⟩
  | leave step =>
    obtain ⟨-, hclosed, hclosing⟩ := step.signal
    exact ⟨hclosing, hclosed⟩
  | _ => exact ⟨rfl, rfl⟩

theorem checkCapacity_eq_ok {w : Worker} {u : Unit} :
    checkCapacity strict w = .ok u ↔ w.ringBuffer.capacity ≤ maxDrainEvents := by
  rw [checkCapacity, check_eq_ok, decide_eq_true_eq]
  rfl

theorem consumerStep_cases {env : Worker.HandleEnv} {m m' : Memory} {pc pc' : ConsumerPc}
    {q : List Event} (hq : m.worker.ringBuffer.Holds q)
    (h : consumerStep c strict env m pc = some (m', pc')) :
    ∃ q', ConsumerStep c strict env m q pc m' pc' q' ∧ m.Keeps m' q' := by
  cases pc with
  | waiting i =>
    rw [consumerStep] at h
    split at h
    · split at h
      · next htoken =>
        cases h
        exact ⟨q, .receive htoken, hq, rfl⟩
      · split at h
        · cases h
          exact ⟨q, .stop (Or.inl ⟨i, rfl⟩), hq, rfl⟩
        · cases h
    · split at h
      · cases h
      · cases h
        exact ⟨q, .stop (Or.inl ⟨i, rfl⟩), hq, rfl⟩
  | capacity i =>
    rw [consumerStep] at h
    split at h
    · cases h
    · cases h
      exact ⟨q, .stop (Or.inr ⟨i, rfl⟩), hq, rfl⟩
    · next hcheck =>
      cases h
      exact ⟨q, .start ((checkCapacity_eq_ok strict).mp hcheck), hq, rfl⟩
  | draining i pc =>
    rw [consumerStep] at h
    split at h
    · cases h
    · next m₁ hloop =>
      cases h
      obtain ⟨q', hstep, hkeeps⟩ := loopStep_cases c strict hq hloop
      exact ⟨q', .leave hstep, hkeeps⟩
    · next m₁ pc₁ hne hloop =>
      cases h
      obtain ⟨q', hstep, hkeeps⟩ := loopStep_cases c strict hq hloop
      exact ⟨q', .loop hstep hne, hkeeps⟩
  | stopped => cases h

/-! ## Shutdown -/

/-- What a step of `Shutdown` can be. -/
inductive ShutdownStep (env : Worker.HandleEnv) (goOn : Bool) (m : Memory) (q : List Event) :
    ShutdownPc → Memory → ShutdownPc → List Event → Prop
  | close : ShutdownStep env goOn m q .idle { m with worker := { m.worker with closing := true } }
      .closeQuit q
  | closeQuit : ShutdownStep env goOn m q .closeQuit { m with quitClosed := true } .closeSignal q
  | closeSignal : ShutdownStep env goOn m q .closeSignal
      { m with worker := { m.worker with signalClosed := true } } .wait q
  | stopWaiting (ready : goOn = true) : ShutdownStep env goOn m q .wait m .capacity q
  /-- The buffer is too large, and assertions do not panic. -/
  | giveUp (release : strict = false) (capacity : maxDrainEvents < m.worker.ringBuffer.capacity) :
      ShutdownStep env goOn m q .capacity
        { m with worker := { m.worker with isUnhealthy := true } } .returned q
  | start (capacity : m.worker.ringBuffer.capacity ≤ maxDrainEvents) :
      ShutdownStep env goOn m q .capacity m (.draining (.test 0)) q
  | loop {pc pc' : LoopPc} {m' : Memory} {q' : List Event}
      (step : LoopStep c strict env m q pc m' pc' q') (going : pc' ≠ .left) :
      ShutdownStep env goOn m q (.draining pc) m' (.draining pc') q'
  | leave {pc : LoopPc} {m' : Memory} {q' : List Event}
      (step : LoopStep c strict env m q pc m' .left q') :
      ShutdownStep env goOn m q (.draining pc) m' .returned q'

theorem checkCapacity_error {w : Worker} {msg : Bytes}
    (h : checkCapacity strict w = .error (.error msg)) :
    strict = false ∧ maxDrainEvents < w.ringBuffer.capacity := by
  rw [checkCapacity, check] at h
  split at h
  · cases h
  · next hcap =>
    cases strict with
    | true => cases h
    | false => exact ⟨rfl, not_le.mp fun hle => hcap (decide_eq_true hle)⟩

theorem shutdownStep_cases {env : Worker.HandleEnv} {goOn : Bool} {m m' : Memory}
    {pc pc' : ShutdownPc} {q : List Event} (hq : m.worker.ringBuffer.Holds q)
    (h : shutdownStep c strict env goOn m pc = some (m', pc')) :
    ∃ q', ShutdownStep c strict env goOn m q pc m' pc' q' ∧ m.Keeps m' q' := by
  cases pc with
  | idle =>
    cases h
    exact ⟨q, .close, hq, rfl⟩
  | closeQuit =>
    cases h
    exact ⟨q, .closeQuit, hq, rfl⟩
  | closeSignal =>
    cases h
    exact ⟨q, .closeSignal, hq, rfl⟩
  | wait =>
    rw [shutdownStep] at h
    split at h
    · next hready =>
      cases h
      exact ⟨q, .stopWaiting hready, hq, rfl⟩
    · cases h
  | capacity =>
    rw [shutdownStep] at h
    split at h
    · cases h
    · next hcheck =>
      cases h
      obtain ⟨hstrict, hcap⟩ := checkCapacity_error strict hcheck
      exact ⟨q, .giveUp hstrict hcap, hq, rfl⟩
    · next hcheck =>
      cases h
      exact ⟨q, .start ((checkCapacity_eq_ok strict).mp hcheck), hq, rfl⟩
  | draining pc =>
    rw [shutdownStep] at h
    split at h
    · cases h
    · next m₁ hloop =>
      cases h
      obtain ⟨q', hstep, hkeeps⟩ := loopStep_cases c strict hq hloop
      exact ⟨q', .leave hstep, hkeeps⟩
    · next m₁ pc₁ hne hloop =>
      cases h
      obtain ⟨q', hstep, hkeeps⟩ := loopStep_cases c strict hq hloop
      exact ⟨q', .loop hstep hne, hkeeps⟩
  | returned => cases h

/-! ## The system -/

namespace Pipeline

/-- What a step of the system can be, with the items of the buffer before and after it. -/
inductive Step (p : Pipeline) (q : List Event) : Action → Pipeline → List Event → Prop
  | submit {event : Event} :
      Step p q (.submit event) { p with submits := p.submits ++ [{ event }] } q
  | next {i : Nat} {event : Event} {anchor : Bool} {pc pc' : SubmitPc} {memory : Memory}
      {q' : List Event} (call : p.submits[i]? = some ⟨event, anchor, pc⟩)
      (step : SubmitStep p.memory event q pc memory pc' q') :
      Step p q (.next i) { p with memory, submits := p.submits.set i ⟨event, anchor, pc'⟩ } q'
  | consume {env : Worker.HandleEnv} {pc pc' : ConsumerPc} {memory : Memory} {q' : List Event}
      (before : p.consumer = pc) (step : ConsumerStep c strict env p.memory q pc memory pc' q') :
      Step p q (.consume env) { p with memory, consumer := pc' } q'
  | tick {i : Nat} {event : Option Event} (running : p.anchor = .running i)
      (free : p.anchorBusy = false) :
      Step p q (.tick event) { p with
        anchor := .running (i + 1)
        submits := p.submits ++ (event.map fun event => { event, anchor := true }).toList } q
  | quit (free : p.anchorBusy = false) : Step p q .quit { p with anchor := .stopped } q
  | shutdown {env : Worker.HandleEnv} {timedOut : Bool} {pc pc' : ShutdownPc} {memory : Memory}
      {q' : List Event} (before : p.shutdown = pc)
      (step : ShutdownStep c strict env (timedOut || p.stopped) p.memory q pc memory pc' q') :
      Step p q (.shutdown env timedOut) { p with memory, shutdown := pc' } q'

/-- **What a step can be.** -/
theorem step_cases {p p' : Pipeline} {a : Action} {q : List Event}
    (hq : p.memory.worker.ringBuffer.Holds q) (h : p.step c strict a = some p') :
    ∃ q', Step c strict p q a p' q' ∧ p.memory.Keeps p'.memory q' := by
  unfold step at h
  split at h
  · cases h
  cases a with
  | submit event =>
    cases h
    exact ⟨q, .submit, hq, rfl⟩
  | next i =>
    dsimp only at h
    split at h
    · cases h
    · next s hs =>
      split at h
      · cases h
      · next memory pc hstep =>
        cases h
        obtain ⟨q', hcases, hkeeps⟩ := submitStep_cases strict hq hstep
        exact ⟨q', .next hs hcases, hkeeps⟩
  | consume env =>
    dsimp only at h
    split at h
    · cases h
    · next memory consumer hstep =>
      cases h
      obtain ⟨q', hcases, hkeeps⟩ := consumerStep_cases c strict hq hstep
      exact ⟨q', .consume rfl hcases, hkeeps⟩
  | tick event =>
    dsimp only [anchorStep] at h
    split at h
    · next i hrunning =>
      split at h
      · next hgo =>
        rw [Bool.and_eq_true, Bool.not_eq_true'] at hgo
        cases h
        exact ⟨q, .tick hrunning hgo.2, hq, rfl⟩
      · cases h
    · cases h
  | quit =>
    dsimp only [anchorQuit] at h
    split at h
    · split at h
      · cases h
      · next hfree =>
        rw [Bool.not_eq_true] at hfree
        split at h
        · split at h
          · cases h
            exact ⟨q, .quit hfree, hq, rfl⟩
          · cases h
        · split at h
          · cases h
          · cases h
            exact ⟨q, .quit hfree, hq, rfl⟩
    · cases h
  | shutdown env timedOut =>
    dsimp only at h
    split at h
    · cases h
    · next memory shutdown hstep =>
      cases h
      obtain ⟨q', hcases, hkeeps⟩ := shutdownStep_cases c strict hq hstep
      exact ⟨q', .shutdown rfl hcases, hkeeps⟩

end Pipeline

end Logryph
