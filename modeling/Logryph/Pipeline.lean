import Logryph.Infra.Transition
import Logryph.ProcessSteps

/-!
# The pipeline

The goroutines around a `ledger.Worker`: any number of callers of `Submit`, the loop of
`processEvents`, the `anchorLoop`, and one `Shutdown`. They share the worker's memory. An action
lets one of them take its next step; a step is an operation on an atomic, on the ring buffer, on a
channel or on the repository, with what the goroutine does by itself up to the next one.

A panic in one of the loops ends the process, so there is no next state. A panic in `Submit` ends
the process if it was called by `anchorLoop`; elsewhere the HTTP server catches it.

* `submitStep`, `loopStep`, `consumerStep`, `shutdownStep` — the steps of each goroutine
* `Pipeline.step` — the system
-/

namespace Logryph

open Infra

def maxSignalBatches : Nat := 2 ^ 30

def maxAnchorTicks : Nat := 2 ^ 30

/-- An event that was taken from the buffer. Whether `StoreEvent` has succeeded for it, and for its
completion event, is a record that the program does not keep. -/
structure Item where
  event : Event
  stored : Bool := false
  completed : Bool := false

/-- What the goroutines share. The last two fields are records that the program does not keep: the
events for which `Push` has succeeded, and those that were handled to the end. -/
structure Memory where
  worker : Worker
  quitClosed : Bool := false
  pushed : List Event := []
  handled : List Item := []

variable (c : Crypto) (strict : Bool)

/-! ## Submit -/

/-- What a `Submit` does next, or how it has ended. -/
inductive SubmitPc where
  /-- `closing.Load()` at the start. -/
  | closing
  /-- `IsFull()` in attempt `i` of the blocking mode. -/
  | test (i : Nat)
  /-- `closing.Load()` in attempt `i`, and the sleep. -/
  | wait (i : Nat)
  /-- The `IsFull()` that decides. -/
  | full
  /-- `Push`. -/
  | push
  /-- The send on `signalChan`. -/
  | send
  | sent
  | dropped
  /-- `Push` has failed. -/
  | lost
  | panicked
  deriving DecidableEq

/-- The `Submit` has not ended. -/
def SubmitPc.inProgress : SubmitPc → Bool
  | sent => false
  | dropped => false
  | lost => false
  | panicked => false
  | _ => true

/-- A call of `Submit`, by `anchorLoop` or not. -/
structure Submitting where
  event : Event
  anchor : Bool := false
  pc : SubmitPc := .closing

/-- One step of `Submit`. -/
def submitStep (m : Memory) (e : Event) : SubmitPc → Option (Memory × SubmitPc)
  | .closing =>
    if m.worker.closing then some ({ m with worker := m.worker.dropEvent }, .dropped)
    else
      match m.worker.backpressureMode with
      | .block => some (m, .test 0)
      | .drop => some (m, .full)
  | .test i => if m.worker.ringBuffer.isFull then some (m, .wait i) else some (m, .full)
  | .wait i =>
    if m.worker.closing then some ({ m with worker := m.worker.dropEvent }, .dropped)
    else
      some ({ m with worker := { m.worker with blockedSubmits := m.worker.blockedSubmits + 1 } },
        if i + 1 < maxBlockAttempts then .test (i + 1) else .full)
  | .full =>
    if m.worker.ringBuffer.isFull then some ({ m with worker := m.worker.dropEvent }, .dropped)
    else some (m, .push)
  | .push =>
    match m.worker.ringBuffer.push strict e with
    | (.error (.panic _), ringBuffer) =>
      some ({ m with worker := { m.worker with ringBuffer } }, .panicked)
    | (.error (.error _), ringBuffer) =>
      some ({ m with worker := { m.worker with ringBuffer } }, .lost)
    | (.ok (), ringBuffer) =>
      some ({ m with worker := { m.worker with ringBuffer }, pushed := m.pushed ++ [e] }, .send)
  | .send =>
    if m.worker.signalClosed then some (m, .panicked)
    else some ({ m with worker := { m.worker with signal := true } }, .sent)
  | _ => none

/-! ## The loop that empties the buffer -/

/-- What the loop of `processEvents` or of `drainBuffer` does next. -/
inductive LoopPc where
  /-- The bound and `IsEmpty()`, with `j` iterations done. -/
  | test (j : Nat)
  /-- `Pop`. -/
  | pop (j : Nat)
  /-- `ProcessEvent`, and what follows it when that has ended. -/
  | process (j : Nat) (item : Item) (pc : ProcessPc)
  | left

/-- The part of an iteration after `ProcessEvent`. -/
def finishEvent (duration : Int) (w : Worker) (e : Event) (result : Except Fault Unit) :
    Except Fault Unit × Worker :=
  match result with
  | .error (.panic msg) => (.error (.panic msg), w)
  | result =>
    match { w with isUnhealthy := w.isUnhealthy || !result.isOk }.recordLatency strict duration with
    | (.error f, w) => (.error f, w)
    | (.ok (), w) =>
      let w := { w with processedEvents := w.processedEvents + 1 }
      match w.state.putEvent strict e with
      | (r, state) => (r, { w with state })

/-- The record of a step of `ProcessEvent`. -/
def Item.note (item : Item) (stored : Bool) : ProcessPc → Item
  | .store .main _ => { item with stored }
  | .store (.completion _) _ => { item with completed := stored }
  | _ => item

/-- One step of the loop. -/
def loopStep (env : Worker.HandleEnv) (m : Memory) : LoopPc → Option (Memory × LoopPc)
  | .test j =>
    if j < maxDrainEvents && !m.worker.ringBuffer.isEmpty then some (m, .pop j)
    else some (m, .left)
  | .pop j =>
    match m.worker.ringBuffer.pop strict with
    | (.error (.panic _), _) => none
    | (.error (.error _), ringBuffer) =>
      some ({ m with worker := { m.worker with ringBuffer } }, .left)
    | (.ok e, ringBuffer) =>
      some ({ m with worker := { m.worker with ringBuffer } },
        .process j { event := e } (.stats .main e))
  | .process j item (.ended result) =>
    match finishEvent strict env.duration m.worker item.event result with
    | (.error _, _) => none
    | (.ok (), worker) => some ({ m with worker, handled := m.handled ++ [item] }, .test (j + 1))
  | .process j item pc =>
    let (pc', state) := processStep c strict env m.worker.state pc
    some ({ m with worker := { m.worker with state } },
      .process j (item.note (stores strict env m.worker.state pc) pc) pc')
  | .left => none

/-- The check of the capacity, before either loop. -/
def checkCapacity (w : Worker) : Except Fault Unit :=
  check strict (w.ringBuffer.cap ≤ maxDrainEvents)
    (lit "ring buffer cap exceeds max: " ++ natText w.ringBuffer.cap)

/-! ## processEvents -/

/-- What `processEvents` does next. -/
inductive ConsumerPc where
  /-- The bound and the receive on `signalChan`, with `i` batches done. -/
  | waiting (i : Nat)
  | capacity (i : Nat)
  | draining (i : Nat) (pc : LoopPc)
  | stopped

/-- One step of `processEvents`. A receive on a closed channel still gives the token that is in it.
-/
def consumerStep (env : Worker.HandleEnv) (m : Memory) : ConsumerPc → Option (Memory × ConsumerPc)
  | .waiting i =>
    if i < maxSignalBatches then
      if m.worker.signal then
        some ({ m with worker := { m.worker with signal := false } }, .capacity i)
      else if m.worker.signalClosed then some (m, .stopped)
      else none
    else if strict then none
    else some (m, .stopped)
  | .capacity i =>
    match checkCapacity strict m.worker with
    | .error (.panic _) => none
    | .error (.error _) =>
      some ({ m with worker := { m.worker with isUnhealthy := true } }, .stopped)
    | .ok () => some (m, .draining i (.test 0))
  | .draining i pc =>
    match loopStep c strict env m pc with
    | none => none
    | some (m, .left) => some (m, .waiting (i + 1))
    | some (m, pc) => some (m, .draining i pc)
  | .stopped => none

/-! ## anchorLoop -/

/-- What `anchorLoop` does next. -/
inductive AnchorPc where
  /-- The bound and the `select`, with `i` ticks done. -/
  | running (i : Nat)
  | stopped
  deriving DecidableEq

/-! ## Shutdown -/

/-- What `Shutdown` does next. -/
inductive ShutdownPc where
  /-- It was not called. -/
  | idle
  /-- `close(quitChan)`; `closing` is set. -/
  | closeQuit
  /-- `close(signalChan)`. -/
  | closeSignal
  /-- `waitForStop`. -/
  | wait
  | capacity
  /-- `drainBuffer`. -/
  | draining (pc : LoopPc)
  | returned

/-- One step of `Shutdown`. `waitForStop` returns when both loops have stopped, or when the time
is up. -/
def shutdownStep (env : Worker.HandleEnv) (goOn : Bool) (m : Memory) :
    ShutdownPc → Option (Memory × ShutdownPc)
  | .idle => some ({ m with worker := { m.worker with closing := true } }, .closeQuit)
  | .closeQuit => some ({ m with quitClosed := true }, .closeSignal)
  | .closeSignal => some ({ m with worker := { m.worker with signalClosed := true } }, .wait)
  | .wait => if goOn then some (m, .capacity) else none
  | .capacity =>
    match checkCapacity strict m.worker with
    | .error (.panic _) => none
    | .error (.error _) =>
      some ({ m with worker := { m.worker with isUnhealthy := true } }, .returned)
    | .ok () => some (m, .draining (.test 0))
  | .draining pc =>
    match loopStep c strict env m pc with
    | none => none
    | some (m, .left) => some (m, .returned)
    | some (m, pc) => some (m, .draining pc)
  | .returned => none

/-! ## The system -/

/-- The goroutines. Every call of `Submit` so far is in the list, also those that have ended. -/
structure Pipeline where
  memory : Memory
  submits : List Submitting := []
  consumer : ConsumerPc := .waiting 0
  anchor : AnchorPc := .running 0
  shutdown : ShutdownPc := .idle

inductive Pipeline.Action where
  /-- Somebody calls `Submit`. -/
  | submit (e : Event)
  /-- The `i`-th call of `Submit` goes on. -/
  | next (i : Nat)
  /-- `processEvents` goes on. -/
  | consume (env : Worker.HandleEnv)
  /-- The ticker of `anchorLoop` fires, and the anchor is fetched or not. -/
  | tick (event : Option Event)
  /-- `anchorLoop` receives from `quitChan`. -/
  | quit
  /-- `Shutdown` is called or goes on. If it is waiting, its time may be up. -/
  | shutdown (env : Worker.HandleEnv) (timedOut : Bool)

namespace Pipeline

/-- `anchorLoop` is inside of `Submit`. -/
def anchorBusy (p : Pipeline) : Bool := p.submits.any fun s => s.anchor && s.pc.inProgress

/-- `anchorLoop` has panicked. -/
def crashed (p : Pipeline) : Bool := p.submits.any fun s => s.anchor && s.pc = .panicked

/-- Both loops have stopped. -/
def stopped (p : Pipeline) : Bool :=
  match p.consumer, p.anchor with
  | .stopped, .stopped => true
  | _, _ => false

/-- One step of `anchorLoop`. -/
def anchorStep (p : Pipeline) (event : Option Event) : Option Pipeline :=
  match p.anchor with
  | .running i =>
    if i < maxAnchorTicks && !p.anchorBusy then
      some { p with
        anchor := .running (i + 1)
        submits := p.submits ++ (event.map fun event => { event, anchor := true }).toList }
    else none
  | .stopped => none

/-- The end of `anchorLoop`: a receive from `quitChan`, or too many ticks. -/
def anchorQuit (p : Pipeline) : Option Pipeline :=
  match p.anchor with
  | .running i =>
    if p.anchorBusy then none
    else if i < maxAnchorTicks then
      if p.memory.quitClosed then some { p with anchor := .stopped } else none
    else if strict then none
    else some { p with anchor := .stopped }
  | .stopped => none

/-- **One step of the system**, if the action is possible. -/
def step (p : Pipeline) (a : Action) : Option Pipeline :=
  if p.crashed then none
  else
    match a with
    | .submit event => some { p with submits := p.submits ++ [{ event }] }
    | .next i =>
      match p.submits[i]? with
      | none => none
      | some s =>
        match submitStep strict p.memory s.event s.pc with
        | none => none
        | some (memory, pc) =>
          some { p with memory, submits := p.submits.set i { s with pc } }
    | .consume env =>
      match consumerStep c strict env p.memory p.consumer with
      | none => none
      | some (memory, consumer) => some { p with memory, consumer }
    | .tick event => p.anchorStep event
    | .quit => p.anchorQuit strict
    | .shutdown env timedOut =>
      match shutdownStep c strict env (timedOut || p.stopped) p.memory p.shutdown with
      | none => none
      | some (memory, shutdown) => some { p with memory, shutdown }

end Pipeline

/-- A worker that was just started, on the state that `Start` has left. -/
def Pipeline.initial (ringBuffer : Buffer Event) (state : State)
    (backpressureMode : BackpressureMode) : Pipeline :=
  { memory := { worker := { ringBuffer, state, backpressureMode } } }

/-- A buffer with one slot. -/
def smallBuffer : Buffer Event := ⟨[{}], 1, 0, 0, 0⟩

/-- A pipeline with that buffer. -/
def smallPipeline : Pipeline :=
  .initial smallBuffer (initialState recordedSigner []) .drop

/-- A buffer with two slots. -/
def pairBuffer : Buffer Event := ⟨[{}, {}], 2, 0, 0, 0⟩

/-- A pipeline with an empty buffer, on the state that a start of the recorded run has left. -/
def recordedPipeline (ringBuffer : Buffer Event) (state : State) : Pipeline :=
  .initial ringBuffer (newEventProcessor state (lit "run-1")) .drop

/-- The action belongs to `Shutdown`. -/
def Pipeline.Action.isShutdown : Pipeline.Action → Bool
  | shutdown _ _ => true
  | _ => false

end Logryph
