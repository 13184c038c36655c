import Logryph.Ledger
import Logryph.Ring

/-!
# The worker

`ledger.Worker` takes events through a ring buffer. `Submit` puts an event in, or drops it; the
goroutine of `processEvents` takes them out, has them processed and puts them back to the pool.
`drainBuffer` does the same at shutdown.

`submit` is the call as it runs when no other goroutine does. Every other thing that a call takes
from outside (ids, the clock, failures of the database) is one of its inputs.
-/

namespace Logryph

open Infra

/-- `ledger.BackpressureMode`. -/
inductive BackpressureMode where
  | drop
  | block
  deriving DecidableEq

def maxLatencyBuckets : Nat := 7

def maxDrainEvents : Nat := 2 ^ 20

def maxBlockAttempts : Nat := 1000

/-- `latencyBucketUpperNs`. -/
def latencyBucketUpperNs : List UInt64 :=
  [1000000, 5000000, 10000000, 25000000, 50000000, 100000000, 0xFFFFFFFFFFFFFFFF]

/-- The latency counters. -/
structure Latency where
  sumNs : UInt64 := 0
  count : UInt64 := 0
  buckets : List UInt64 := List.replicate maxLatencyBuckets 0

/-- `ledger.Worker`. The state of the processor has the database, the signer and the pool in it.
`signal` says whether the channel holds a token, and `signalClosed` whether it was closed. -/
structure Worker where
  ringBuffer : Buffer Event
  state : State
  backpressureMode : BackpressureMode := .drop
  isUnhealthy : Bool := false
  processedEvents : UInt64 := 0
  droppedEvents : UInt64 := 0
  blockedSubmits : UInt64 := 0
  latency : Latency := {}
  closing : Bool := false
  signal : Bool := false
  signalClosed : Bool := false

namespace Worker

variable (c : Crypto) (strict : Bool)

/-- `IsHealthy`. -/
def isHealthy (w : Worker) : Bool := !w.isUnhealthy

/-! ## Submit -/

/-- The event is counted, and gone. -/
def dropEvent (w : Worker) : Worker := { w with droppedEvents := w.droppedEvents + 1 }

/-- The end of `Submit`: `Push`, and a send that does not wait. -/
def pushEvent (w : Worker) (e : Event) : Except Fault Unit × Worker :=
  match w.ringBuffer.push strict e with
  | (.error (.panic msg), ringBuffer) => (.error (.panic msg), { w with ringBuffer })
  | (.error (.error _), ringBuffer) => (.ok (), { w with ringBuffer })
  | (.ok (), ringBuffer) =>
    if w.signalClosed then
      (.error (.panic (lit "send on closed channel")), { w with ringBuffer })
    else (.ok (), { w with ringBuffer, signal := true })

/-- `Submit`. When the buffer is full and nobody empties it, the blocking mode gives up after
`maxBlockAttempts` waits. -/
def submit (w : Worker) (e : Event) : Except Fault Unit × Worker :=
  if w.closing then (.ok (), w.dropEvent)
  else if w.ringBuffer.isFull then
    match w.backpressureMode with
    | .drop => (.ok (), w.dropEvent)
    | .block =>
      (.ok (), { w with
        blockedSubmits := w.blockedSubmits + UInt64.ofNat maxBlockAttempts }.dropEvent)
  else w.pushEvent strict e

/-! ## processEvents -/

/-- The counters with one more in the first bucket that the duration fits in. -/
def countBucket (ns : UInt64) : List UInt64 → List UInt64 → List UInt64
  | bound :: bounds, n :: counts =>
    if ns ≤ bound then (n + 1) :: counts else n :: countBucket ns bounds counts
  | _, counts => counts

/-- `recordLatency`, for a duration in nanoseconds. -/
def recordLatency (w : Worker) (d : Int) : Except Fault Unit × Worker :=
  match quietCheck strict (0 ≤ d) (lit "latency duration must be non-negative") with
  | .error f => (.error f, w)
  | .ok false => (.ok (), w)
  | .ok true =>
    let ns := UInt64.ofNat d.toNat
    (.ok (), { w with latency := {
      sumNs := w.latency.sumNs + ns
      count := w.latency.count + 1
      buckets := countBucket ns latencyBucketUpperNs w.latency.buckets } })

/-- What the handling of one event takes from outside. -/
structure HandleEnv where
  faults : RepoFaults := {}
  completion : CompletionEnv
  duration : Int

/-- The handling of an event after `Pop`. `ProcessEvent` changes only fields that `PutEvent`
clears, so the event that goes back is the one that was taken out. -/
def handleEvent (env : HandleEnv) (w : Worker) (e : Event) : Except Fault Unit × Worker :=
  match processEvent c strict w.state ⟨some e, env.faults, env.completion⟩ with
  | (.error (.panic msg), state) => (.error (.panic msg), { w with state })
  | (r, state) =>
    let failed := match r with
      | .error _ => true
      | .ok () => false
    match recordLatency strict { w with state, isUnhealthy := w.isUnhealthy || failed }
        env.duration with
    | (.error f, w) => (.error f, w)
    | (.ok (), w) =>
      let w := { w with processedEvents := w.processedEvents + 1 }
      match w.state.putEvent strict e with
      | (r, state) => (r, { w with state })

/-- The loop that empties the buffer, for at most `n` events. The inputs of an iteration are found
by its number. -/
def drain (envs : Nat → HandleEnv) : Nat → Nat → Worker → Except Fault Unit × Worker
  | 0, _, w => (.ok (), w)
  | n + 1, j, w =>
    if w.ringBuffer.isEmpty then (.ok (), w)
    else
      match w.ringBuffer.pop strict with
      | (.error (.panic msg), ringBuffer) => (.error (.panic msg), { w with ringBuffer })
      | (.error (.error _), ringBuffer) => (.ok (), { w with ringBuffer })
      | (.ok e, ringBuffer) =>
        match handleEvent c strict (envs j) { w with ringBuffer } e with
        | (.error f, w) => (.error f, w)
        | (.ok (), w) => drain envs n (j + 1) w

/-- The part that the two loops share: the check of the capacity, and the loop. -/
def drainAll (envs : Nat → HandleEnv) (w : Worker) : Except Fault Unit × Worker :=
  match check strict (w.ringBuffer.cap ≤ maxDrainEvents)
      (lit "ring buffer cap exceeds max: " ++ natText w.ringBuffer.cap) with
  | .error (.panic msg) => (.error (.panic msg), w)
  | .error (.error msg) => (.error (.error msg), { w with isUnhealthy := true })
  | .ok () => drain c strict envs maxDrainEvents 0 w

/-- One round of `processEvents`, after a token was received. It returns nothing, so a failed check
only shows in strict mode. -/
def processBatch (envs : Nat → HandleEnv) (w : Worker) : Except Fault Unit × Worker :=
  match drainAll c strict envs { w with signal := false } with
  | (.error (.error _), w) => (.ok (), w)
  | (r, w) => (r, w)

/-- `drainBuffer`. -/
def drainBuffer (envs : Nat → HandleEnv) (w : Worker) : Except Fault Unit × Worker :=
  drainAll c strict envs w

/-- The fields that `anchorLoop` gives to an event for an anchor that it has fetched. -/
def anchorEvent (id : Bytes) (now : Time) (a : Anchor) (e : Event) : Event :=
  { e with
    id
    timestamp := now
    eventType := lit "anchor"
    method := lit "logryph:anchor"
    actor := lit "system"
    params := some (((((e.params.getD SortedMap.empty).insert
      (lit "anchor_source") (.string a.source)).insert
      (lit "anchor_height") (.uint64 a.blockHeight)).insert
      (lit "anchor_hash") (.string a.blockHash)).insert (lit "anchor_time") (.time a.timestamp)) }

end Worker

/-- A handling in which nothing fails. -/
def quietEnv : Worker.HandleEnv where
  completion := { id := lit "evt-2", now := recordedEnv.now }
  duration := 0

/-- A handling in which `StoreEvent` fails. -/
def failingEnv : Worker.HandleEnv :=
  { quietEnv with faults := { storeEvent := some (.error (lit "database is locked")) } }

end Logryph
