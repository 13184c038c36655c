import Logryph.PipelineSteps

/-!
# Two loops on one chain

When `waitForStop` gives up waiting, `drainBuffer` runs beside a `processEvents` that has not
stopped. Both number and link their events by what they have read from the store, and nothing in the
store keeps two events from getting the same number.

* `LoopStep.chain` — a loop alone keeps the chain, and what it has read stays right
* `no_fork` — so do both together, if neither stores an event between the other's `GetLastEvent` and
  its `StoreEvent`
* `fork` — if one does, two rows get the same number and the same link
-/

namespace Logryph

open Infra

/-- The `ProcessEvent` that a loop is in. -/
def LoopPc.processing : LoopPc → Option ProcessPc
  | process _ _ pc => some pc
  | _ => none

def ConsumerPc.processing : ConsumerPc → Option ProcessPc
  | draining _ pc => pc.processing
  | _ => none

def ShutdownPc.processing : ShutdownPc → Option ProcessPc
  | draining pc => pc.processing
  | _ => none

/-- The event is linked, and about to be stored. -/
def ProcessPc.linked : ProcessPc → Bool
  | store _ _ => true
  | _ => false

section

variable (c : Crypto) (strict : Bool)

/-- What a step of one loop means for the other: the run is the same, and so is the store unless an
event was stored. -/
structure Memory.Leaves (m m' : Memory) (stored : Bool) : Prop where
  signer : m'.worker.state.signer = m.worker.state.signer
  runID : m'.worker.state.runID = m.worker.state.runID
  db : stored = false → m'.worker.state.db = m.worker.state.db

/-- What a loop has read stays right if the other one stores nothing, and also if it has not read
the last event yet. -/
theorem Memory.Leaves.fresh {m m' : Memory} {stored : Bool} {pc : ProcessPc}
    (h : m.Leaves m' stored) (halone : stored = false ∨ pc.linked = false)
    (hfresh : Fresh c strict m.worker.state.core pc) : Fresh c strict m'.worker.state.core pc := by
  rcases halone with hstored | hlinked
  · exact hfresh.of_signed c strict (h.db hstored) h.signer h.runID
  · cases pc with
    | last target e => exact Eq.trans hfresh h.runID.symm
    | store target e => cases hlinked
    | _ => trivial

variable {c strict} {env : Worker.HandleEnv} {m m' : Memory} {q q' : List Event}
  {signer : Signer} {runID : Bytes}

/-- **A loop keeps the chain**, as long as what it has read is right. -/
theorem LoopStep.chain {pc pc' : LoopPc} (h : LoopStep c strict env m q pc m' pc' q')
    (hinv : RunInv c strict signer runID m.worker.state.core)
    (hfresh : ∀ x ∈ pc.processing, Fresh c strict m.worker.state.core x) :
    RunInv c strict signer runID m'.worker.state.core ∧
      (∀ x ∈ pc'.processing, Fresh c strict m'.worker.state.core x) ∧
      m.Leaves m' (pc.processing.any (stores strict env m.worker.state)) := by
  cases h with
  | @process j item pc going =>
    have hpc : Fresh c strict m.worker.state.core pc := hfresh pc rfl
    obtain ⟨hrows, hsigner, hrun, hafter⟩ := processStep_spec c strict hinv hpc env
    refine ⟨(hrows.runInv c strict hinv hpc hsigner hrun).1, ?_, hsigner, hrun, fun hstored => ?_⟩
    · intro x hx
      cases hx
      exact hafter
    · cases hrows with
      | unchanged stored db => exact db
      | stored store stored encoded added => cases hstored.symm.trans stored
  | take first =>
    refine ⟨hinv, fun x hx => ?_, rfl, rfl, fun _ => rfl⟩
    cases hx
    trivial
  | _ => exact ⟨hinv, fun x hx => (by cases hx), rfl, rfl, fun _ => rfl⟩

theorem ConsumerStep.chain {pc pc' : ConsumerPc} (h : ConsumerStep c strict env m q pc m' pc' q')
    (hinv : RunInv c strict signer runID m.worker.state.core)
    (hfresh : ∀ x ∈ pc.processing, Fresh c strict m.worker.state.core x) :
    RunInv c strict signer runID m'.worker.state.core ∧
      (∀ x ∈ pc'.processing, Fresh c strict m'.worker.state.core x) ∧
      m.Leaves m' (pc.processing.any (stores strict env m.worker.state)) := by
  cases h with
  | loop step going => exact step.chain hinv hfresh
  | leave step => exact step.chain hinv hfresh
  | _ => exact ⟨hinv, fun x hx => (by cases hx), rfl, rfl, fun _ => rfl⟩

theorem ShutdownStep.chain {goOn : Bool} {pc pc' : ShutdownPc}
    (h : ShutdownStep c strict env goOn m q pc m' pc' q')
    (hinv : RunInv c strict signer runID m.worker.state.core)
    (hfresh : ∀ x ∈ pc.processing, Fresh c strict m.worker.state.core x) :
    RunInv c strict signer runID m'.worker.state.core ∧
      (∀ x ∈ pc'.processing, Fresh c strict m'.worker.state.core x) ∧
      m.Leaves m' (pc.processing.any (stores strict env m.worker.state)) := by
  cases h with
  | loop step going => exact step.chain hinv hfresh
  | leave step => exact step.chain hinv hfresh
  | _ => exact ⟨hinv, fun x hx => (by cases hx), rfl, rfl, fun _ => rfl⟩

/-- `Submit` has nothing to do with the ledger. -/
theorem SubmitStep.state {e : Event} {pc pc' : SubmitPc} (h : SubmitStep m e q pc m' pc' q') :
    m'.worker.state = m.worker.state := by
  cases h <;> rfl

end

namespace Pipeline

variable (c : Crypto) (strict : Bool)

/-- No loop stores an event while the other one is about to. -/
def storesAlone (p : Pipeline) : Action → Bool
  | .consume env => !(p.consumer.processing.any (stores strict env p.memory.worker.state) &&
      p.shutdown.processing.any ProcessPc.linked)
  | .shutdown env _ => !(p.shutdown.processing.any (stores strict env p.memory.worker.state) &&
      p.consumer.processing.any ProcessPc.linked)
  | _ => true

/-- The rows are a chain, and what the loops have read is right. -/
structure Linked (signer : Signer) (runID : Bytes) (p : Pipeline) (q : List Event) : Prop where
  holds : p.memory.worker.ringBuffer.Holds q
  chain : RunInv c strict signer runID p.memory.worker.state.core
  consumer : ∀ x ∈ p.consumer.processing, Fresh c strict p.memory.worker.state.core x
  shutdown : ∀ x ∈ p.shutdown.processing, Fresh c strict p.memory.worker.state.core x

variable {signer : Signer} {runID : Bytes}

/-- **The step lemma.** -/
theorem Linked.step {p p' : Pipeline} {a : Action} {q q' : List Event}
    (h : p.Linked c strict signer runID q) (hok : p.storesAlone strict a = true)
    (hstep : Step c strict p q a p' q') (hholds : p'.memory.worker.ringBuffer.Holds q') :
    p'.Linked c strict signer runID q' := by
  -- what the other loop has read is still right
  have hother : ∀ {memory : Memory} {stored : Bool} {other : Option ProcessPc},
      p.memory.Leaves memory stored → (!(stored && other.any ProcessPc.linked)) = true →
      (∀ x ∈ other, Fresh c strict p.memory.worker.state.core x) →
      ∀ x ∈ other, Fresh c strict memory.worker.state.core x := by
    intro memory stored other hleaves halone hfresh x hx
    cases hx
    rw [Option.any_some, Bool.not_eq_true', Bool.and_eq_false_iff] at halone
    exact hleaves.fresh c strict halone (hfresh x rfl)
  cases hstep with
  | submit => exact ⟨h.holds, h.chain, h.consumer, h.shutdown⟩
  | @next i event anchor pc pc' memory q' call step =>
    have hstate : memory.worker.state = p.memory.worker.state := step.state
    refine ⟨hholds, ?_, ?_, ?_⟩ <;> dsimp only <;> rw [hstate]
    exacts [h.chain, h.consumer, h.shutdown]
  | consume before step =>
    subst before
    obtain ⟨hchain, hconsumer, hleaves⟩ := step.chain h.chain h.consumer
    exact ⟨hholds, hchain, hconsumer, hother hleaves hok h.shutdown⟩
  | tick running free => exact ⟨h.holds, h.chain, h.consumer, h.shutdown⟩
  | quit free => exact ⟨h.holds, h.chain, h.consumer, h.shutdown⟩
  | shutdown before step =>
    subst before
    obtain ⟨hchain, hshutdown, hleaves⟩ := step.chain h.chain h.shutdown
    exact ⟨hholds, hchain, hother hleaves hok h.consumer, hshutdown⟩

/-- The invariant holds when the worker was just started. -/
theorem linked_initial {env : GenesisEnv} {pool : List Event} {agentName : Bytes} {s : State}
    (hgen : createGenesisBlock c strict env (initialState signer pool) agentName = (.ok runID, s))
    {zero : Event} {capacity : Int} {ringBuffer : Buffer Event}
    (hnew : Buffer.new strict zero capacity = .ok ringBuffer) (mode : BackpressureMode) :
    (initial ringBuffer (newEventProcessor s runID) mode).Linked c strict signer runID [] :=
  ⟨(Buffer.holds_new hnew).1, runInv_of_genesis c strict hgen, fun x hx => (by cases hx),
    fun x hx => (by cases hx)⟩

/-- The rows of the run, in the order of their numbers. -/
def rows (p : Pipeline) (runID : Bytes) : List EventRow :=
  p.memory.worker.state.db.orderedRows runID

/-- **No fork**, in any interleaving in which no loop stores an event between the `GetLastEvent` and
the `StoreEvent` of the other: the rows of the run are numbered without a gap, and each is linked to
the one before. -/
theorem no_fork {env : GenesisEnv} {pool : List Event} {agentName : Bytes} {s : State}
    (hgen : createGenesisBlock c strict env (initialState signer pool) agentName = (.ok runID, s))
    {zero : Event} {capacity : Int} {ringBuffer : Buffer Event}
    (hnew : Buffer.new strict zero capacity = .ok ringBuffer) (mode : BackpressureMode)
    {actions : List Action} {p : Pipeline}
    (hok : along (step c strict) (storesAlone strict)
      (initial ringBuffer (newEventProcessor s runID) mode) actions = true)
    (hrun : runSteps (step c strict) (initial ringBuffer (newEventProcessor s runID) mode) actions
      = some p) :
    ChainOk c strict signer (p.rows runID) := by
  obtain ⟨q, hinv⟩ := runSteps_inv (fun p => ∃ q, Linked c strict signer runID p q)
    (fun ⟨q, hq⟩ ha hstep => by
      obtain ⟨q', hcases, hholds, -⟩ := step_cases c strict hq.holds hstep
      exact ⟨q', hq.step c strict ha hcases hholds⟩)
    ⟨[], linked_initial c strict hgen hnew mode⟩ hok hrun
  have hne := hinv.chain.nonempty
  have hlog := hinv.chain.isLog
  have hsound := hinv.chain.sound
  rw [hinv.chain.rows_eq] at hne hlog hsound
  rw [rows, DB.orderedRows_of_isLog hlog]
  exact chainOk_of_isLog c strict hne hlog hsound

/-- Two events are pushed. -/
def submitPair : List Action :=
  .submit recordedCall :: List.replicate 4 (.next 0) ++
    .submit recordedResponse :: List.replicate 4 (.next 1)

/-- `waitForStop` gives up, and `drainBuffer` takes an event. -/
def timeOut : List Action :=
  List.replicate 3 (.shutdown quietEnv false) ++ List.replicate 4 (.shutdown quietEnv true)

/-- `processEvents` has stored its event when `drainBuffer` takes the other one. -/
def separateRun : List Action :=
  submitPair ++ List.replicate 7 (.consume quietEnv) ++ timeOut ++
    List.replicate 3 (.shutdown quietEnv false)

theorem no_fork_separate : ∃ p,
    runSteps (step recordedCrypto true) (recordedPipeline pairBuffer recordedGenesis) separateRun
      = some p ∧
    (p.rows (lit "run-1")).map EventRow.id = [lit "evt-0", lit "evt-1", lit "evt-2"] ∧
    ChainOk recordedCrypto true recordedSigner (p.rows (lit "run-1")) := by
  have hrows : (runAlong (step recordedCrypto true) (storesAlone true)
      (recordedPipeline pairBuffer recordedGenesis) separateRun).any
        (fun p => (p.rows (lit "run-1")).map EventRow.id
          = [lit "evt-0", lit "evt-1", lit "evt-2"]) = true := by decide +kernel
  obtain ⟨p, hok, hp, hrows⟩ := exists_of_runAlong hrows
  exact ⟨p, hp, of_decide_eq_true hrows, @no_fork recordedCrypto true recordedSigner (lit "run-1")
    recordedEnv [] (lit "agent") recordedGenesis createGenesisBlock_recorded {} 2 pairBuffer rfl
    .drop separateRun p hok hp⟩

/-- What SHA-256 gives for the recorded response, linked to the genesis event. -/
def forkHashes : List (Bytes × Bytes) := [
  (lits [
    "a2b888155809cf5b89ce1f2a451e1274ddcc36001c398633e29fd9c1253c4fd3\x7b\"actor\":\"agent\",",
    "\"event_type\":\"tool_response\",\"id\":\"evt-2\",\"method\":\"\",\"params\":\x7b\x7d,",
    "\"parent_id\":\"evt-1\",\"policy_id\":\"\",\"response\":\x7b\"ok\":true\x7d,",
    "\"risk_level\":\"\",\"run_id\":\"run-1\",\"seq_index\":1,\"task_id\":\"task-1\",",
    "\"task_state\":\"completed\",\"timestamp\":\"2026-01-15T09:30:02Z\"\x7d"],
    hexText "0e7e018e53735944c4bcaf76d8a45eb6bc2102cdc2f1a20d4aa93114e7797523")]

/-- What Ed25519 gives for that. -/
def forkSignatures : List ((Bytes × Bytes) × Bytes) := [
  ((recordedKey, lit "0e7e018e53735944c4bcaf76d8a45eb6bc2102cdc2f1a20d4aa93114e7797523"),
    hexText "0e0d116e58c0eea6aff0c3a6353e1f77ff6ac41bcbd7b942e39f3a9e2250c216" ++
      hexText "7aaf1e3348f926e9c2f83e0c0a5ea43aa413e0f7b4dfadeb51cc4b725586a00e")]

/-- The primitives, as far as the run below uses them. -/
def forkCrypto : Crypto :=
  .ofTables (recordedHashes ++ forkHashes) (recordedSignatures ++ forkSignatures)
    [(recordedSigner.publicKey, recordedKey)]

/-- The state after `CreateGenesisBlock`. -/
def forkGenesis : State :=
  (createGenesisBlock forkCrypto true recordedEnv (initialState recordedSigner [])
    (lit "agent")).2

/-- `drainBuffer` handles its event between the `GetLastEvent` and the `StoreEvent` of
`processEvents`. -/
def forkedRun : List Action :=
  submitPair ++ List.replicate 6 (.consume quietEnv) ++ timeOut ++
    List.replicate 3 (.shutdown quietEnv false) ++ [.consume quietEnv]

/-- **The chain forks**: two rows have the number 1, and both are linked to the genesis row. -/
theorem fork :
    (createGenesisBlock forkCrypto true recordedEnv (initialState recordedSigner [])
      (lit "agent")).1 = .ok (lit "run-1") ∧
    (runSteps (step forkCrypto true) (recordedPipeline pairBuffer forkGenesis) forkedRun).any
      (fun p => (p.rows (lit "run-1")).map (fun row => (row.seqIndex, row.prevHash)) =
        [(0, zeroHash),
          (1, lit "a2b888155809cf5b89ce1f2a451e1274ddcc36001c398633e29fd9c1253c4fd3"),
          (1, lit "a2b888155809cf5b89ce1f2a451e1274ddcc36001c398633e29fd9c1253c4fd3")])
      = true := by
  decide +kernel

end Pipeline

end Logryph
