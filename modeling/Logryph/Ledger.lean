import Logryph.Pool
import Logryph.Store

/-!
# The event processor

`ledger.EventProcessor` numbers an event, links it to the last one, hashes and signs it, and
stores it. A tool event that ends a task makes it store a second event, before `ProcessEvent`
returns. `CreateGenesisBlock` starts a run.

State is passed explicitly. What comes from outside (random ids, the clock, which pooled event is
handed out, failures of the database) is an input of the call. A call that ends with a fault
still leaves a state.
-/

namespace Logryph

open Infra

/-- What the processor works on. `signed` is a record of the events given to `SignHash`, which
the program itself does not keep. -/
structure State where
  db : DB
  signer : Signer
  runID : Bytes
  taskStates : SortedMap Bytes Bytes
  pool : List Event
  signed : List Event

/-- Failures of the repository during one `persistEvent`. -/
structure RepoFaults where
  runStats : Option Fault := none
  lastEvent : Option Fault := none
  storeEvent : Option Fault := none

variable (c : Crypto) (strict : Bool)

/-! ## persistEvent -/

/-- The error of `GetRunStats` as the processor reports it. -/
def statsFault : Fault → Fault
  | .panic msg => .panic msg
  | .error msg =>
    (assertionFailed strict (lit "failed to get run stats: " ++ msg)).wrap (lit "getting run stats")

/-- `assignSequenceAndPrevHash`. -/
def assignSequenceAndPrevHash (faults : RepoFaults) (s : State) (e : Event) :
    Except Fault Event := do
  let stats ← (getRunStats strict faults.runStats s.db s.runID).mapError (statsFault strict)
  let e := { e with seqIndex := stats.totalEvents, runID := s.runID }
  let (lastIndex, lastHash) ←
    inContext (lit "getting last event") (getLastEvent strict faults.lastEvent s.db s.runID)
  if e.seqIndex = 0 then
    check strict (lastHash = []) (lit "expected empty last hash for seq 0")
    .ok { e with prevHash := zeroHash }
  else
    check strict (lastHash ≠ []) (lit "prev_hash must be non-empty: seq=" ++ natText e.seqIndex)
    check strict (e.seqIndex = lastIndex + 1) (lit "sequence gap detected: prev=" ++
      natText lastIndex ++ lit ", curr=" ++ natText e.seqIndex)
    .ok { e with prevHash := lastHash }

/-- The event with its hash, and the signature of that. -/
def Event.signedWith (e : Event) (signer : Signer) (currentHash : Bytes) : Event :=
  { e with currentHash, signature := signer.signHash c currentHash }

/-- `hashAndSignEvent`. -/
def hashAndSignEvent (signer : Signer) (e : Event) : Except Fault Event := do
  check strict (e.prevHash ≠ []) (lit "prev_hash must be set")
  let currentHash ← inContext (lit "calculating hash")
    (calculateEventHash c strict e.prevHash e.payload)
  .ok (e.signedWith c signer currentHash)

/-- `persistEvent`. -/
def persistEvent (faults : RepoFaults) (s : State) (e : Event) : Except Fault Event × State :=
  match assignSequenceAndPrevHash strict faults s e with
  | .error f => (.error f, s)
  | .ok e =>
    match hashAndSignEvent c strict s.signer e with
    | .error f => (.error f, s)
    | .ok e =>
      let s := { s with signed := s.signed ++ [e] }
      match storeEvent strict faults.storeEvent s.db e with
      | (.error f, db) => (.error f, { s with db })
      | (.ok (), db) => (.ok e, { s with db })

/-! ## ProcessEvent -/

def isTerminalState (state : Bytes) : Bool :=
  state = lit "completed" || state = lit "failed" || state = lit "cancelled"

/-- The inputs of a `createTaskCompletionEvent`. -/
structure CompletionEnv where
  pick : Option Nat := none
  id : Bytes
  now : Time
  faults : RepoFaults := {}

/-- The fields that a completion event is given. -/
def completionEvent (env : CompletionEnv) (taskID state : Bytes) (e : Event) : Event :=
  { e with
    id := env.id
    timestamp := env.now
    eventType := lit "task_terminal"
    method := lit "logryph:task_state"
    params := some (((e.params.getD SortedMap.empty).insert (lit "task_id") (.string taskID)).insert
      (lit "state") (.string state))
    taskID
    taskState := state }

/-- `pool.PutEvent` in the state. -/
def State.putEvent (s : State) (e : Event) : Except Fault Unit × State :=
  let (r, pool) := Logryph.putEvent strict s.pool e
  (r, { s with pool })

/-- A failed check in a function that returns nothing. -/
def quietCheck (condition : Bool) (msg : Bytes) : Except Fault Bool :=
  if condition then .ok true
  else if strict then .error (assertionFailed strict msg)
  else .ok false

@[simp] theorem quietCheck_true (msg : Bytes) : quietCheck strict true msg = .ok true := rfl

/-- `createTaskCompletionEvent`. It returns nothing, so only a panic reaches the caller. -/
def createTaskCompletionEvent (env : CompletionEnv) (taskID state : Bytes) (s : State) :
    Except Fault Unit × State :=
  match quietCheck strict (taskID ≠ []) (lit "taskID must not be empty") with
  | .error f => (.error f, s)
  | .ok false => (.ok (), s)
  | .ok true =>
    match quietCheck strict (state ≠ []) (lit "state must not be empty") with
    | .error f => (.error f, s)
    | .ok false => (.ok (), s)
    | .ok true =>
      let (e, pool) := getEvent env.pick s.pool
      let e := completionEvent env taskID state e
      match persistEvent c strict env.faults { s with pool } e with
      | (.ok e, s) => s.putEvent strict e
      | (.error (.panic msg), s) => (.error (.panic msg), s)
      | (.error (.error msg), s) =>
        if strict then
          (.error (assertionFailed strict (lit "persist task completion event failed: " ++ msg)), s)
        else s.putEvent strict e

/-- `trackTaskState`. -/
def trackTaskState (env : CompletionEnv) (s : State) (e : Event) : Except Fault Unit × State :=
  match quietCheck strict (e.taskID ≠ []) (lit "taskID must not be empty") with
  | .error f => (.error f, s)
  | .ok false => (.ok (), s)
  | .ok true =>
    let oldState := s.taskStates.get? e.taskID
    let completed : Except Fault Unit × State :=
      if oldState.isSome && oldState ≠ some e.taskState && isTerminalState e.taskState then
        match createTaskCompletionEvent c strict env e.taskID e.taskState s with
        | (.error f, s) => (.error f, s)
        | (.ok (), s) => (.ok (), { s with taskStates := s.taskStates.erase e.taskID })
      else (.ok (), s)
    match completed with
    | (.error f, s) => (.error f, s)
    | (.ok (), s) =>
      if isTerminalState e.taskState then (.ok (), s)
      else (.ok (), { s with taskStates := s.taskStates.insert e.taskID e.taskState })

/-- The inputs of one `ProcessEvent`: the event pointer, and what comes from outside. -/
structure Call where
  event : Option Event
  faults : RepoFaults := {}
  completion : CompletionEnv

/-- `ProcessEvent`. -/
def processEvent (s : State) (call : Call) : Except Fault Unit × State :=
  match call.event with
  | none => (.error (assertionFailed strict (lit "event must not be nil")), s)
  | some e =>
    match persistEvent c strict call.faults s e with
    | (.error f, s) => (.error f, s)
    | (.ok e, s) =>
      if (e.eventType = lit "tool_call" || e.eventType = lit "tool_response") && e.taskID ≠ [] then
        trackTaskState c strict call.completion s e
      else (.ok (), s)

/-- A sequence of calls. Each starts from the state that the one before left, however it ended. -/
def processAll (s : State) (calls : List Call) : State :=
  calls.foldl (fun s call => (processEvent c strict s call).2) s

/-! ## Genesis -/

/-- `audit.Anchor`. -/
structure Anchor where
  source : Bytes
  blockHeight : Nat
  blockHash : Bytes
  timestamp : Time

/-- The inputs of `CreateGenesisBlock`. Without an anchor the fetch has failed. -/
structure GenesisEnv where
  pick : Option Nat := none
  runID : Bytes
  id : Bytes
  now : Time
  anchor : Option Anchor := none
  insertRun : Option Fault := none
  storeEvent : Option Fault := none

/-- The parameters of the genesis event. -/
def genesisParams (env : GenesisEnv) (signer : Signer) (agentName : Bytes)
    (m : SortedMap Bytes Value) : SortedMap Bytes Value :=
  let m := ((m.insert (lit "public_key") (.string signer.getPublicKey)).insert
    (lit "agent_name") (.string agentName)).insert (lit "version") (.string (lit "1.0.0"))
  match env.anchor with
  | none => m
  | some a =>
    (((m.insert (lit "anchor_source") (.string a.source)).insert
      (lit "anchor_height") (.uint64 a.blockHeight)).insert
      (lit "anchor_hash") (.string a.blockHash)).insert (lit "anchor_time") (.time a.timestamp)

def genesisEvent (env : GenesisEnv) (signer : Signer) (agentName : Bytes) (e : Event)
    (m : SortedMap Bytes Value) : Event :=
  { e with
    id := env.id
    runID := env.runID
    seqIndex := 0
    timestamp := env.now
    actor := lit "system"
    eventType := lit "genesis"
    method := lit "logryph:init"
    params := some (genesisParams env signer agentName m)
    prevHash := zeroHash
    wasBlocked := false }

/-- The part of `CreateGenesisBlock` after the event was filled in. -/
def insertGenesis (env : GenesisEnv) (agentName : Bytes) (s : State) (e : Event) :
    Except Fault Bytes × State :=
  match inContext (lit "calculating genesis hash")
      (calculateEventHash c strict e.prevHash e.payload) with
  | .error f => (.error f, s)
  | .ok currentHash =>
    let e := e.signedWith c s.signer currentHash
    let s := { s with signed := s.signed ++ [e] }
    match insertRun strict env.insertRun s.db env.runID agentName currentHash
        s.signer.getPublicKey with
    | (.error f, db) => (.error (f.wrap (lit "inserting run")), { s with db })
    | (.ok (), db) =>
      let s := { s with db }
      match storeEvent strict env.storeEvent s.db e with
      | (.error f, db) => (.error (f.wrap (lit "inserting genesis event")), { s with db })
      | (.ok (), db) => (.ok env.runID, { s with db })

/-- `CreateGenesisBlock` without its deferred call, and the event that it used. -/
def fillGenesis (env : GenesisEnv) (agentName : Bytes) (s : State) (e : Event) :
    Event × Except Fault Bytes × State :=
  match e.params with
  | none => (e, .error (.panic (lit "assignment to entry in nil map")), s)
  | some m =>
    let e := genesisEvent env s.signer agentName e m
    (e, insertGenesis c strict env agentName s e)

/-- `CreateGenesisBlock`. The deferred `PutEvent` runs on every way out. -/
def createGenesisBlock (env : GenesisEnv) (s : State) (agentName : Bytes) :
    Except Fault Bytes × State :=
  let (e, pool) := getEvent env.pick s.pool
  let (e, r, s) := fillGenesis c strict env agentName { s with pool } e
  match s.putEvent strict e with
  | (.error f, s) => (.error f, s)
  | (.ok (), s) => (r, s)

/-- `NewEventProcessor`. -/
def newEventProcessor (s : State) (runID : Bytes) : State :=
  { s with runID, taskStates := SortedMap.empty }

/-- An empty store, before the first call. -/
def initialState (signer : Signer) (pool : List Event) : State :=
  { db := DB.empty, signer, runID := [], taskStates := SortedMap.empty, pool, signed := [] }

/-! ## A recorded run

The texts, hashes and signatures of a short run: the genesis event, a call that starts a task, the
same call again (its id is taken, so it is signed but not stored), and the response that completes
the task. -/

def recordedKey : Bytes :=
  hexText "9d61b19deffd5a60ba844af492ec2cc44449c5697b326919703bac031cae7f60" ++
    hexText "d75a980182b10ab7d54bfed3c964073a0ee172f3daa62325af021a68f707511a"

def recordedSigner : Signer := ⟨recordedKey, recordedKey.drop 32⟩

def rotatedKey : Bytes :=
  hexText "4ccd089b28ff96da9db6c346ec114e0f5b8a319f35aba624da8cf6ed4fb8a6fb" ++
    hexText "3d4017c3e843895a92b70aa74d1b7ebc9c982ccf2ec4968cc0cd55f12af4660c"

def rotatedSigner : Signer := ⟨rotatedKey, rotatedKey.drop 32⟩

/-- What SHA-256 gives for the texts that the run hashes, and for the first one with a response. -/
def recordedHashes : List (Bytes × Bytes) := [
  (lits [
    "0000000000000000000000000000000000000000000000000000000000000000\x7b\"actor\":\"system\",",
    "\"event_type\":\"genesis\",\"id\":\"evt-0\",\"method\":\"logryph:init\",",
    "\"params\":\x7b\"agent_name\":\"agent\",",
    "\"public_key\":\"d75a980182b10ab7d54bfed3c964073a0ee172f3daa62325af021a68f707511a\",",
    "\"version\":\"1.0.0\"\x7d,\"parent_id\":\"\",\"policy_id\":\"\",\"response\":null,",
    "\"risk_level\":\"\",\"run_id\":\"run-1\",\"seq_index\":0,\"task_id\":\"\",",
    "\"task_state\":\"\",\"timestamp\":\"2026-01-15T09:30:00Z\"\x7d"],
    hexText "a2b888155809cf5b89ce1f2a451e1274ddcc36001c398633e29fd9c1253c4fd3"),
  (lits [
    "a2b888155809cf5b89ce1f2a451e1274ddcc36001c398633e29fd9c1253c4fd3\x7b\"actor\":\"agent\",",
    "\"event_type\":\"tool_call\",\"id\":\"evt-1\",\"method\":\"tools/call\",",
    "\"params\":\x7b\"path\":\"/tmp/a\"\x7d,\"parent_id\":\"\",\"policy_id\":\"\",",
    "\"response\":null,\"risk_level\":\"low\",\"run_id\":\"run-1\",\"seq_index\":1,",
    "\"task_id\":\"task-1\",\"task_state\":\"working\",",
    "\"timestamp\":\"2026-01-15T09:30:01.5Z\"\x7d"],
    hexText "5ef09a6feaeaee998dfb33aee9c9b30f616497523f24f2d4e6580be562b53140"),
  (lits [
    "5ef09a6feaeaee998dfb33aee9c9b30f616497523f24f2d4e6580be562b53140\x7b\"actor\":\"agent\",",
    "\"event_type\":\"tool_call\",\"id\":\"evt-1\",\"method\":\"tools/call\",",
    "\"params\":\x7b\"path\":\"/tmp/a\"\x7d,\"parent_id\":\"\",\"policy_id\":\"\",",
    "\"response\":null,\"risk_level\":\"low\",\"run_id\":\"run-1\",\"seq_index\":2,",
    "\"task_id\":\"task-1\",\"task_state\":\"working\",",
    "\"timestamp\":\"2026-01-15T09:30:01.5Z\"\x7d"],
    hexText "5080dae7a1c8c35e63ba7cbbe685b9faaf64c03cef71a54df2c7e5ac2bd4610f"),
  (lits [
    "5ef09a6feaeaee998dfb33aee9c9b30f616497523f24f2d4e6580be562b53140\x7b\"actor\":\"agent\",",
    "\"event_type\":\"tool_response\",\"id\":\"evt-2\",\"method\":\"\",\"params\":\x7b\x7d,",
    "\"parent_id\":\"evt-1\",\"policy_id\":\"\",\"response\":\x7b\"ok\":true\x7d,",
    "\"risk_level\":\"\",\"run_id\":\"run-1\",\"seq_index\":2,\"task_id\":\"task-1\",",
    "\"task_state\":\"completed\",\"timestamp\":\"2026-01-15T09:30:02Z\"\x7d"],
    hexText "cf4e8acde014cc2ddfc93877f205268e7602ef531f4b841e5b0b1795580260c2"),
  (lits [
    "cf4e8acde014cc2ddfc93877f205268e7602ef531f4b841e5b0b1795580260c2\x7b\"actor\":\"\",",
    "\"event_type\":\"task_terminal\",\"id\":\"evt-3\",\"method\":\"logryph:task_state\",",
    "\"params\":\x7b\"state\":\"completed\",\"task_id\":\"task-1\"\x7d,\"parent_id\":\"\",",
    "\"policy_id\":\"\",\"response\":null,\"risk_level\":\"\",\"run_id\":\"run-1\",",
    "\"seq_index\":3,\"task_id\":\"task-1\",\"task_state\":\"completed\",",
    "\"timestamp\":\"2026-01-15T09:30:03Z\"\x7d"],
    hexText "0ca83f421c5c221eed170e45f45f73c8a907602420a3e93758fe06ef5f9165de"),
  (lits [
    "0000000000000000000000000000000000000000000000000000000000000000\x7b\"actor\":\"system\",",
    "\"event_type\":\"genesis\",\"id\":\"evt-0\",\"method\":\"logryph:init\",",
    "\"params\":\x7b\"agent_name\":\"agent\",",
    "\"public_key\":\"d75a980182b10ab7d54bfed3c964073a0ee172f3daa62325af021a68f707511a\",",
    "\"version\":\"1.0.0\"\x7d,\"parent_id\":\"\",\"policy_id\":\"\",",
    "\"response\":\x7b\"ok\":true\x7d,\"risk_level\":\"\",\"run_id\":\"run-1\",\"seq_index\":0,",
    "\"task_id\":\"\",\"task_state\":\"\",\"timestamp\":\"2026-01-15T09:30:00Z\"\x7d"],
    hexText "ea3545c1ecf36a68609d525e788d541d61aa17709d622fb66e6f0b9ce4ab140b")]

/-- What Ed25519 gives for the hashes. -/
def recordedSignatures : List ((Bytes × Bytes) × Bytes) := [
  ((recordedKey, lit "a2b888155809cf5b89ce1f2a451e1274ddcc36001c398633e29fd9c1253c4fd3"),
    hexText "d0e4f5d6bbbc7fc4cc3fbf0762308ff73cc4d798ff24cb1600677d070a458240" ++
      hexText "eb6ff8b600d48103336d946aa4727bd509417cd68664c917042a814f9986b905"),
  ((recordedKey, lit "5ef09a6feaeaee998dfb33aee9c9b30f616497523f24f2d4e6580be562b53140"),
    hexText "785356f67642f57b70b3e05916562847e7713bfe38379449e994b94bbb14403d" ++
      hexText "16f2259838a36bd01836a51994ac5e9c5e0e91cb036bd612275488e74e899b05"),
  ((recordedKey, lit "5080dae7a1c8c35e63ba7cbbe685b9faaf64c03cef71a54df2c7e5ac2bd4610f"),
    hexText "3e95dec6b92896a596eece379bb0c1de8bb0a8583648ab93ce45aff00ad5f50e" ++
      hexText "215ee1c3bd1e6e8bd1e00b30a5ba43111d6525d34173251dac65bb0391ab9f0f"),
  ((recordedKey, lit "cf4e8acde014cc2ddfc93877f205268e7602ef531f4b841e5b0b1795580260c2"),
    hexText "a9056cdc78db0ac92948e028cd3847ef21d6ff03c805f1e6b2451945a877fb3f" ++
      hexText "3fea010fe7c5d56a88d3a9a448fbc2b08413bb558e54d38801d0d0df3ee3b90b"),
  ((recordedKey, lit "0ca83f421c5c221eed170e45f45f73c8a907602420a3e93758fe06ef5f9165de"),
    hexText "1625a14f4a8488142410d4b0b4ba75b766e928d6b3e2a432dd90278c42ada3e9" ++
      hexText "b4b12146c35c2785aaecba1d39d8f11dc73efafd3eea7844f35684550b80650c"),
  ((rotatedKey, lit "5ef09a6feaeaee998dfb33aee9c9b30f616497523f24f2d4e6580be562b53140"),
    hexText "df5526000164308e570d93b4abd9ed2d052a9aa631ca0ab0a0ad6d38994cad37" ++
      hexText "2992e863896faef20bfb25154ab092d40aae17bbdbd3f96d75609568b3bce807")]

/-- The primitives, as far as the run uses them. -/
def recordedCrypto : Crypto :=
  .ofTables recordedHashes recordedSignatures
    [(recordedSigner.publicKey, recordedKey), (rotatedSigner.publicKey, rotatedKey)]

def recordedEnv : GenesisEnv where
  runID := lit "run-1"
  id := lit "evt-0"
  now := ⟨2026, 1, 15, 9, 30, 0, 0, 0, by decide⟩

def recordedCall : Event where
  id := lit "evt-1"
  timestamp := ⟨2026, 1, 15, 9, 30, 1, 500000000, 0, by decide⟩
  actor := lit "agent"
  eventType := lit "tool_call"
  method := lit "tools/call"
  params := some (SortedMap.ofList [(lit "path", .string (lit "/tmp/a"))])
  taskID := lit "task-1"
  taskState := lit "working"
  riskLevel := lit "low"

def recordedResponse : Event where
  id := lit "evt-2"
  timestamp := ⟨2026, 1, 15, 9, 30, 2, 0, 0, by decide⟩
  actor := lit "agent"
  eventType := lit "tool_response"
  params := some SortedMap.empty
  response := some (SortedMap.ofList [(lit "ok", .bool true)])
  taskID := lit "task-1"
  taskState := lit "completed"
  parentID := lit "evt-1"

def recordedCalls : List Call :=
  let completion : CompletionEnv :=
    { id := lit "evt-3", now := ⟨2026, 1, 15, 9, 30, 3, 0, 0, by decide⟩ }
  [{ event := some recordedCall, completion }, { event := some recordedCall, completion },
    { event := some recordedResponse, completion }]

/-- The state after `CreateGenesisBlock`. -/
def recordedGenesis : State :=
  (createGenesisBlock recordedCrypto true recordedEnv (initialState recordedSigner [])
    (lit "agent")).2

theorem createGenesisBlock_recorded_fst : (createGenesisBlock recordedCrypto true recordedEnv
    (initialState recordedSigner []) (lit "agent")).1 = .ok (lit "run-1") := by
  decide +kernel

theorem eq_mk_snd {α β : Type} {x : α × β} {a : α} (h : x.1 = a) : x = (a, x.2) := by
  rw [← h]

theorem createGenesisBlock_recorded : createGenesisBlock recordedCrypto true recordedEnv
    (initialState recordedSigner []) (lit "agent") = (.ok (lit "run-1"), recordedGenesis) := by
  rw [recordedGenesis.eq_1]
  exact eq_mk_snd createGenesisBlock_recorded_fst

/-- The state after the first calls. -/
def recordedRun (n : Nat) : State :=
  processAll recordedCrypto true (newEventProcessor recordedGenesis (lit "run-1"))
    (recordedCalls.take n)

end Logryph
