import Logryph.VerifyCommand

/-!
# Sessions

A recorder is started, records for a while, and ends: by `Shutdown`, by a panic, or because it is
killed at some point. It is started again later, in the same directory. What stays from one session
to the next is the key file and the database.

* `Host.step` — a directory, and the process that works in it
* `Host.Inv.step` — the run can be verified with the key of the key file, whoever goes on
* `verify_after_sessions` — `logyctl verify` says so, after any number of sessions
-/

namespace Logryph

open Infra

variable (c : Crypto) (strict : Bool)

/-! ## The recorder in its directory -/

/-- The size of the ring buffer. -/
def bufferSize : Int := 1000

/-- `NewWorker`. The pool of a new process is empty. -/
def newWorker (env : OpenEnv) (files : FileSystem) (db : DB) : Except Fault Worker × FileSystem :=
  match newSigner env files keyPath with
  | (.error f, files) => (.error (f.wrap (lit "initializing signer")), files)
  | (.ok signer, files) =>
    match Buffer.new strict {} bufferSize with
    | .error f => (.error f, files)
    | .ok ringBuffer => (.ok { ringBuffer, state := { initialState signer [] with db } }, files)

/-- What a session takes from outside at its start. -/
structure LaunchEnv where
  opened : OpenEnv
  started : StartEnv
  backpressureMode : BackpressureMode

/-- A directory, and the process that works in it, if there is one. -/
structure Host where
  files : FileSystem
  store : DB
  worker : Option Pipeline := none

inductive HostAction where
  /-- `main`, up to the servers. -/
  | launch (env : LaunchEnv)
  /-- Somebody calls `Submit`, or a goroutine of the worker goes on. -/
  | go (a : Pipeline.Action)
  /-- The process ends, wherever it is. -/
  | exit

namespace Host

/-- What a `Start` leaves. If it has failed, the process exits. -/
def started (files : FileSystem) (ringBuffer : Buffer Event) (mode : BackpressureMode) :
    Except Fault Unit × State → Host
  | (.error _, state) => { files, store := state.db }
  | (.ok (), state) =>
    { files, store := state.db, worker := some (.initial ringBuffer state mode) }

/-- `main` in the directory. Without a worker the process exits. -/
def launch (h : Host) (env : LaunchEnv) : Host :=
  match newWorker strict env.opened h.files h.store with
  | (.error _, files) => { h with files }
  | (.ok w, files) =>
    started files w.ringBuffer env.backpressureMode (start c strict env.started w.state)

/-- **One step.** There is one process at a time. -/
def step (h : Host) : HostAction → Option Host
  | .launch env =>
    match h.worker with
    | some _ => none
    | none => some (h.launch c strict env)
  | .go a =>
    match h.worker with
    | none => none
    | some p =>
      match p.step c strict a with
      | none => none
      | some p => some { h with store := p.memory.worker.state.db, worker := some p }
  | .exit => some { h with worker := none }

/-- No start fails between its two writes, and no loop stores an event while the other one is about
to. -/
def orderly (h : Host) : HostAction → Bool
  | .launch env =>
    (h.launch c strict env).worker.isSome ||
      (h.launch c strict env).store.runs.isEmpty == h.store.runs.isEmpty
  | .go a => h.worker.all (·.storesAlone strict a)
  | .exit => true

end Host

/-- The times can be written as RFC 3339, and a run has a name that is long enough to be printed. -/
def HostAction.Timely : HostAction → Prop
  | .launch env => env.started.genesis.now.Representable ∧ 8 ≤ env.started.genesis.runID.length
  | .go a => a.Supplied fun e => e.timestamp.Representable
  | .exit => True

/-! ## The invariant -/

/-- The signer of a key that was loaded. -/
def loadedSigner (key : Bytes) : Signer := ⟨key, publicHalf key⟩

/-- The store has one run, which can be verified with the key of the key file. -/
structure Verifiable (files : FileSystem) (db : DB) (run : RunRow) (key : Bytes) : Prop where
  runs : db.runs = [run]
  named : 8 ≤ run.id.length
  loads : loadPrivateKey files keyPath = .ok key
  chain : RunInv c strict (loadedSigner key) run.id ⟨db, loadedSigner key, run.id, []⟩
  times : ∀ row ∈ db.rowsOf run.id, TimestampOk row

namespace Host

/-- What holds at every point of every session. -/
structure Inv (h : Host) : Prop where
  readable : ∀ file, h.files.get? keyPath = some file → file.readable = true
  kept : h.store = DB.empty ∧ h.worker = none ∨
    ∃ run key, Verifiable c strict h.files h.store run key ∧ ∀ p ∈ h.worker, ∃ q,
      Pipeline.Recording c strict (loadedSigner key) run.id (fun e => e.timestamp.Representable)
        h.store p q

end Host

section

variable {c strict}

/-- The chain does not depend on what was signed by which process. -/
theorem RunInv.forget {signer : Signer} {runID : Bytes} {s : Core}
    (h : RunInv c strict signer runID s) :
    RunInv c strict signer runID ⟨s.db, signer, runID, []⟩ := by
  obtain ⟨hsigner, rfl, hne, hlog, hsound⟩ := h
  exact ⟨rfl, rfl, hne, hlog, hsound⟩

/-- A worker that goes on with a run. -/
theorem recording_resumed {signer : Signer} {runID : Bytes} {s : State} {P : Event → Prop}
    (hchain : RunInv c strict signer runID ⟨s.db, signer, runID, []⟩) (hsigner : s.signer = signer)
    {zero : Event} {capacity : Int} {ringBuffer : Buffer Event}
    (hnew : Buffer.new strict zero capacity = .ok ringBuffer) (mode : BackpressureMode) :
    Pipeline.Recording c strict signer runID P s.db
      (.initial ringBuffer (newEventProcessor s runID) mode) [] where
  linked := ⟨(Buffer.holds_new hnew).1,
    ⟨hsigner, rfl, hchain.nonempty, hchain.isLog, hchain.sound⟩,
    fun x hx => (by cases hx), fun x hx => (by cases hx)⟩
  carries := ⟨List.forall_mem_nil _, List.forall_mem_nil _, fun x hx => (by cases hx),
    fun x hx => (by cases hx), DB.grew_refl P _⟩

/-- A start on a store with a run goes on with it, or fails and leaves it alone. -/
theorem start_resumes {env : StartEnv} {s : State} {run : RunRow} (hruns : s.db.runs = [run]) :
    (∃ f, start c strict env s = (.error f, s)) ∨
      start c strict env s = (.ok (), newEventProcessor s run.id) := by
  rcases start_cases c strict env s with hfail | ⟨runID, hmem, hstart⟩ | ⟨hnone, -⟩
  · exact Or.inl hfail
  · rw [hruns, List.map_singleton, List.mem_singleton] at hmem
    exact Or.inr (hmem ▸ hstart)
  · rw [hruns] at hnone
    cases hnone

/-- A start on an empty store creates the run, or leaves it empty, or leaves a run behind. -/
theorem start_creates {env : StartEnv} {signer : Signer} :
    (∃ f s, start c strict env (initialState signer []) = (.error f, s) ∧ s.db = DB.empty) ∨
    (∃ f s, start c strict env (initialState signer []) = (.error f, s) ∧ s.db.runs ≠ []) ∨
    ∃ s run, createGenesisBlock c strict env.genesis (initialState signer [])
        (lit "Logryph-Agent") = (.ok env.genesis.runID, s) ∧
      s.db.runs = [run] ∧ run.id = env.genesis.runID ∧
      start c strict env (initialState signer [])
        = (.ok (), newEventProcessor s env.genesis.runID) := by
  rcases start_cases c strict env (initialState signer []) with ⟨f, hstart⟩ | ⟨runID, hmem, -⟩ |
    ⟨-, r, s₁, hcreate, hstart⟩
  · exact Or.inl ⟨f, _, hstart, rfl⟩
  · cases hmem
  · have hwrites := createGenesisBlock_writes c strict env.genesis (initialState signer [])
      (lit "Logryph-Agent")
    rw [hcreate] at hwrites
    rcases hstart with ⟨f, rfl, hstart⟩ | ⟨runID, rfl, hstart⟩
    · rcases hwrites with ⟨-, hsame⟩ | ⟨run, -, hruns, -⟩
      · exact Or.inl ⟨_, s₁, hstart, hsame⟩
      · refine Or.inr (Or.inl ⟨_, s₁, hstart, ?_⟩)
        rw [hruns]
        exact List.append_ne_nil_of_right_ne_nil _ (List.cons_ne_nil _ _)
    · rcases hwrites with ⟨⟨f, hf⟩, -⟩ |
        ⟨run, hid, hruns, ⟨_, -, -, -, -, -, hok⟩ | ⟨-, ⟨f, hf⟩, -⟩⟩
      · cases hf
      · obtain rfl : runID = env.genesis.runID := by
          rcases hok with hok | ⟨msg, hok⟩
          · exact Except.ok.inj hok
          · cases hok
        exact Or.inr (Or.inr ⟨s₁, run, hcreate, hruns, hid, hstart⟩)
      · cases hf

/-- A key that was written can be loaded. -/
theorem loadPrivateKey_put {files : FileSystem}
    (hreadable : ∀ file, files.get? keyPath = some file → file.readable = true) (key : KeyPair) :
    loadPrivateKey (files.put keyPath (hexEncode key.privateKey)) keyPath = .ok key.privateKey := by
  refine loadPrivateKey_eq_ok.mpr ⟨_, ?_, key.keyOf_hexEncode⟩
  unfold FileSystem.put
  cases hfile : files.get? keyPath with
  | none =>
    dsimp only
    rw [SortedMap.get?_insert, if_pos rfl]
  | some file =>
    dsimp only
    rw [SortedMap.get?_insert, if_pos rfl, hreadable file hfile]

/-- A write leaves the file readable. -/
theorem readable_put {files : FileSystem}
    (hreadable : ∀ file, files.get? keyPath = some file → file.readable = true) (data : Bytes) :
    ∀ file, (files.put keyPath data).get? keyPath = some file → file.readable = true := by
  intro file hfile
  unfold FileSystem.put at hfile
  cases hold : files.get? keyPath with
  | none =>
    rw [hold] at hfile
    dsimp only at hfile
    rw [SortedMap.get?_insert, if_pos rfl] at hfile
    cases hfile
    rfl
  | some old =>
    rw [hold] at hfile
    dsimp only at hfile
    rw [SortedMap.get?_insert, if_pos rfl] at hfile
    cases hfile
    exact hreadable old hold

namespace Host

/-- The rest of a launch on an empty store, when the key is in its file. -/
theorem Inv.created {files : FileSystem} {key : Bytes} {env : LaunchEnv}
    (hreadable : ∀ file, files.get? keyPath = some file → file.readable = true)
    (hload : loadPrivateKey files keyPath = .ok key) (htimely : (HostAction.launch env).Timely)
    {ringBuffer : Buffer Event} (hnew : Buffer.new strict ({} : Event) bufferSize = .ok ringBuffer)
    {h : Host} (hh : h = started files ringBuffer env.backpressureMode
      (start c strict env.started (initialState (loadedSigner key) [])))
    (horderly : h.worker.isSome = true ∨ h.store.runs = []) : h.Inv c strict := by
  rcases @start_creates c strict env.started (loadedSigner key) with ⟨f, s, hstart, hempty⟩ |
    ⟨f, s, hstart, hleft⟩ | ⟨s, run, hgen, hruns, hid, hstart⟩
  · rw [hstart] at hh
    subst hh
    exact ⟨hreadable, Or.inl ⟨hempty, rfl⟩⟩
  · rw [hstart] at hh
    subst hh
    rcases horderly with hsome | hnone
    · cases hsome
    · exact absurd hnone hleft
  · rw [hstart] at hh
    subst hh
    rw [← hid] at hgen
    refine ⟨hreadable, Or.inr ⟨run, key, ⟨hruns, hid ▸ htimely.2, hload, ?_, ?_⟩, ?_⟩⟩
    · exact (runInv_of_genesis c strict hgen).forget
    · have hsigned := signedInv_of_genesis c strict hgen fun e he => he ▸ htimely.1
      intro row hrow
      obtain ⟨e, -, -, htime⟩ := hsigned.exists_signed c strict hrow
      exact htime
    · rintro p hp
      cases hp
      rw [← hid]
      exact ⟨[], Pipeline.recording_initial hgen hnew env.backpressureMode⟩

/-- **A session starts.** -/
theorem Inv.launch {h : Host} (hinv : h.Inv c strict) (hworker : h.worker = none) {env : LaunchEnv}
    (htimely : (HostAction.launch env).Timely)
    (horderly : h.orderly c strict (.launch env) = true) :
    (h.launch c strict env).Inv c strict := by
  obtain ⟨hreadable, hkept⟩ := hinv
  obtain ⟨ringBuffer, hnew⟩ : ∃ b, Buffer.new strict ({} : Event) bufferSize = .ok b :=
    ⟨_, rfl⟩
  rcases hkept with ⟨hempty, -⟩ | ⟨run, key, hverifiable, -⟩
  · -- nothing is stored yet, so any key will do
    have horderly' : (h.launch c strict env).worker.isSome = true ∨
        (h.launch c strict env).store.runs = [] := by
      rw [orderly, Bool.or_eq_true, hempty] at horderly
      refine horderly.imp_right fun hsame => ?_
      rwa [beq_iff_eq, DB.empty, List.isEmpty_nil, List.isEmpty_iff] at hsame
    have hcases := newSigner_cases env.opened h.files keyPath
    generalize hopen : newSigner env.opened h.files keyPath = out at hcases
    cases hcases with
    | @loaded key load =>
      refine Inv.created hreadable load htimely hnew ?_ horderly'
      rw [Host.launch, newWorker, hopen, hempty, hnew]
      rfl
    | failed missing spares =>
      have hsame : h.launch c strict env = h := by rw [Host.launch, newWorker, hopen]
      rw [hsame]
      exact ⟨hreadable, Or.inl ⟨hempty, hworker⟩⟩
    | @cut f written missing spares =>
      have hsame : h.launch c strict env = { h with files := h.files.put keyPath written } := by
        rw [Host.launch, newWorker, hopen]
      rw [hsame]
      exact ⟨readable_put hreadable _, Or.inl ⟨hempty, hworker⟩⟩
    | @generated key missing spares =>
      refine Inv.created (readable_put hreadable _) (loadPrivateKey_put hreadable key) htimely hnew
        ?_ horderly'
      rw [Host.launch, newWorker, hopen, hempty, hnew]
      rfl
  · -- the key is there, and so is the run
    have hopen := @newSigner_of_load env.opened h.files keyPath key hverifiable.loads
    have hlaunch : h.launch c strict env = started h.files ringBuffer env.backpressureMode
        (start c strict env.started { initialState (loadedSigner key) [] with db := h.store }) := by
      rw [Host.launch, newWorker, hopen, hnew]
      rfl
    rw [hlaunch]
    rcases @start_resumes c strict env.started { initialState (loadedSigner key) [] with
      db := h.store } run hverifiable.runs with ⟨f, hstart⟩ | hstart
    · rw [hstart]
      exact ⟨hreadable, Or.inr ⟨run, key, hverifiable, fun p hp => (by cases hp)⟩⟩
    · rw [hstart]
      refine ⟨hreadable, Or.inr ⟨run, key, hverifiable, ?_⟩⟩
      rintro p hp
      cases hp
      exact ⟨[], @recording_resumed c strict (loadedSigner key) run.id
        { initialState (loadedSigner key) [] with db := h.store } _ hverifiable.chain rfl _ _ _
        hnew env.backpressureMode⟩

/-- **The step lemma.** -/
theorem Inv.step {h h' : Host} {a : HostAction} (hinv : h.Inv c strict)
    (horderly : h.orderly c strict a = true) (htimely : a.Timely)
    (hstep : h.step c strict a = some h') : h'.Inv c strict := by
  cases a with
  | launch env =>
    rw [Host.step] at hstep
    cases hworker : h.worker with
    | some p =>
      rw [hworker] at hstep
      cases hstep
    | none =>
      rw [hworker] at hstep
      cases hstep
      exact hinv.launch hworker htimely horderly
  | go a =>
    rw [Host.step] at hstep
    cases hworker : h.worker with
    | none =>
      rw [hworker] at hstep
      cases hstep
    | some p =>
      rw [hworker] at hstep
      dsimp only at hstep
      split at hstep
      · cases hstep
      · next p' hp' =>
        cases hstep
        obtain ⟨hreadable, ⟨-, hnone⟩ | ⟨run, key, hverifiable, hrec⟩⟩ := hinv
        · rw [hworker] at hnone
          cases hnone
        · obtain ⟨q, hq⟩ := hrec p hworker
          rw [orderly, hworker, Option.all_some] at horderly
          obtain ⟨q', hq'⟩ := hq.next Pipeline.unnumbered_representable horderly htimely hp'
          refine ⟨hreadable, Or.inr ⟨run, key, ⟨?_, hverifiable.named, hverifiable.loads,
            hq'.linked.chain.forget, fun row hrow => ?_⟩, ?_⟩⟩
          · exact hq'.carries.grew.runs.trans hverifiable.runs
          · rcases hq'.carries.grew.mem_cases hrow with hrow | ⟨e, he, henc⟩
            · exact hverifiable.times row hrow
            · exact timestampOk_of_encodeEvent henc he
          · rintro x hx
            cases hx
            exact ⟨q', hq'.rebase⟩
  | exit =>
    cases hstep
    obtain ⟨hreadable, ⟨hempty, -⟩ | ⟨run, key, hverifiable, -⟩⟩ := hinv
    · exact ⟨hreadable, Or.inl ⟨hempty, rfl⟩⟩
    · exact ⟨hreadable, Or.inr ⟨run, key, hverifiable, fun p hp => (by cases hp)⟩⟩

end Host

/-- A run that can be verified is verified. -/
theorem Verifiable.verifyCommand {files : FileSystem} {db : DB} {run : RunRow} {key : Bytes}
    (h : Verifiable c strict files db run key)
    (hown : ∀ m, c.verify (publicHalf key) m (c.sign key m) = true) {env : VerifyEnv}
    {settings : List (Bytes × Bool)} (hargs : verifyFlags.Reads env.args settings)
    (hskip : settingOf settings (lit "skip-live") false = true) (hdb : env.openDB = none)
    (hrun : env.getRunID = none) (hreads : env.reads = {}) :
    Logryph.verifyCommand c strict env files db
      = (⟨[lit "Verifying chain for run: " ++ run.id.take 8, lit "[OK] Chain is valid (" ++
          natText (min maxEventRows (db.rowsOf run.id).length) ++ lit " events verified)"],
        .code 0⟩, files) := by
  have hne : run.id ≠ [] := by
    intro hnil
    have hlen := h.named
    rw [hnil] at hlen
    cases hlen
  have hpass : RowsPass c strict (loadedSigner key) (db.orderedRows run.id) := by
    rw [DB.orderedRows_of_isLog h.chain.isLog]
    exact rowsPass_of_isLog c strict hown h.chain.nonempty h.chain.isLog h.chain.sound h.times
  have hchain := ((verifyChain_store c strict).mpr
    ⟨hne, rfl, hpass.take c strict (by decide), rfl⟩).1
  have hid : getRunID none env.latest db = .ok run.id := by
    rw [getRunID, h.runs]
    simp [Nat.mod_one]
  obtain ⟨rest, hparse⟩ := (FlagSet.parse_ok_iff env.quote).mpr hargs
  rw [Logryph.verifyCommand, hparse]
  dsimp only
  rw [hskip, verifyStore, hdb, newSigner_of_load h.loads, hrun, hid]
  cases hrunID : run.id with
  | nil => exact absurd hrunID hne
  | cons b bs =>
    show (verifyRun c strict env true db ⟨key, publicHalf key⟩ (b :: bs), files) = _
    rw [← hrunID, verifyRun, shortID, if_pos h.named, hreads]
    dsimp only
    rw [show (⟨key, publicHalf key⟩ : Signer) = loadedSigner key from rfl, hchain]
    rfl

/-- **The ledger verifies after any number of sessions.** Take any directory with an empty store,
whose key file can be read if there is one, and any sequence of starts, steps of the worker and ends
of the process, at any point. As long as no start fails between its two writes, and no loop stores
an event while the other one is about to, `logyctl verify` accepts what is there with the key that
is there: a process that is killed leaves no damage, and the next one goes on with the same run and
the same key. -/
theorem verify_after_sessions {files : FileSystem}
    (hreadable : ∀ file, files.get? keyPath = some file → file.readable = true)
    {actions : List HostAction} {h : Host}
    (horderly : along (Host.step c strict) (Host.orderly c strict) { files, store := DB.empty }
      actions = true) (htimely : ∀ a ∈ actions, a.Timely)
    (hrun : runSteps (Host.step c strict) { files, store := DB.empty } actions = some h)
    (hown : ∀ key, loadPrivateKey h.files keyPath = .ok key →
      ∀ m, c.verify (publicHalf key) m (c.sign key m) = true)
    (hruns : h.store.runs ≠ []) {env : VerifyEnv} {settings : List (Bytes × Bool)}
    (hargs : verifyFlags.Reads env.args settings)
    (hskip : settingOf settings (lit "skip-live") false = true)
    (hdb : env.openDB = none) (hid : env.getRunID = none) (hreads : env.reads = {}) :
    ∃ run, h.store.runs = [run] ∧ verifyCommand c strict env h.files h.store
      = (⟨[lit "Verifying chain for run: " ++ run.id.take 8, lit "[OK] Chain is valid (" ++
          natText (min maxEventRows (h.store.rowsOf run.id).length) ++ lit " events verified)"],
        .code 0⟩, h.files) := by
  have hstep : ∀ {h : Host} {a : HostAction} {h' : Host}, h.Inv c strict →
      h.orderly c strict a = true → a.Timely → h.step c strict a = some h' → h'.Inv c strict :=
    fun hinv horderly htimely hstep => hinv.step horderly htimely hstep
  have hinv : h.Inv c strict := @runSteps_inv_on _ _ (Host.step c strict)
    (Host.orderly c strict) HostAction.Timely (Host.Inv c strict) hstep _ _ _
    ⟨hreadable, Or.inl ⟨rfl, rfl⟩⟩ horderly htimely hrun
  rcases hinv.kept with ⟨hempty, -⟩ | ⟨run, key, hverifiable, -⟩
  · rw [hempty] at hruns
    exact absurd rfl hruns
  · exact ⟨run, hverifiable.runs,
      hverifiable.verifyCommand (hown key hverifiable.loads) hargs hskip hdb hid hreads⟩

end

/-- The first session generates the key and creates the run. -/
def sessionEnv : LaunchEnv where
  opened := ⟨.ok recordedPair, .done⟩
  started := { genesis := { recordedEnv with runID := lit "run-00000001" } }
  backpressureMode := .drop

/-- A session in which a call is recorded, and which is killed then; and one that records the
response. -/
def twoSessions : List HostAction :=
  [.launch sessionEnv, .go (.submit recordedCall)] ++ List.replicate 4 (.go (.next 0)) ++
    List.replicate 7 (.go (.consume quietEnv)) ++
    [.exit, .launch sessionEnv, .go (.submit recordedResponse)] ++
    List.replicate 4 (.go (.next 0)) ++ List.replicate 7 (.go (.consume quietEnv))

theorem timely_twoSessions : ∀ a ∈ twoSessions, a.Timely := by
  have hlaunch : (HostAction.launch sessionEnv).Timely := by
    show recordedEnv.now.Representable ∧ 8 ≤ (lit "run-00000001").length
    decide
  have hconsume : (HostAction.go (.consume quietEnv)).Timely := by
    intro taskID state e
    show quietEnv.completion.now.Representable
    decide
  have hcall : recordedCall.timestamp.Representable := by decide
  have hresponse : recordedResponse.timestamp.Representable := by decide
  intro a ha
  simp only [twoSessions, List.mem_append, List.mem_cons, List.mem_replicate, List.not_mem_nil,
    or_false] at ha
  rcases ha with (((((rfl | rfl) | ⟨-, rfl⟩) | ⟨-, rfl⟩) | rfl | rfl | rfl) | ⟨-, rfl⟩) | ⟨-, rfl⟩
  exacts [hlaunch, hcall, trivial, hconsume, trivial, hlaunch, hresponse, trivial, hconsume]

/-- What `logyctl verify --skip-live` takes from outside, when nothing fails. -/
def quietVerify : VerifyEnv where
  args := [lit "--skip-live"]
  opened := ⟨.ok rotatedPair, .done⟩
  live := { get := fun _ _ => .error (lit "no route to host"), now := recordedEnv.now,
            outside := fun _ => 0 }

theorem verify_after_two_sessions : ∃ h,
    runSteps (Host.step recordedCrypto true) { files := SortedMap.empty, store := DB.empty }
      twoSessions = some h ∧ (h.store.rowsOf (lit "run-00000001")).length = 3 ∧
    ∃ run, h.store.runs = [run] ∧ verifyCommand recordedCrypto true quietVerify h.files h.store
      = (⟨[lit "Verifying chain for run: " ++ run.id.take 8, lit "[OK] Chain is valid (" ++
          natText (min maxEventRows (h.store.rowsOf run.id).length) ++ lit " events verified)"],
        .code 0⟩, h.files) := by
  have hfacts : (runAlong (Host.step recordedCrypto true) (Host.orderly recordedCrypto true)
      { files := SortedMap.empty, store := DB.empty } twoSessions).any (fun h =>
        decide ((h.store.rowsOf (lit "run-00000001")).length = 3) && !h.store.runs.isEmpty &&
          decide (h.files.get? keyPath = some { data := hexEncode recordedKey })) = true := by
    decide +kernel
  obtain ⟨h, horderly, hrun, hfacts⟩ := exists_of_runAlong hfacts
  simp only [Bool.and_eq_true, decide_eq_true_eq, Bool.not_eq_true', List.isEmpty_eq_false_iff]
    at hfacts
  obtain ⟨⟨hrows, hruns⟩, hfile⟩ := hfacts
  have hload : loadPrivateKey h.files keyPath = .ok recordedKey :=
    loadPrivateKey_eq_ok.mpr ⟨_, hfile, recordedPair.keyOf_hexEncode⟩
  refine ⟨h, hrun, hrows, verify_after_sessions (fun file hfile => ?_) horderly timely_twoSessions
    hrun (fun key hkey => ?_) hruns ((FlagSet.parse_ok_iff id).mp ⟨[], rfl⟩) rfl rfl rfl rfl⟩
  · cases hfile
  · cases hload.symm.trans hkey
    have hhalf : publicHalf recordedKey = recordedSigner.publicKey := by decide +kernel
    rw [hhalf]
    exact recordedSigner_own

end Logryph
