import Logryph.Anchors
import Logryph.Infra.Flags
import Logryph.KeyFile

/-!
# `logyctl verify`

The command parses its flags, opens the store and the key file, takes the most recent run, verifies
its chain and then its anchors. Scripts look at the exit code.

* `verifyCommand` — what is printed, and how the command ends
* `verifyCommand_exit_zero_iff` — what the exit code 0 says
-/

namespace Logryph

open Infra

/-! ## Commands -/

/-- How a command ends. -/
inductive Exit where
  | code (n : Nat)
  | panicked (msg : Bytes)
  deriving DecidableEq

/-- What a command prints, line by line, and how it ends. -/
structure CommandRun where
  printed : List Bytes
  exit : Exit
  deriving DecidableEq

/-- Some lines are printed before. -/
def CommandRun.after (r : CommandRun) (lines : List Bytes) : CommandRun :=
  { r with printed := lines ++ r.printed }

/-- `log.Fatalf` with the error of a call. A panic goes past it. -/
def fatal (context : Bytes) : Fault → CommandRun
  | .error msg => ⟨[context ++ msg], .code 1⟩
  | .panic msg => ⟨[], .panicked msg⟩

/-- The text of an error. -/
def Fault.text : Fault → Bytes
  | .error msg => msg
  | .panic msg => msg

/-- `id[:8]`. -/
def shortID (id : Bytes) : Except Fault Bytes :=
  if 8 ≤ id.length then .ok (id.take 8)
  else .error (.panic (lit "runtime error: slice bounds out of range [:8] with length " ++
    natText id.length))

/-! ## The command -/

/-- The flags of the command. -/
def verifyFlags : FlagSet where
  name := lit "verify"
  flags := [{ name := lit "skip-live", usage := lit "Skip live verification of Bitcoin anchors",
              valid := by decide }]

/-- What the command takes from outside: the arguments after its name, how `%q` writes a text, and
what happens in the store, with the keys and with the service. The events are read twice. -/
structure VerifyEnv where
  args : List Bytes
  quote : Bytes → Bytes := id
  openDB : Option Bytes := none
  opened : OpenEnv
  getRunID : Option Fault := none
  latest : Nat := 0
  reads : ReadFaults := {}
  liveReads : ReadFaults := {}
  live : LiveEnv

variable (c : Crypto) (strict : Bool)

/-- The part about the anchors. An error is only a warning. -/
def verifyLive (env : VerifyEnv) (db : DB) (runID : Bytes) : CommandRun :=
  let r : CommandRun :=
    match verifyAnchors strict env.live (getAllEvents strict env.liveReads db) runID with
    | .error (.panic msg) => ⟨[], .panicked msg⟩
    | .error (.error msg) => ⟨[lit "[WARN] Anchor verification failed: " ++ msg], .code 0⟩
    | .ok result =>
      if result.valid then
        ⟨[lit "[OK] Bitcoin anchors verified against Blockstream API (" ++
          natText result.anchorsChecked ++ lit " anchors checked)"], .code 0⟩
      else ⟨[lit "[FAILED] Bitcoin anchor mismatch: " ++ result.errorMessage], .code 1⟩
  r.after [lit "Verifying external Bitcoin anchors..."]

/-- The part about one run. -/
def verifyRun (env : VerifyEnv) (skipLive : Bool) (db : DB) (signer : Signer) (runID : Bytes) :
    CommandRun :=
  match shortID runID with
  | .error f => fatal [] f
  | .ok short =>
    let r : CommandRun :=
      match verifyChain c strict (getAllEvents strict env.reads db) runID signer with
      | .error f => fatal (lit "Verification error: ") f
      | .ok result =>
        if result.valid then
          (if skipLive then ⟨[], .code 0⟩ else verifyLive strict env db runID).after
            [lit "[OK] Chain is valid (" ++ natText result.totalEvents ++ lit " events verified)"]
        else
          ⟨[lit "[FAILED] Chain verification failed", lit "  Error: " ++ result.errorMessage] ++
            if 0 < result.failedAtSeq then
              [lit "  Failed at sequence: " ++ natText result.failedAtSeq]
            else [], .code 1⟩
    r.after [lit "Verifying chain for run: " ++ short]

/-- The part after the flags. -/
def verifyStore (env : VerifyEnv) (skipLive : Bool) (files : FileSystem) (db : DB) :
    CommandRun × FileSystem :=
  match env.openDB with
  | some msg =>
    (fatal (lit "Failed to open database: ")
      (assertionFailed strict (lit "failed to open database: " ++ msg)), files)
  | none =>
    match newSigner env.opened files keyPath with
    | (.error f, files) =>
      (fatal (lit "Failed to load signer: ")
        (assertionFailed strict (lit "failed to load signer: " ++ f.text)), files)
    | (.ok signer, files) =>
      match getRunID env.getRunID env.latest db with
      | .error f => (fatal (lit "Failed to get run ID: ") f, files)
      | .ok [] => (⟨[lit "No runs found in database"], .code 0⟩, files)
      | .ok runID => (verifyRun c strict env skipLive db signer runID, files)

/-- `VerifyCommand`. With `flag.ExitOnError`, a request for help ends the command with 0, and
arguments that cannot be parsed with 2. -/
def verifyCommand (env : VerifyEnv) (files : FileSystem) (db : DB) : CommandRun × FileSystem :=
  match verifyFlags.parse env.quote env.args with
  | .help => (⟨verifyFlags.usage, .code 0⟩, files)
  | .failed msg => (⟨msg :: verifyFlags.usage, .code 2⟩, files)
  | .ok settings _ =>
    verifyStore c strict env (settingOf settings (lit "skip-live") false) files db

/-! ## The anchors -/

variable {c strict}

/-- The row says that it holds an anchor. -/
structure HoldsAnchorRow (row : EventRow) (hash : Bytes) (height : Float64) : Prop where
  eventType : row.eventType = lit "genesis" ∨ row.eventType = lit "anchor"
  params : ∃ m, decodeColumn row.params = some m ∧
    m.get? (lit "anchor_hash") = some (.string hash) ∧
    m.get? (lit "anchor_height") = some (.float64 height)

/-- Reading fails with an error. In strict mode, one that ends the rows early is a panic. -/
def ReadFaults.Reported (strict : Bool) (faults : ReadFaults) : Prop :=
  faults.query ≠ none ∨ (if faults.rows = none then faults.close ≠ none else strict = false)

theorem anchorIn_row_iff {row : EventRow} {e : Event} (hscan : scanEvent row = .ok e) {hash : Bytes}
    {height : Float64} : anchorIn e = some (hash, height) ↔ HoldsAnchorRow row hash height := by
  have hcols : e.eventType = row.eventType ∧ e.params = decodeColumn row.params := by
    unfold scanEvent at hscan
    split at hscan
    · cases hscan
    · cases hscan
      exact ⟨rfl, rfl⟩
  unfold anchorIn
  rw [hcols.1, hcols.2]
  constructor
  · intro h
    split at h
    · cases h
    · next htype =>
      split at h
      · next hhash hheight =>
        cases h
        obtain ⟨m, hm, hhash⟩ := Option.bind_eq_some_iff.mp hhash
        rw [hm] at hheight
        exact ⟨by tauto, m, hm, hhash, hheight⟩
      · cases h
  · rintro ⟨htype, m, hm, hhash, hheight⟩
    rw [if_neg (by tauto), hm]
    simp only [Option.bind_some, hhash, hheight]

/-- How reading a run ends that can be read. -/
theorem getAllEvents_cases (faults : ReadFaults) {db : DB} {runID : Bytes} {es : List Event}
    (hread : getAllEvents strict {} db runID = .ok es) :
    (∃ msg, getAllEvents strict faults db runID = .error (.error msg)) ∧
        faults.Reported strict ∧ faults ≠ {} ∨
      Panics (getAllEvents strict faults db runID) ∧ ¬ faults.Reported strict ∧ faults ≠ {} ∨
      getAllEvents strict faults db runID = .ok es ∧ ¬ faults.Reported strict ∧ faults = {} := by
  obtain ⟨hrun, -, -, -, hscan⟩ := (getAllEvents_eq_ok strict).mp hread
  obtain ⟨query, rows, close⟩ := faults
  unfold getAllEvents ReadFaults.Reported
  rw [decide_eq_true hrun, scanEvents_eq_ok.mpr hscan]
  cases query with
  | some msg => exact Or.inl ⟨⟨_, rfl⟩, Or.inl (by simp), by simp⟩
  | none =>
    cases rows with
    | some msg =>
      cases strict with
      | false => exact Or.inl ⟨⟨_, rfl⟩, by simp, by simp⟩
      | true => exact Or.inr (Or.inl ⟨⟨_, rfl⟩, by simp, by simp⟩)
    | none =>
      cases close with
      | some msg => exact Or.inl ⟨⟨_, rfl⟩, by simp, by simp⟩
      | none => exact Or.inr (Or.inr ⟨rfl, by simp, rfl⟩)

/-- The anchors in these rows do not make the command fail: reading them once more fails with an
error, or every anchor is confirmed. -/
def VerifyEnv.AnchorsPass (strict : Bool) (env : VerifyEnv) (rows : List EventRow) : Prop :=
  env.liveReads.Reported strict ∨ env.liveReads = {} ∧
    ∀ i row hash height, rows[i]? = some row → HoldsAnchorRow row hash height →
      Confirms (env.live.get i) (height.toUint64 env.live.outside) hash

/-- Event by event, or row by row. -/
theorem passes_iff_rows {live : LiveEnv} {rows : List EventRow} {es : List Event}
    (hscan : List.Forall₂ (fun row e => scanEvent row = .ok e) rows es) :
    (∀ i e, es[i]? = some e → live.Passes i e) ↔
      ∀ i row hash height, rows[i]? = some row → HoldsAnchorRow row hash height →
        Confirms (live.get i) (height.toUint64 live.outside) hash := by
  constructor
  · intro h i row hash height hrow hholds
    obtain ⟨e, he, hrowScan⟩ := getElem?_of_forall₂ hscan hrow
    exact h i e he (hash, height) ((anchorIn_row_iff hrowScan).mpr hholds)
  · rintro h i e he ⟨hash, height⟩ hanchor
    obtain ⟨row, hrow, hrowScan⟩ := getElem?_of_forall₂ hscan.flip he
    exact h i row hash height hrow ((anchorIn_row_iff hrowScan).mp hanchor)

theorem verifyLive_exit_zero_iff {env : VerifyEnv} {db : DB} {runID : Bytes} {es : List Event}
    (hread : getAllEvents strict {} db runID = .ok es) :
    (verifyLive strict env db runID).exit = .code 0 ↔
      env.AnchorsPass strict ((db.orderedRows runID).take maxEventRows) := by
  obtain ⟨-, -, -, -, hscan⟩ := (getAllEvents_eq_ok strict).mp hread
  have hlen : es.length ≤ maxAnchorEvents := by
    rw [← hscan.length_eq]
    exact List.length_take_le _ _
  unfold verifyLive VerifyEnv.AnchorsPass
  rcases getAllEvents_cases env.liveReads hread with ⟨⟨msg, hmsg⟩, hreported, -⟩ |
    ⟨⟨msg, hmsg⟩, hreported, hne⟩ | ⟨hok, hreported, hnone⟩
  · rw [verifyAnchors, hmsg]
    exact iff_of_true rfl (Or.inl hreported)
  · rw [verifyAnchors, hmsg]
    refine iff_of_false Exit.noConfusion ?_
    rintro (h | ⟨h, -⟩)
    · exact hreported h
    · exact hne h
  · have hvalid := (verifyAnchorsFrom_valid env.live es 0 0).1
    simp only [Nat.zero_add] at hvalid
    rw [verifyAnchors_of_read env.live hok hlen, or_iff_right hreported, and_iff_right hnone,
      ← passes_iff_rows hscan, ← hvalid]
    dsimp only
    cases (verifyAnchorsFrom env.live 0 0 es).valid <;> simp [CommandRun.after]

/-! ## The exit code -/

theorem fatal_exit (context : Bytes) (f : Fault) : (fatal context f).exit ≠ .code 0 := by
  cases f <;> simp [fatal]

theorem verifyRun_exit_zero_iff {env : VerifyEnv} {skipLive : Bool} {db : DB} {signer : Signer}
    {runID : Bytes} :
    (verifyRun c strict env skipLive db signer runID).exit = .code 0 ↔
      8 ≤ runID.length ∧ env.reads = {} ∧
        RowsPass c strict signer ((db.orderedRows runID).take maxEventRows) ∧
        (skipLive = true ∨ env.AnchorsPass strict ((db.orderedRows runID).take maxEventRows)) := by
  unfold verifyRun shortID
  by_cases hlen : 8 ≤ runID.length
  · rw [if_pos hlen]
    have hne : runID ≠ [] := by
      rintro rfl
      cases hlen
    have hstore := fun r => @verifyChain_store c strict env.reads db runID signer r
    dsimp only
    cases hchain : verifyChain c strict (getAllEvents strict env.reads db) runID signer with
    | error f =>
      refine iff_of_false (fatal_exit _ f) ?_
      rintro ⟨-, hreads, hrows, -⟩
      have haccept := (hstore _).mpr ⟨hne, hreads, hrows, rfl⟩
      rw [hchain] at haccept
      cases haccept.1
    | ok r =>
      dsimp only
      cases hvalid : r.valid with
      | false =>
        refine iff_of_false (by simp [CommandRun.after]) ?_
        rintro ⟨-, hreads, hrows, -⟩
        have haccept := (hstore _).mpr ⟨hne, hreads, hrows, rfl⟩
        rw [hchain] at haccept
        cases haccept.1
        cases hvalid
      | true =>
        obtain ⟨-, hreads, hrows, -⟩ := (hstore r).mp ⟨hchain, hvalid⟩
        obtain ⟨es, hscan, -⟩ := hrows.verified c strict (List.length_take_le _ _)
        have hread : getAllEvents strict {} db runID = .ok es :=
          (getAllEvents_eq_ok strict).mpr ⟨hne, rfl, rfl, rfl, hscan⟩
        simp only [if_true, CommandRun.after]
        cases skipLive with
        | true => simp [hlen, hreads, hrows]
        | false => simp [hlen, hreads, hrows, verifyLive_exit_zero_iff hread]
  · rw [if_neg hlen]
    exact iff_of_false (fatal_exit _ _) fun h => hlen h.1

theorem verifyStore_exit_zero_iff {env : VerifyEnv} {skipLive : Bool} {files : FileSystem}
    {db : DB} :
    (verifyStore c strict env skipLive files db).1.exit = .code 0 ↔
      env.openDB = none ∧ ∃ signer, (newSigner env.opened files keyPath).1 = .ok signer ∧
        ∃ runID, getRunID env.getRunID env.latest db = .ok runID ∧
          (runID = [] ∨ 8 ≤ runID.length ∧ env.reads = {} ∧
            RowsPass c strict signer ((db.orderedRows runID).take maxEventRows) ∧
            (skipLive = true ∨
              env.AnchorsPass strict ((db.orderedRows runID).take maxEventRows))) := by
  unfold verifyStore
  cases env.openDB with
  | some msg =>
    refine iff_of_false (fatal_exit _ _) ?_
    rintro ⟨h, -⟩
    cases h
  | none =>
    dsimp only
    cases hopen : newSigner env.opened files keyPath with
    | mk r files' =>
      cases r with
      | error f => simp [fatal_exit]
      | ok signer =>
        dsimp only
        cases hrun : getRunID env.getRunID env.latest db with
        | error f => simp [fatal_exit]
        | ok runID =>
          cases runID with
          | nil => simp
          | cons b bs => simp [verifyRun_exit_zero_iff]

/-- **What the exit code 0 says**: the arguments ask for help; or they can be parsed, and there is
no run, or all rows that are read of the most recent one pass under the key of the key file, and
unless the last setting of `-skip-live` is true, each of them that holds an anchor holds one that is
confirmed. A ledger whose anchors cannot be read is accepted with a warning. -/
theorem verifyCommand_exit_zero_iff (env : VerifyEnv) (files : FileSystem) (db : DB) :
    (verifyCommand c strict env files db).1.exit = .code 0 ↔
      verifyFlags.AsksHelp env.args ∨ ∃ settings, verifyFlags.Reads env.args settings ∧
        env.openDB = none ∧ ∃ signer, (newSigner env.opened files keyPath).1 = .ok signer ∧
        ∃ runID, getRunID env.getRunID env.latest db = .ok runID ∧
          (runID = [] ∨ 8 ≤ runID.length ∧ env.reads = {} ∧
            RowsPass c strict signer ((db.orderedRows runID).take maxEventRows) ∧
            (settingOf settings (lit "skip-live") false = true ∨
              env.AnchorsPass strict ((db.orderedRows runID).take maxEventRows))) := by
  simp only [← verifyStore_exit_zero_iff, ← FlagSet.parse_help_iff env.quote,
    ← FlagSet.parse_ok_iff env.quote]
  unfold verifyCommand
  cases verifyFlags.parse env.quote env.args with
  | help => simp
  | failed msg => simp
  | ok settings rest => simp

/-- Of several settings the last one counts, and what follows an argument without a dash is not
looked at. -/
example : verifyFlags.Reads [lit "-skip-live", lit "--skip-live=F", lit "run", lit "-x"]
    [(lit "skip-live", true), (lit "skip-live", false)] :=
  (FlagSet.parse_ok_iff id).mp ⟨[lit "run", lit "-x"], rfl⟩

end Logryph
