import Logryph.Infra.Transition
import Logryph.ProcessSteps

/-!
# Evidence bags

`ExportEvidenceBag` counts the events of the run, reads the last one, and copies the database file,
while a processor may go on with the same run. The store is in WAL mode: what was committed is in
the file itself only after a checkpoint.

* `Exporting.step` — one access to the store, by the export or by the processor, or a checkpoint
* `Exporting.Inv.step` — what was read is a part of what is there later
* `export_consistent_iff` — when the manifest is right about the database of the bag
* `export_inconsistent` — an event comes in between, and an event is not in the file yet
-/

namespace Logryph

open Infra

/-- The database up to a commit. -/
def DB.upTo (db : DB) (n : Nat) : DB :=
  { db with
    events := db.events.take n
    events_nodup := by
      rw [List.map_take]
      exact db.events_nodup.sublist (List.take_sublist n _) }

/-- `EvidenceManifest`. The anchor is never set. -/
structure EvidenceManifest where
  version : Bytes
  runID : Bytes
  exportTime : Time
  runStats : RunStats
  genesisAnchor : Object := none
  lastHash : Bytes

/-- The manifest is right about a database: it has the hash of the last event of the run, and the
number of its events, which is one more than the number of the last one. -/
def EvidenceManifest.consistent (m : EvidenceManifest) (db : DB) : Bool :=
  (db.lastRow m.runID).any (fun row =>
    row.currentHash = m.lastHash && row.seqIndex = (m.runStats.totalEvents : Int) - 1) &&
  m.runStats.totalEvents = (db.rowsOf m.runID).length

/-- What an export does next. With it goes what the store held at the reads before. -/
inductive ExportPc where
  | idle
  /-- `GetRunStats` -/
  | stats (runID : Bytes)
  /-- `GetLastEvent` -/
  | last (runID : Bytes) (stats : RunStats) (atStats : DB)
  /-- the copy of the file -/
  | copying (manifest : EvidenceManifest) (atStats atLast : DB)
  | done (manifest : EvidenceManifest) (copied atStats atLast : DB)
  | failed (f : Fault)

/-- A processor at work, the file of its store, and an export. -/
structure Exporting where
  state : State
  pc : ProcessPc := .ended (.ok ())
  file : DB
  exporter : ExportPc := .idle

inductive ExportAction where
  /-- the processor is given an event -/
  | submit (e : Event)
  | process (env : Worker.HandleEnv)
  /-- SQLite moves commits from its log to the file -/
  | checkpoint (n : Nat)
  | identify (target : Bytes) (fault : Option Fault) (latest : Nat)
  | stats (fault : Option Fault)
  | last (fault : Option Fault) (now : Time)
  | copy (fault : Option Fault)

variable (c : Crypto) (strict : Bool)

/-- Which run is exported. -/
def identifyRun (target : Bytes) (fault : Option Fault) (latest : Nat) (db : DB) :
    Except Fault Bytes := do
  let runID ←
    if target = [] then inContext (lit "getting run id") (getRunID fault latest db) else .ok target
  if runID = [] then .error (.error (lit "no runs found")) else .ok runID

namespace Exporting

/-- The export has read something, or failed. -/
def after {α : Type} (s : Exporting) (result : Except Fault α) (next : α → ExportPc) : Exporting :=
  match result with
  | .error f => { s with exporter := .failed f }
  | .ok a => { s with exporter := next a }

/-- One step. -/
def step (s : Exporting) : ExportAction → Option Exporting
  | .submit e =>
    match s.pc with
    | .ended (.ok ()) => some { s with pc := .stats .main e }
    | .ended (.error (.error _)) => some { s with pc := .stats .main e }
    | _ => none
  | .process env =>
    let (pc, state) := processStep c strict env s.state s.pc
    some { s with pc, state }
  | .checkpoint n =>
    if s.file.events.length ≤ n then some { s with file := s.state.db.upTo n } else none
  | .identify target fault latest =>
    match s.exporter with
    | .idle => some (s.after (identifyRun target fault latest s.state.db) .stats)
    | _ => none
  | .stats fault =>
    match s.exporter with
    | .stats runID =>
      some (s.after (inContext (lit "getting stats") (getRunStats strict fault s.state.db runID))
        fun stats => .last runID stats s.state.db)
    | _ => none
  | .last fault now =>
    match s.exporter with
    | .last runID stats atStats =>
      some (s.after (inContext (lit "getting last hash")
        (getLastEvent strict fault s.state.db runID)) fun last =>
          .copying ⟨lit "1.0 (Logryph 2026.1)", runID, now, stats, none, last.2⟩ atStats s.state.db)
    | _ => none
  | .copy fault =>
    match s.exporter, fault with
    | .copying _ _ _, some f => some { s with exporter := .failed f }
    | .copying m atStats atLast, none => some { s with exporter := .done m s.file atStats atLast }
    | _, _ => none

def start (state : State) (n : Nat) : Exporting := { state, file := state.db.upTo n }

end Exporting

/-! ## Parts of a store -/

/-- The store held these events before. -/
def DB.PartOf (db db' : DB) : Prop := db.events <+: db'.events

theorem DB.PartOf.trans {db db' db'' : DB} (h : db.PartOf db') (h' : db'.PartOf db'') :
    db.PartOf db'' := List.IsPrefix.trans h h'

theorem DB.partOf_refl (db : DB) : db.PartOf db := List.prefix_refl _

theorem DB.partOf_upTo (db : DB) (n : Nat) : (db.upTo n).PartOf db := List.take_prefix n _

theorem DB.PartOf.rowsOf {db db' : DB} (h : db.PartOf db') (runID : Bytes) :
    db.rowsOf runID <+: db'.rowsOf runID := List.IsPrefix.filter _ h

/-- Two parts of a store have the same rows of a run if they have as many. -/
theorem DB.PartOf.rowsOf_eq_iff {db₁ db₂ db : DB} (h₁ : db₁.PartOf db) (h₂ : db₂.PartOf db)
    (runID : Bytes) :
    db₁.rowsOf runID = db₂.rowsOf runID ↔
      (db₁.rowsOf runID).length = (db₂.rowsOf runID).length := by
  refine ⟨congrArg List.length, fun hlen => ?_⟩
  exact (List.prefix_of_prefix_length_le (h₁.rowsOf runID) (h₂.rowsOf runID) hlen.le).eq_of_length
    hlen

theorem DB.lastRow_congr {db db' : DB} {runID : Bytes} (h : db.rowsOf runID = db'.rowsOf runID) :
    db.lastRow runID = db'.lastRow runID := by
  rw [DB.lastRow, h, DB.lastRow]

variable {strict} in
theorem RowsStep.partOf {env : Worker.HandleEnv} {s s' : State} {pc : ProcessPc}
    (h : RowsStep strict env s pc s') : s.db.PartOf s'.db := by
  cases h with
  | unchanged _ hdb =>
    rw [hdb]
    exact s.db.partOf_refl
  | stored _ _ _ hadd =>
    obtain ⟨-, hevents, -⟩ := DB.addEvent_eq_some hadd
    rw [DB.PartOf, hevents]
    exact List.prefix_append _ _

/-! ## What was read -/

/-- The manifest has what the store held at the two reads. -/
structure Gathered (runID : Bytes) (db : DB) (m : EvidenceManifest) (atStats atLast : DB) :
    Prop where
  partOf : atStats.PartOf db
  nonempty : atStats.rowsOf runID ≠ []
  total : m.runStats.totalEvents = (atStats.rowsOf runID).length
  last : (atLast.lastRow runID).map EventRow.currentHash = some m.lastHash

/-- What holds where the export is, if it is an export of the run. -/
def ExportPc.Ok (runID : Bytes) (db : DB) : ExportPc → Prop
  | .idle => True
  | .stats _ => True
  | .failed _ => True
  | .last run counts atStats => run = runID →
    atStats.PartOf db ∧ atStats.rowsOf runID ≠ [] ∧
      counts.totalEvents = (atStats.rowsOf runID).length
  | .copying m atStats atLast => m.runID = runID → Gathered runID db m atStats atLast
  | .done m copied atStats atLast => m.runID = runID →
    Gathered runID db m atStats atLast ∧ copied.PartOf db

theorem Gathered.mono {runID : Bytes} {db db' : DB} {m : EvidenceManifest} {atStats atLast : DB}
    (h : Gathered runID db m atStats atLast) (hpart : db.PartOf db') :
    Gathered runID db' m atStats atLast :=
  { h with partOf := h.partOf.trans hpart }

/-- The store may grow. -/
theorem ExportPc.Ok.mono {runID : Bytes} {db db' : DB} {pc : ExportPc} (h : pc.Ok runID db)
    (hpart : db.PartOf db') : pc.Ok runID db' := by
  cases pc with
  | idle => trivial
  | stats run => trivial
  | failed f => trivial
  | last run counts atStats =>
    intro hrun
    obtain ⟨hstats, hrest⟩ := h hrun
    exact ⟨hstats.trans hpart, hrest⟩
  | copying m atStats atLast => exact fun hrun => (h hrun).mono hpart
  | done m copied atStats atLast =>
    intro hrun
    obtain ⟨hgathered, hcopied⟩ := h hrun
    exact ⟨hgathered.mono hpart, hcopied.trans hpart⟩

/-- What holds in every state. -/
structure Exporting.Inv (signer : Signer) (runID : Bytes) (s : Exporting) : Prop where
  chain : RunInv c strict signer runID s.state.core
  fresh : Fresh c strict s.state.core s.pc
  file : s.file.PartOf s.state.db
  exporter : s.exporter.Ok runID s.state.db

namespace Exporting

variable {c strict} {signer : Signer} {runID : Bytes} {s : Exporting}

theorem Inv.rows_nonempty (h : s.Inv c strict signer runID) : s.state.db.rowsOf runID ≠ [] :=
  h.chain.rows_eq ▸ h.chain.nonempty

theorem Inv.isLog (h : s.Inv c strict signer runID) : rowView.IsLog (s.state.db.rowsOf runID) :=
  h.chain.rows_eq ▸ h.chain.isLog

/-- What the export reads next is right. -/
theorem Inv.after {α : Type} (h : s.Inv c strict signer runID) {result : Except Fault α}
    {next : α → ExportPc} (hnext : ∀ a, result = .ok a → (next a).Ok runID s.state.db) :
    (s.after result next).Inv c strict signer runID := by
  cases hresult : result with
  | error f => exact ⟨h.chain, h.fresh, h.file, trivial⟩
  | ok a => exact ⟨h.chain, h.fresh, h.file, hnext a hresult⟩

theorem Inv.process (h : s.Inv c strict signer runID) (env : Worker.HandleEnv) :
    Inv c strict signer runID
      { s with
        pc := (processStep c strict env s.state s.pc).1
        state := (processStep c strict env s.state s.pc).2 } := by
  obtain ⟨hrows, hsigner, hrun, hfresh⟩ := processStep_spec c strict h.chain h.fresh env
  exact ⟨(hrows.runInv c strict h.chain h.fresh hsigner hrun).1, hfresh,
    h.file.trans hrows.partOf, h.exporter.mono hrows.partOf⟩

/-- The last row that `GetLastEvent` finds. -/
theorem Inv.lastRow {fault : Option Fault} {n : Nat} {hash : Bytes}
    (h : s.Inv c strict signer runID)
    (hlast : getLastEvent strict fault s.state.db runID = .ok (n, hash)) :
    (s.state.db.lastRow runID).map EventRow.currentHash = some hash := by
  rcases getLastEvent_eq_ok strict hlast with ⟨hnone, -, -⟩ | ⟨row, hrow, -, hhash⟩
  · rw [DB.lastRow_of_isLog h.isLog, List.getLast?_eq_none_iff] at hnone
    exact absurd hnone h.rows_nonempty
  · rw [hrow, Option.map_some, hhash]

/-- **Each step keeps what holds.** -/
theorem Inv.step {s' : Exporting} {a : ExportAction} (h : s.Inv c strict signer runID)
    (hstep : Exporting.step c strict s a = some s') : s'.Inv c strict signer runID := by
  cases a with
  | submit e =>
    rw [Exporting.step] at hstep
    split at hstep
    · cases hstep
      exact ⟨h.chain, trivial, h.file, h.exporter⟩
    · cases hstep
      exact ⟨h.chain, trivial, h.file, h.exporter⟩
    · cases hstep
  | process env =>
    cases hstep
    exact h.process env
  | checkpoint n =>
    rw [Exporting.step] at hstep
    split at hstep
    · cases hstep
      exact ⟨h.chain, h.fresh, DB.partOf_upTo _ n, h.exporter⟩
    · cases hstep
  | identify target fault latest =>
    rw [Exporting.step] at hstep
    split at hstep
    · cases hstep
      exact h.after fun _ _ => trivial
    · cases hstep
  | stats fault =>
    rw [Exporting.step] at hstep
    split at hstep
    · cases hstep
      refine h.after fun stats hstats => ?_
      rintro rfl
      obtain ⟨-, htotal⟩ := getRunStats_eq_ok strict (inContext_eq_ok.mp hstats)
      exact ⟨DB.partOf_refl _, h.rows_nonempty, htotal⟩
    · cases hstep
  | last fault now =>
    rw [Exporting.step] at hstep
    split at hstep
    · next run stats atStats hpc =>
      cases hstep
      -- the store may have grown since the counts were read, which still are those of `atStats`
      have hok := h.exporter
      rw [hpc] at hok
      refine h.after fun last hlast => ?_
      rintro rfl
      obtain ⟨hpart, hne, htotal⟩ := hok rfl
      exact ⟨hpart, hne, htotal, h.lastRow (inContext_eq_ok.mp hlast)⟩
    · cases hstep
  | copy fault =>
    dsimp only [Exporting.step] at hstep
    split at hstep
    · cases hstep
      exact ⟨h.chain, h.fresh, h.file, trivial⟩
    · next m atStats atLast _ hpc =>
      cases hstep
      have hok := h.exporter
      rw [hpc] at hok
      exact ⟨h.chain, h.fresh, h.file, fun hrun => ⟨hok hrun, h.file⟩⟩
    · cases hstep

/-- A run starts with it. -/
theorem inv_start {state : State} (h : RunInv c strict signer runID state.core) (n : Nat) :
    (start state n).Inv c strict signer runID :=
  ⟨h, trivial, DB.partOf_upTo _ n, trivial⟩

end Exporting

/-! ## The bag -/

/-- The last row of a part of the run has the number of the rows before it. -/
theorem seqIndex_lastRow {db : DB} {runID : Bytes} {row : EventRow}
    (hlog : rowView.IsLog (db.rowsOf runID)) (hrow : db.lastRow runID = some row) :
    row.seqIndex = ((db.rowsOf runID).length : Int) - 1 := by
  rw [DB.lastRow_of_isLog hlog] at hrow
  obtain ⟨rows, hrows⟩ := List.getLast?_eq_some_iff.mp hrow
  have hnum : row.seqIndex = rows.length := View.IsLog.num_last (hrows ▸ hlog)
  rw [hnum, hrows, List.length_append, List.length_singleton]
  omega

/-- **When a manifest is right.** -/
theorem Gathered.consistent_iff {runID : Bytes} {db copied : DB} {m : EvidenceManifest}
    {atStats atLast : DB} (h : Gathered runID db m atStats atLast) (hrun : m.runID = runID)
    (hlog : rowView.IsLog (db.rowsOf runID)) (hcopied : copied.PartOf db) :
    m.consistent copied = true ↔
      copied.rowsOf runID = atStats.rowsOf runID ∧
      (atLast.lastRow runID).map EventRow.currentHash
        = (atStats.lastRow runID).map EventRow.currentHash := by
  have hcount := hcopied.rowsOf_eq_iff h.partOf runID
  rw [EvidenceManifest.consistent, Bool.and_eq_true, decide_eq_true_eq, hrun, h.total, h.last,
    and_comm, eq_comm, ← hcount]
  refine and_congr_right fun hrows => ?_
  -- with the rows that were counted, the number of the last one is right
  obtain ⟨row, hrow⟩ : ∃ row, copied.lastRow runID = some row := by
    rw [DB.lastRow_of_isLog (hlog.of_prefix (hcopied.rowsOf runID)), hrows]
    exact ⟨_, List.getLast?_eq_some_getLast h.nonempty⟩
  have hseq := seqIndex_lastRow (hlog.of_prefix (hcopied.rowsOf runID)) hrow
  rw [← DB.lastRow_congr hrows, hrow, Option.any_some, Option.map_some, ← hrows, hseq]
  simp only [Option.some.injEq, decide_true, Bool.and_true, decide_eq_true_eq]
  exact eq_comm

/-- **When an evidence bag is consistent.** Whatever the processor does between the steps of an
export, the manifest is right about the database of the bag exactly if the file has the events of
the run that were there at `GetRunStats`, and the last one at `GetLastEvent` has the hash of the
last one then. -/
theorem export_consistent_iff {c : Crypto} {strict : Bool} {env : GenesisEnv} {signer : Signer}
    {pool : List Event} {agentName runID : Bytes} {s₀ : State}
    (hgen : createGenesisBlock c strict env (initialState signer pool) agentName = (.ok runID, s₀))
    (n : Nat) (actions : List ExportAction) {s : Exporting}
    (hsteps : runSteps (Exporting.step c strict) (.start (newEventProcessor s₀ runID) n) actions
      = some s)
    {m : EvidenceManifest} {copied atStats atLast : DB}
    (hdone : s.exporter = .done m copied atStats atLast) (hrun : m.runID = runID) :
    m.consistent copied = true ↔
      copied.rowsOf runID = atStats.rowsOf runID ∧
      (atLast.lastRow runID).map EventRow.currentHash
        = (atStats.lastRow runID).map EventRow.currentHash := by
  have hstart := Exporting.inv_start (runInv_of_genesis c strict hgen) n
  have hinv : s.Inv c strict signer runID :=
    runSteps_invariant (Exporting.Inv c strict signer runID) Exporting.Inv.step hstart hsteps
  have hok := hinv.exporter
  rw [hdone] at hok
  obtain ⟨hgathered, hcopied⟩ := hok hrun
  exact hgathered.consistent_iff hrun hinv.isLog hcopied

/-- The store of the recorded run, checkpointed after its first event. -/
def recordedExport : Exporting := .start (newEventProcessor recordedGenesis (lit "run-1")) 1

def exportEnv : Worker.HandleEnv where
  completion := { id := lit "evt-3", now := .zero }
  duration := 0

/-- The processor stores an event. -/
def recordEvent : List ExportAction :=
  [.submit recordedCall, .process exportEnv, .process exportEnv, .process exportEnv]

/-- The export, with what comes after `GetRunStats`. -/
def exportWith (between : List ExportAction) : List ExportAction :=
  [.identify [] none 0, .stats none] ++ between ++ [.last none .zero, .copy none]

/-- The bag that an export made. -/
def ExportPc.bagWith (P : EvidenceManifest → DB → DB → DB → Bool) : ExportPc → Bool
  | .done m copied atStats atLast => P m copied atStats atLast
  | _ => false

def exportRun (actions : List ExportAction) : Option Exporting :=
  runSteps (Exporting.step recordedCrypto true) recordedExport actions

/-- What is evaluated for a bag. -/
theorem exists_bag {actions : List ExportAction} {P : EvidenceManifest → DB → DB → DB → Bool}
    (h : (exportRun actions).any (fun s => s.exporter.bagWith P) = true) :
    ∃ s m copied atStats atLast, exportRun actions = some s ∧
      s.exporter = .done m copied atStats atLast ∧ P m copied atStats atLast = true := by
  obtain ⟨s, hs, hbag⟩ := (Option.any_eq_true _ _).mp h
  unfold ExportPc.bagWith at hbag
  split at hbag
  · next m copied atStats atLast hdone => exact ⟨s, m, copied, atStats, atLast, hs, hdone, hbag⟩
  · cases hbag

/-- The file has the events that were counted, and no event came before the last hash was read. -/
def undisturbed (m : EvidenceManifest) (copied atStats atLast : DB) : Bool :=
  m.runID = lit "run-1" && copied.rowsOf (lit "run-1") = atStats.rowsOf (lit "run-1") &&
    (atLast.lastRow (lit "run-1")).map EventRow.currentHash
      = (atStats.lastRow (lit "run-1")).map EventRow.currentHash

/-- The manifest is wrong. -/
def inconsistent (m : EvidenceManifest) (copied _ _ : DB) : Bool :=
  m.runID = lit "run-1" && !m.consistent copied

theorem bags_evaluated :
    ((exportRun (recordEvent ++ [.checkpoint 2] ++ exportWith [])).any
      (fun s => s.exporter.bagWith undisturbed) = true ∧
    (exportRun (exportWith (recordEvent ++ [.checkpoint 2]))).any
      (fun s => s.exporter.bagWith inconsistent) = true) ∧
    (exportRun (recordEvent ++ exportWith [])).any
      (fun s => s.exporter.bagWith inconsistent) = true := by
  decide +kernel

/-- Nothing comes between the steps, and the file has all events. -/
theorem export_consistent_recorded : ∃ s m copied atStats atLast,
    exportRun (recordEvent ++ [.checkpoint 2] ++ exportWith []) = some s ∧
    s.exporter = .done m copied atStats atLast ∧ m.consistent copied = true := by
  obtain ⟨s, m, copied, atStats, atLast, hs, hdone, hbag⟩ := exists_bag bags_evaluated.1.1
  simp only [undisturbed, Bool.and_eq_true, decide_eq_true_eq] at hbag
  obtain ⟨⟨hrun, hrows⟩, hlast⟩ := hbag
  exact ⟨s, m, copied, atStats, atLast, hs, hdone,
    (export_consistent_iff createGenesisBlock_recorded 1 _ hs hdone hrun).mpr ⟨hrows, hlast⟩⟩

/-- **A bag is inconsistent**: an event is stored between the reads, and an event is in the log of
the store when the file is copied. -/
theorem export_inconsistent :
    (∃ s m copied atStats atLast,
      exportRun (exportWith (recordEvent ++ [.checkpoint 2])) = some s ∧
      s.exporter = .done m copied atStats atLast ∧
      inconsistent m copied atStats atLast = true) ∧
    ∃ s m copied atStats atLast, exportRun (recordEvent ++ exportWith []) = some s ∧
      s.exporter = .done m copied atStats atLast ∧
      inconsistent m copied atStats atLast = true :=
  ⟨exists_bag bags_evaluated.1.2, exists_bag bags_evaluated.2⟩

end Logryph
