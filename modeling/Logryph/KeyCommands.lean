import Logryph.Infra.Transition
import Logryph.KeyFile

/-!
# Backups of the key

`logyctl` copies the key file to a file that is named after the second, and restores it from such a
file, for which it moves the key that is there to `.logryph_key.old`. Both overwrite what has the
name already.

* `backupKey`, `restoreKey` — the commands
* `held_run_iff` — the keys that are left after a command
* `safe_rotate_of_backup` — a rotation right after a backup loses no key
* `keys_kept_iff` — no key is ever lost exactly if no command replaces the only copy of one
* `key_lost` — two backups in one second, and two restores
-/

namespace Logryph

open Infra

def oldPath : Bytes := keyPath ++ lit ".old"

def backupPrefix : Bytes := lit ".logryph_key.backup."

def maxBackupName : Nat := 256

def maxPath : Nat := 512

/-- The name of a backup, for the time in UTC. -/
def backupPath (now : Time) : Bytes :=
  backupPrefix ++ utf8 (Time.padInt 4 now.year ++ Time.pad 2 now.month ++ Time.pad 2 now.day ++
    'T' :: (Time.pad 2 now.hour ++ Time.pad 2 now.minute ++ Time.pad 2 now.second ++ ['Z']))

/-! ## The commands -/

/-- `BackupKeyCommand`. The error is the text that is printed before the exit. -/
def backupKey (fs : FileSystem) (now : Time) (saved : WriteOutcome) :
    Except Bytes Unit × FileSystem :=
  if (fs.get? keyPath).isNone then (.error (lit "Error: No key file found at .logryph_key"), fs)
  else if maxBackupName < (backupPath now).length then
    (.error (lit "Error: Backup path exceeds maximum length"), fs)
  else
    match fs.readFile keyPath with
    | .error msg => (.error (lit "Error: Failed to read key file: " ++ msg), fs)
    | .ok keyData =>
      match fs.writeFile (backupPath now) keyData saved with
      | (.error msg, fs) => (.error (lit "Error: Failed to write backup: " ++ msg), fs)
      | (.ok (), fs) => (.ok (), fs)

/-- The end of `RestoreKeyCommand`. -/
def writeKey (fs : FileSystem) (backupData : Bytes) (saved : WriteOutcome) :
    Except Bytes Unit × FileSystem :=
  match fs.writeFile keyPath backupData saved with
  | (.error msg, fs) => (.error (lit "Error: Failed to restore key: " ++ msg), fs)
  | (.ok (), fs) => (.ok (), fs)

/-- `RestoreKeyCommand`. The rename may fail. -/
def restoreKey (fs : FileSystem) (path : Bytes) (renamed : Except Bytes Unit)
    (saved : WriteOutcome) : Except Bytes Unit × FileSystem :=
  if maxPath < path.length then (.error (lit "Error: Backup path exceeds maximum length"), fs)
  else if (fs.get? path).isNone then
    (.error (lit "Error: Backup file not found: " ++ path), fs)
  else
    match fs.readFile path with
    | .error msg => (.error (lit "Error: Failed to read backup: " ++ msg), fs)
    | .ok backupData =>
      if (fs.get? keyPath).isSome then
        match renamed with
        | .error msg => (.error (lit "Error: Failed to preserve old key: " ++ msg), fs)
        | .ok () => writeKey (fs.rename keyPath oldPath) backupData saved
      else writeKey fs backupData saved

/-- The operations on the key file. A rotation is one that succeeds. -/
inductive KeyCommand where
  | backup (now : Time) (saved : WriteOutcome)
  | restore (path : Bytes) (renamed : Except Bytes Unit) (saved : WriteOutcome)
  | rotate (key : KeyPair)

def KeyCommand.run (fs : FileSystem) : KeyCommand → FileSystem
  | backup now saved => (backupKey fs now saved).2
  | restore path renamed saved => (restoreKey fs path renamed saved).2
  | rotate key => (savePrivateKey fs keyPath key.privateKey .done).2

/-! ## The keys in the files -/

/-- The key file, the old one, and the backups. -/
def isKeyName (name : Bytes) : Bool :=
  name = keyPath || name = oldPath || backupPrefix.isPrefixOf name

/-- A file with one of the names has the key. -/
def holdsKey (fs : FileSystem) (names : Bytes → Bool) (k : Bytes) : Bool :=
  fs.entries.any fun p => names p.1 && keyOf p.2.data = some k

/-- One of the files has the key. -/
def held (fs : FileSystem) (k : Bytes) : Bool := holdsKey fs isKeyName k

/-- One of the files has the key, and it is not the given one. -/
def heldElsewhere (fs : FileSystem) (path k : Bytes) : Bool :=
  holdsKey fs (fun name => isKeyName name && name ≠ path) k

/-- The key in a file. -/
def keyIn (fs : FileSystem) (path : Bytes) : Option Bytes :=
  (fs.get? path).bind fun file => keyOf file.data

theorem holdsKey_iff {fs : FileSystem} {names : Bytes → Bool} {k : Bytes} :
    holdsKey fs names k = true ↔ ∃ name, names name = true ∧ keyIn fs name = some k := by
  simp only [holdsKey, List.any_eq_true, Bool.and_eq_true, decide_eq_true_eq, Prod.exists, keyIn,
    Option.bind_eq_some_iff]
  constructor
  · rintro ⟨name, file, hmem, hname, hkey⟩
    exact ⟨name, hname, file, mapGet_of_mem fs.sorted hmem, hkey⟩
  · rintro ⟨name, hname, file, hfile, hkey⟩
    exact ⟨name, file, mem_of_mapGet hfile, hname, hkey⟩

theorem held_iff {fs : FileSystem} {k : Bytes} :
    held fs k = true ↔ ∃ name, isKeyName name = true ∧ keyIn fs name = some k := holdsKey_iff

theorem heldElsewhere_iff {fs : FileSystem} {path k : Bytes} :
    heldElsewhere fs path k = true ↔
      ∃ name, (isKeyName name = true ∧ name ≠ path) ∧ keyIn fs name = some k := by
  rw [heldElsewhere, holdsKey_iff]
  simp only [Bool.and_eq_true, decide_eq_true_eq]

theorem keyIn_put_of_ne {fs : FileSystem} {path other data : Bytes} (h : other ≠ path) :
    keyIn (fs.put path data) other = keyIn fs other := by
  rw [keyIn, FileSystem.get?_put_of_ne h, keyIn]

theorem keyIn_put (fs : FileSystem) (path data : Bytes) :
    keyIn (fs.put path data) path = keyOf data := by
  have h : ((fs.put path data).get? path).map File.data = some data := FileSystem.data_put data
  rw [keyIn]
  cases hfile : (fs.put path data).get? path with
  | none =>
    rw [hfile] at h
    cases h
  | some file =>
    rw [hfile, Option.map_some, Option.some.injEq] at h
    rw [Option.bind_some, h]

/-- The keys that are left after one file was written. -/
theorem held_put_iff {fs : FileSystem} {path data k : Bytes} (hname : isKeyName path = true) :
    held (fs.put path data) k = true ↔
      heldElsewhere fs path k = true ∨ keyOf data = some k := by
  rw [held_iff, heldElsewhere_iff]
  constructor
  · rintro ⟨name, hkeyName, hkey⟩
    by_cases hsame : name = path
    · rw [hsame, keyIn_put] at hkey
      exact Or.inr hkey
    · rw [keyIn_put_of_ne hsame] at hkey
      exact Or.inl ⟨name, ⟨hkeyName, hsame⟩, hkey⟩
  · rintro (⟨name, ⟨hkeyName, hne⟩, hkey⟩ | hkey)
    · exact ⟨name, hkeyName, (keyIn_put_of_ne hne).trans hkey⟩
    · exact ⟨path, hname, (keyIn_put fs path data).trans hkey⟩

theorem held_iff_elsewhere_or {fs : FileSystem} {path k : Bytes} (hname : isKeyName path = true) :
    held fs k = true ↔ heldElsewhere fs path k = true ∨ keyIn fs path = some k := by
  rw [held_iff, heldElsewhere_iff]
  constructor
  · rintro ⟨name, hkeyName, hkey⟩
    by_cases hsame : name = path
    · exact Or.inr (hsame ▸ hkey)
    · exact Or.inl ⟨name, ⟨hkeyName, hsame⟩, hkey⟩
  · rintro (⟨name, ⟨hkeyName, _⟩, hkey⟩ | hkey)
    · exact ⟨name, hkeyName, hkey⟩
    · exact ⟨path, hname, hkey⟩

theorem isKeyName_keyPath : isKeyName keyPath = true := by decide

theorem isKeyName_oldPath : isKeyName oldPath = true := by decide

theorem isKeyName_backupPath (now : Time) : isKeyName (backupPath now) = true := by
  have hprefix : backupPrefix.isPrefixOf (backupPath now) = true :=
    List.isPrefixOf_iff_prefix.mpr (List.prefix_append _ _)
  rw [isKeyName, hprefix, Bool.or_true]

theorem backupPath_ne_keyPath (now : Time) : backupPath now ≠ keyPath := by
  intro h
  have hlen : backupPrefix.length ≤ (backupPath now).length := (List.prefix_append _ _).length_le
  rw [h] at hlen
  exact absurd hlen (by decide)

/-- When the key file is moved, the key of the old one is what is lost. -/
theorem heldElsewhere_rename {fs : FileSystem} {file : File} (hfile : fs.get? keyPath = some file)
    (k : Bytes) :
    heldElsewhere (fs.rename keyPath oldPath) keyPath k = true ↔
      heldElsewhere fs oldPath k = true := by
  have hne : keyPath ≠ oldPath := by decide
  have hmoved : keyIn (fs.rename keyPath oldPath) oldPath = keyIn fs keyPath := by
    rw [keyIn, FileSystem.get?_rename hfile, if_pos rfl, keyIn, hfile]
  have hother : ∀ name, name ≠ oldPath → name ≠ keyPath →
      keyIn (fs.rename keyPath oldPath) name = keyIn fs name := by
    intro name hold hkey
    rw [keyIn, FileSystem.get?_rename hfile, if_neg hold, if_neg hkey, keyIn]
  rw [heldElsewhere_iff, heldElsewhere_iff]
  constructor
  · rintro ⟨name, ⟨hname, hkey⟩, hk⟩
    by_cases hold : name = oldPath
    · exact ⟨keyPath, ⟨isKeyName_keyPath, hne⟩, hmoved ▸ hold ▸ hk⟩
    · exact ⟨name, ⟨hname, hold⟩, hother name hold hkey ▸ hk⟩
  · rintro ⟨name, ⟨hname, hold⟩, hk⟩
    by_cases hkey : name = keyPath
    · exact ⟨oldPath, ⟨isKeyName_oldPath, hne.symm⟩, hmoved.trans (hkey ▸ hk)⟩
    · exact ⟨name, ⟨hname, hkey⟩, (hother name hold hkey).trans hk⟩

/-! ## What a command replaces -/

/-- The file whose bytes a command replaces, and the bytes that it writes. -/
structure Replacement where
  path : Bytes
  written : Option Bytes

/-- What a backup replaces, if it comes to its write. -/
def backupReplaces (fs : FileSystem) (now : Time) (saved : WriteOutcome) : Option Replacement :=
  if maxBackupName < (backupPath now).length then none
  else
    match fs.readFile keyPath with
    | .error _ => none
    | .ok keyData => (saved.written keyData).map fun data => ⟨backupPath now, some data⟩

/-- What a restore replaces: the old key if there is one to move there, and else the key. -/
def restoreReplaces (fs : FileSystem) (path : Bytes) (renamed : Except Bytes Unit)
    (saved : WriteOutcome) : Option Replacement :=
  if maxPath < path.length then none
  else
    match fs.readFile path with
    | .error _ => none
    | .ok backupData =>
      if (fs.get? keyPath).isSome then
        match renamed with
        | .error _ => none
        | .ok () => some ⟨oldPath, saved.written backupData⟩
      else (saved.written backupData).map fun data => ⟨keyPath, some data⟩

def KeyCommand.replaces (fs : FileSystem) : KeyCommand → Option Replacement
  | backup now saved => backupReplaces fs now saved
  | restore path renamed saved => restoreReplaces fs path renamed saved
  | rotate key => some ⟨keyPath, some (hexEncode key.privateKey)⟩

theorem readFile_of_none {fs : FileSystem} {path : Bytes} (h : fs.get? path = none) :
    ∃ msg, fs.readFile path = .error msg := by
  rw [FileSystem.readFile, h]
  exact ⟨_, rfl⟩

theorem backupKey_snd (fs : FileSystem) (now : Time) (saved : WriteOutcome) :
    (backupReplaces fs now saved = none ∧ (backupKey fs now saved).2 = fs) ∨
    ∃ data, backupReplaces fs now saved = some ⟨backupPath now, some data⟩ ∧
      (backupKey fs now saved).2 = fs.put (backupPath now) data := by
  rw [backupKey, backupReplaces]
  by_cases hnone : (fs.get? keyPath).isNone = true
  · -- without a key file the read would fail as well
    obtain ⟨msg, hread⟩ := readFile_of_none (Option.isNone_iff_eq_none.mp hnone)
    rw [if_pos hnone, hread, ite_self]
    exact Or.inl ⟨rfl, rfl⟩
  rw [if_neg hnone]
  by_cases hlen : maxBackupName < (backupPath now).length
  · rw [if_pos hlen, if_pos hlen]
    exact Or.inl ⟨rfl, rfl⟩
  rw [if_neg hlen, if_neg hlen]
  cases fs.readFile keyPath with
  | error msg => exact Or.inl ⟨rfl, rfl⟩
  | ok keyData =>
    cases saved with
    | refused msg => exact Or.inl ⟨rfl, rfl⟩
    | done => exact Or.inr ⟨keyData, rfl, rfl⟩
    | cut n msg => exact Or.inr ⟨keyData.take n, rfl, rfl⟩

/-- A backup that succeeds has the bytes of the key file. -/
theorem backupKey_ok {fs : FileSystem} {now : Time} {saved : WriteOutcome}
    (h : (backupKey fs now saved).1 = .ok ()) :
    ∃ keyData, fs.get? keyPath = some { data := keyData } ∧
      (backupKey fs now saved).2 = fs.put (backupPath now) keyData := by
  rw [backupKey] at h ⊢
  split at h
  · cases h
  next hsome =>
  split at h
  · cases h
  next hlen =>
  rw [if_neg hsome, if_neg hlen]
  cases hread : fs.readFile keyPath with
  | error msg =>
    rw [hread] at h
    cases h
  | ok keyData =>
    rw [hread] at h
    refine ⟨keyData, FileSystem.readFile_eq_ok.mp hread, ?_⟩
    cases saved with
    | done => rfl
    | refused msg => cases h
    | cut n msg => cases h

theorem writeKey_snd (fs : FileSystem) (data : Bytes) (saved : WriteOutcome) :
    (writeKey fs data saved).2 = ((saved.written data).map (fs.put keyPath)).getD fs := by
  cases saved <;> rfl

theorem restoreKey_snd (fs : FileSystem) (path : Bytes) (renamed : Except Bytes Unit)
    (saved : WriteOutcome) :
    (restoreReplaces fs path renamed saved = none ∧ (restoreKey fs path renamed saved).2 = fs) ∨
    (∃ data, restoreReplaces fs path renamed saved = some ⟨keyPath, some data⟩ ∧
      (restoreKey fs path renamed saved).2 = fs.put keyPath data) ∨
    ∃ file written, fs.get? keyPath = some file ∧
      restoreReplaces fs path renamed saved = some ⟨oldPath, written⟩ ∧
      (restoreKey fs path renamed saved).2 = (written.map ((fs.rename keyPath oldPath).put keyPath)
        ).getD (fs.rename keyPath oldPath) := by
  rw [restoreKey, restoreReplaces]
  by_cases hlen : maxPath < path.length
  · rw [if_pos hlen, if_pos hlen]
    exact Or.inl ⟨rfl, rfl⟩
  rw [if_neg hlen, if_neg hlen]
  by_cases hnone : (fs.get? path).isNone = true
  · obtain ⟨msg, hread⟩ := readFile_of_none (Option.isNone_iff_eq_none.mp hnone)
    rw [if_pos hnone, hread]
    exact Or.inl ⟨rfl, rfl⟩
  rw [if_neg hnone]
  cases fs.readFile path with
  | error msg => exact Or.inl ⟨rfl, rfl⟩
  | ok backupData =>
    dsimp only
    cases hkey : fs.get? keyPath with
    | some file =>
      rw [Option.isSome_some, if_pos rfl, if_pos rfl]
      cases renamed with
      | error msg => exact Or.inl ⟨rfl, rfl⟩
      | ok _ => exact Or.inr (Or.inr ⟨file, _, rfl, rfl, writeKey_snd _ _ _⟩)
    | none =>
      rw [Option.isSome_none, if_neg Bool.false_ne_true, if_neg Bool.false_ne_true, writeKey_snd]
      cases saved.written backupData with
      | none => exact Or.inl ⟨rfl, rfl⟩
      | some data => exact Or.inr (Or.inl ⟨data, rfl, rfl⟩)

section

variable {fs : FileSystem} {c : KeyCommand}

theorem KeyCommand.run_of_replaces_none (h : c.replaces fs = none) : c.run fs = fs := by
  cases c with
  | backup now saved =>
    obtain ⟨_, hsnd⟩ | ⟨data, hsome, _⟩ := backupKey_snd fs now saved
    · exact hsnd
    · cases h.symm.trans hsome
  | restore path renamed saved =>
    obtain ⟨_, hsnd⟩ | ⟨data, hsome, _⟩ | ⟨file, written, _, hsome, _⟩ :=
      restoreKey_snd fs path renamed saved
    · exact hsnd
    · cases h.symm.trans hsome
    · cases h.symm.trans hsome
  | rotate key => cases h

/-- **The keys that are left after a command** are those of the files that it did not replace, and
the one that it wrote. -/
theorem held_run_iff {r : Replacement} (h : c.replaces fs = some r) (k : Bytes) :
    held (c.run fs) k = true ↔
      heldElsewhere fs r.path k = true ∨ r.written.bind keyOf = some k := by
  cases c with
  | backup now saved =>
    obtain ⟨hnone, _⟩ | ⟨data, hsome, hsnd⟩ := backupKey_snd fs now saved
    · cases h.symm.trans hnone
    · cases h.symm.trans hsome
      rw [KeyCommand.run, hsnd]
      exact held_put_iff (isKeyName_backupPath now)
  | restore path renamed saved =>
    obtain ⟨hnone, _⟩ | ⟨data, hsome, hsnd⟩ | ⟨file, written, hfile, hsome, hsnd⟩ :=
      restoreKey_snd fs path renamed saved
    · cases h.symm.trans hnone
    · cases h.symm.trans hsome
      rw [KeyCommand.run, hsnd]
      exact held_put_iff isKeyName_keyPath
    · cases h.symm.trans hsome
      -- what the rename replaces is the old file, and what the write replaces is then nothing
      rw [KeyCommand.run, hsnd, ← heldElsewhere_rename hfile]
      cases written with
      | some data => exact held_put_iff isKeyName_keyPath
      | none =>
        -- the key file is gone
        have hgone : keyIn (fs.rename keyPath oldPath) keyPath = none := by
          rw [keyIn, FileSystem.get?_rename hfile, if_neg (by decide), if_pos rfl]
          rfl
        rw [Option.map_none, Option.getD_none, held_iff_elsewhere_or isKeyName_keyPath, hgone]
        rfl
  | rotate key =>
    cases h
    exact held_put_iff isKeyName_keyPath

theorem isKeyName_of_replaces {r : Replacement} (h : c.replaces fs = some r) :
    isKeyName r.path = true := by
  cases c with
  | backup now saved =>
    obtain ⟨hnone, _⟩ | ⟨data, hsome, _⟩ := backupKey_snd fs now saved
    · cases h.symm.trans hnone
    · cases h.symm.trans hsome
      exact isKeyName_backupPath now
  | restore path renamed saved =>
    obtain ⟨hnone, _⟩ | ⟨data, hsome, _⟩ | ⟨file, written, _, hsome, _⟩ :=
      restoreKey_snd fs path renamed saved
    · cases h.symm.trans hnone
    · cases h.symm.trans hsome
      exact isKeyName_keyPath
    · cases h.symm.trans hsome
      exact isKeyName_oldPath
  | rotate key =>
    cases h
    exact isKeyName_keyPath

end

/-! ## Runs of commands -/

/-- The files, and the keys that the key file has had. -/
structure KeyHistory where
  files : FileSystem
  ever : List Bytes

namespace KeyHistory

def start (files : FileSystem) : KeyHistory := ⟨files, (keyIn files keyPath).toList⟩

def after (s : KeyHistory) (c : KeyCommand) : KeyHistory :=
  ⟨c.run s.files, s.ever ++ (keyIn (c.run s.files) keyPath).toList⟩

def step (s : KeyHistory) (c : KeyCommand) : Option KeyHistory := some (s.after c)

/-- Every key that the key file has had is in one of the files. -/
def Kept (s : KeyHistory) : Prop := ∀ k ∈ s.ever, held s.files k = true

/-- No key is lost by the commands, nor in between. -/
def AlwaysKept (s : KeyHistory) (commands : List KeyCommand) : Prop :=
  ∀ done s', done <+: commands → runSteps step s done = some s' → s'.Kept

/-- If the file that is replaced has a key that the key file has had, then so has another of the
files, or it is the key that is written. -/
def replaceable (s : KeyHistory) (r : Replacement) : Bool :=
  (keyIn s.files r.path).all fun k =>
    !decide (k ∈ s.ever) || heldElsewhere s.files r.path k || r.written.bind keyOf = some k

/-- The command does not replace the only copy of a key. -/
def safe (s : KeyHistory) (c : KeyCommand) : Bool := (c.replaces s.files).all s.replaceable

theorem kept_start (files : FileSystem) : (start files).Kept := by
  intro k hk
  rw [start, Option.mem_toList] at hk
  exact held_iff.mpr ⟨keyPath, isKeyName_keyPath, hk⟩

variable {s : KeyHistory} {c : KeyCommand}

/-- The keys are kept by a command if those that were there before are. -/
theorem kept_after_iff :
    (s.after c).Kept ↔ ∀ k ∈ s.ever, held (c.run s.files) k = true := by
  refine ⟨fun h k hk => h k (List.mem_append_left _ hk), fun h k hk => ?_⟩
  rcases List.mem_append.mp hk with hold | hnew
  · exact h k hold
  · rw [Option.mem_toList] at hnew
    exact held_iff.mpr ⟨keyPath, isKeyName_keyPath, hnew⟩

theorem replaceable_iff {r : Replacement} :
    s.replaceable r = true ↔ ∀ k ∈ s.ever, keyIn s.files r.path = some k →
      heldElsewhere s.files r.path k = true ∨ r.written.bind keyOf = some k := by
  rw [replaceable, Option.all_eq_true]
  simp only [Bool.or_assoc, Bool.or_eq_true, Bool.not_eq_true', decide_eq_false_iff_not,
    decide_eq_true_eq, ← imp_iff_not_or]
  exact ⟨fun h k hk hin => h k hin hk, fun h k hin hk => h k hk hin⟩

/-- The condition says of each command whether it loses a key. -/
theorem safe_iff (h : s.Kept) : s.safe c = true ↔ (s.after c).Kept := by
  rw [safe, kept_after_iff]
  cases hr : c.replaces s.files with
  | none =>
    rw [c.run_of_replaces_none hr]
    exact iff_of_true rfl h
  | some r =>
    rw [Option.all_some, replaceable_iff]
    refine forall₂_congr fun k hk => ?_
    rw [held_run_iff hr]
    refine ⟨fun hsafe => ?_, fun hafter _ => hafter⟩
    rcases (held_iff_elsewhere_or (isKeyName_of_replaces hr)).mp (h k hk) with hother | hhere
    · exact Or.inl hother
    · exact hsafe hhere

/-- A rotation right after a backup is safe. -/
theorem safe_rotate_of_backup {now : Time} {saved : WriteOutcome}
    (h : (backupKey s.files now saved).1 = .ok ()) (key : KeyPair) :
    (s.after (.backup now saved)).safe (.rotate key) = true := by
  obtain ⟨keyData, hfile, hsnd⟩ := backupKey_ok h
  have hne := backupPath_ne_keyPath now
  have hfiles : (s.after (.backup now saved)).files = s.files.put (backupPath now) keyData := hsnd
  rw [safe, KeyCommand.replaces, Option.all_some, replaceable_iff]
  intro k _ hk
  rw [hfiles] at hk ⊢
  rw [keyIn_put_of_ne hne.symm, keyIn, hfile, Option.bind_some] at hk
  exact Or.inl (heldElsewhere_iff.mpr
    ⟨backupPath now, ⟨isKeyName_backupPath now, hne⟩, (keyIn_put _ _ _).trans hk⟩)

/-- **When no key is ever lost.** Whatever the commands and their times, each key that the key file
has had is still in one of the files, at every point, exactly if no command replaces the only file
that has one of them. -/
theorem keys_kept_iff (files : FileSystem) (commands : List KeyCommand) :
    (start files).AlwaysKept commands ↔ along step safe (start files) commands = true := by
  have hstep : ∀ {s : KeyHistory} {c : KeyCommand}, s.Kept →
      (s.safe c = true ↔ ∀ s', s.step c = some s' → s'.Kept) := by
    intro s c h
    rw [safe_iff h, step]
    simp only [Option.some.injEq, forall_eq']
  exact (along_iff Kept hstep (kept_start files)).symm

/-- What is evaluated for a run that loses a key. -/
theorem not_alwaysKept {s : KeyHistory} {commands : List KeyCommand}
    (h : (runSteps step s commands).any (fun s' => s'.ever.any fun k => !held s'.files k) = true) :
    ¬ s.AlwaysKept commands := by
  intro hkept
  obtain ⟨s', hrun, hlost⟩ := (Option.any_eq_true _ _).mp h
  obtain ⟨k, hk, hnot⟩ := List.any_eq_true.mp hlost
  rw [hkept commands s' (List.prefix_refl _) hrun k hk] at hnot
  cases hnot

end KeyHistory

/-- The key of the recorder, and no other file. -/
def recordedFiles : FileSystem := SortedMap.ofList [(keyPath, { data := hexEncode recordedKey })]

/-- The second in which the backups of the runs below are made. -/
def backupTime : Time where
  year := 2026
  month := 1
  day := 27
  hour := 14
  minute := 30
  second := 22
  nanos := 0
  offset := 0
  valid := by decide

/-- The key is backed up before it is rotated, and the next backup is made in the same second. -/
def sameSecond : List KeyCommand :=
  [.backup backupTime .done, .rotate rotatedPair, .backup backupTime .done]

/-- The rotated key is restored twice. -/
def twoRestores : List KeyCommand :=
  [.backup backupTime .done, .rotate rotatedPair, .restore (backupPath backupTime) (.ok ()) .done,
    .restore (backupPath backupTime) (.ok ()) .done]

/-- **A key is lost**: the first one, when a backup has the name of the last, and the second one,
when the file with the old key is replaced. -/
theorem key_lost :
    ¬ (KeyHistory.start recordedFiles).AlwaysKept sameSecond ∧
    ¬ (KeyHistory.start recordedFiles).AlwaysKept twoRestores :=
  ⟨KeyHistory.not_alwaysKept (by decide +kernel), KeyHistory.not_alwaysKept (by decide +kernel)⟩

end Logryph
