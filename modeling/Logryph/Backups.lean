import Logryph.KeyCommands

/-!
# Listing the backups

`logyctl list-backups` reads the directory and shows the files that it takes for backups. It knows
them by a name without an extension whose first 17 bytes are `.logryph_key.backup`, which has 19;
and the name of a backup ends with its time, which is an extension. So no file passes.

* `isBackupName_iff` — the names that `BackupKeyCommand` gives, and how they are recognised
* `isListed_eq_false`, `fileExt_backupPath` — the test fails twice for every backup
* `listBackups_iff` — the directories whose backups are listed are those without any
-/

namespace Logryph

open Infra

/-- `fs.FileInfo`, as far as it is shown. -/
structure FileInfo where
  size : Nat
  modTime : Time

/-- `os.DirEntry`. There is no `Info` of a file that is gone by then. -/
structure DirEntry where
  name : Bytes
  info : Option FileInfo

def maxFiles : Nat := 1000

/-- The test for a backup. -/
def isListed (name : Bytes) : Bool :=
  fileExt name = [] && (17 < name.length && name.take 17 = lit ".logryph_key.backup")

/-- `ModTime().Format("2006-01-02 15:04:05")`. -/
def modTimeText (t : Time) : Bytes :=
  utf8 (Time.padInt 4 t.year ++ '-' :: (Time.pad 2 t.month ++ '-' :: (Time.pad 2 t.day ++
    ' ' :: (Time.pad 2 t.hour ++ ':' :: (Time.pad 2 t.minute ++ ':' :: Time.pad 2 t.second)))))

/-- The line of a backup. -/
def backupLine (entry : DirEntry) : Option Bytes :=
  entry.info.map fun info => entry.name ++ lit " (" ++ natText info.size ++ lit " bytes, " ++
    modTimeText info.modTime ++ lit ")\n"

/-- What is printed for the backups. -/
def backupListing (backups : List DirEntry) : List Bytes :=
  if backups.isEmpty then [lit "No key backups found\n"]
  else lit "Key Backups\n" :: lit "===========\n" :: backups.filterMap backupLine

/-- `ListBackupsCommand`. The error is the text that is printed before the exit. -/
def listBackups : Except Bytes (List DirEntry) → Except Bytes (List Bytes)
  | .error msg => .error (lit "Error: Failed to read directory: " ++ msg)
  | .ok files => .ok (backupListing ((files.take maxFiles).filter fun file => isListed file.name))

/-! ## The names of backups -/

/-- The time in the name of a backup: year, month and day, and the clock. -/
def readStamp (cs : List Char) : Option Time := do
  let (year, cs) ← Time.readDigits 4 cs
  let (month, cs) ← Time.readDigits 2 cs
  let (day, cs) ← Time.readDigits 2 cs
  let cs ← Time.skip 'T' cs
  let (hour, cs) ← Time.readDigits 2 cs
  let (minute, cs) ← Time.readDigits 2 cs
  let (second, _) ← Time.readDigits 2 cs
  if h : 1 ≤ month ∧ month ≤ 12 ∧ 1 ≤ day ∧ day ≤ daysIn month year ∧ hour < 24 ∧ minute < 60 ∧
      second < 60 ∧ 0 < 10 ^ 9 then
    some ⟨year, month, day, hour, minute, second, 0, 0, h⟩
  else none

/-- The name is that of a backup: it is the one that is written for the time that it shows. -/
def isBackupName (name : Bytes) : Bool :=
  (readStamp (runes (name.drop backupPrefix.length))).any fun now =>
    decide (now.year ≤ 9999) && decide (name = backupPath now)

/-- The time of a name, without what the name does not show. -/
def stampOf (t : Time) : Time where
  year := t.year
  month := t.month
  day := t.day
  hour := t.hour
  minute := t.minute
  second := t.second
  nanos := 0
  offset := 0
  valid := by
    have h := t.valid
    omega

theorem backupPath_stampOf (t : Time) : backupPath (stampOf t) = backupPath t := rfl

theorem readStamp_backupPath {t : Time} (h0 : 0 ≤ t.year) (h1 : t.year ≤ 9999) :
    readStamp (runes ((backupPath t).drop backupPrefix.length)) = some (stampOf t) := by
  obtain ⟨hm1, hm, hd1, hd, hh, hmin, hs, hn⟩ := t.valid
  have hday := Time.daysIn_le t.month t.year
  have hyear : ((t.year.natAbs : Nat) : Int) = t.year := by omega
  rw [backupPath, List.drop_left, runes_utf8]
  unfold readStamp Time.padInt
  rw [if_neg (by omega), List.append_assoc, List.append_assoc,
    Time.readDigits_pad (by omega) (by omega)]
  simp only [Option.bind_eq_bind, Option.bind_some]
  rw [Time.readDigits_pad (by omega) (by omega)]
  simp only [Option.bind_some]
  rw [Time.readDigits_pad (by omega) (by omega)]
  simp only [Option.bind_some, Time.skip_cons, List.append_assoc]
  rw [Time.readDigits_pad (by omega) (by omega)]
  simp only [Option.bind_some]
  rw [Time.readDigits_pad (by omega) (by omega)]
  simp only [Option.bind_some]
  rw [Time.readDigits_pad (by omega) (by omega)]
  simp only [Option.bind_some, hyear]
  exact dif_pos (stampOf t).valid

/-- **The names that are recognised are those that `BackupKeyCommand` writes**, in the years that
have four digits. -/
theorem isBackupName_iff {name : Bytes} : isBackupName name = true ↔
    ∃ now : Time, 0 ≤ now.year ∧ now.year ≤ 9999 ∧ name = backupPath now := by
  constructor
  · intro h
    obtain ⟨now, hread, hnow⟩ := (Option.any_eq_true _ _).mp h
    simp only [Bool.and_eq_true, decide_eq_true_eq] at hnow
    refine ⟨now, ?_, hnow.1, hnow.2⟩
    -- the year was read from digits
    unfold readStamp at hread
    simp only [Option.bind_eq_bind, Option.bind_eq_some_iff] at hread
    obtain ⟨⟨year, _⟩, -, _, -, _, -, _, -, _, -, _, -, _, -, hread⟩ := hread
    split at hread
    · cases hread
      exact Int.natCast_nonneg year
    · cases hread
  · rintro ⟨now, h0, h1, rfl⟩
    rw [isBackupName, readStamp_backupPath h0 h1, Option.any_some, backupPath_stampOf]
    simp only [decide_true, Bool.and_true, decide_eq_true_eq]
    exact h1

/-! ## The test -/

/-- Seventeen bytes are never nineteen. -/
theorem isListed_eq_false (name : Bytes) : isListed name = false := by
  have hne : name.take 17 ≠ lit ".logryph_key.backup" := by
    intro h
    have hlen := congrArg List.length h
    rw [List.length_take] at hlen
    have h19 : (lit ".logryph_key.backup").length = 19 := rfl
    omega
  simp [isListed, hne]

/-- The time of a backup counts as an extension of its name, so with the right length the test
would fail, too. -/
theorem fileExt_backupPath (now : Time) : fileExt (backupPath now) ≠ [] := by
  have hslash : ∀ c : Char, c.isDigit = true ∨ c = '-' ∨ c = 'T' ∨ c = 'Z' → c.toNat ≠ 0x2F := by
    rintro c (hc | rfl | rfl | rfl)
    · have := toNat_of_isDigit hc
      omega
    · decide
    · decide
    · decide
  have hyear : ∀ c ∈ Time.padInt 4 now.year, c.isDigit = true ∨ c = '-' := by
    intro c hc
    unfold Time.padInt at hc
    split at hc
    · rcases List.mem_cons.mp hc with rfl | hc
      · exact Or.inr rfl
      · exact Or.inl (Time.isDigit_pad c hc)
    · exact Or.inl (Time.isDigit_pad c hc)
  have hdot : backupPath now = lit ".logryph_key.backup" ++ 0x2E :: (backupPath now).drop 20 := rfl
  rw [hdot]
  refine fileExt_ne_nil fun b hb heq => ?_
  refine not_mem_utf8 (b := 0x2F) (by decide) (fun c hc => hslash c ?_) (heq ▸ hb)
  simp only [List.mem_append, List.mem_cons, List.not_mem_nil, or_false] at hc
  rcases hc with ((hc | hc) | hc) | hc | ((hc | hc) | hc) | hc
  · exact (hyear c hc).imp_right Or.inl
  · exact Or.inl (Time.isDigit_pad c hc)
  · exact Or.inl (Time.isDigit_pad c hc)
  · exact Or.inr (Or.inr (Or.inl hc))
  · exact Or.inl (Time.isDigit_pad c hc)
  · exact Or.inl (Time.isDigit_pad c hc)
  · exact Or.inl (Time.isDigit_pad c hc)
  · exact Or.inr (Or.inr (Or.inr hc))

theorem listBackups_eq (files : List DirEntry) :
    listBackups (.ok files) = .ok [lit "No key backups found\n"] := by
  have hnone : (files.take maxFiles).filter (fun file => isListed file.name) = [] := by
    simp [isListed_eq_false]
  rw [listBackups, hnone]
  rfl

/-- Only an empty listing says that there are no backups. -/
theorem backupListing_eq_none {backups : List DirEntry} :
    backupListing backups = [lit "No key backups found\n"] ↔ backups = [] := by
  cases backups with
  | nil => simp [backupListing]
  | cons entry backups => simp [backupListing]

/-- **The backups are listed only if there are none.** What is printed for a directory is the
listing of the entries that are named as backups if and only if no entry is. -/
theorem listBackups_iff (files : List DirEntry) :
    listBackups (.ok files)
        = .ok (backupListing (files.filter fun file => isBackupName file.name)) ↔
      ∀ file ∈ files, ¬ ∃ now : Time, 0 ≤ now.year ∧ now.year ≤ 9999 ∧
        file.name = backupPath now := by
  simp only [← isBackupName_iff]
  rw [listBackups_eq, Except.ok.injEq, eq_comm, backupListing_eq_none, List.filter_eq_nil_iff]

/-- The directory of the documentation, with two backups that were made at these times. -/
def documentedDirectory : List DirEntry :=
  [⟨lit ".logryph_key", none⟩,
    ⟨lit ".logryph_key.backup.20260120T091500Z", some ⟨64, backupTime⟩⟩,
    ⟨lit ".logryph_key.backup.20260127T143022Z", some ⟨64, backupTime⟩⟩]

/-- **Two backups are not found again.** -/
theorem listBackups_misses :
    documentedDirectory.length ≤ 1000 ∧
      (documentedDirectory.map fun file => isBackupName file.name) = [false, true, true] ∧
      listBackups (.ok documentedDirectory) = .ok [lit "No key backups found\n"] ∧
      listBackups (.ok documentedDirectory) ≠ .ok (backupListing
        (documentedDirectory.filter fun file => isBackupName file.name)) := by
  refine ⟨by decide, by decide +kernel, listBackups_eq _, fun h => ?_⟩
  rw [listBackups_eq, Except.ok.injEq, eq_comm, backupListing_eq_none, ← List.isEmpty_iff] at h
  exact absurd h (by decide +kernel)

end Logryph
