import Logryph.Infra.Bytes
import Logryph.Infra.SortedMap

/-!
# Files

A directory of files, with the operations of Go's `os` package that read and write a file as a
whole. `os.WriteFile` opens the file, which truncates it, and writes to it then; so there are two
ways for it to fail.

* `readFile`, `writeFile`, `rename` — the operations
* `put_eq_self_iff` — when a write leaves the file as it was
* `get?_put_of_ne`, `get?_rename` — what becomes of the other files
* `fileExt` — the extension of a name
-/

namespace Infra

/-- A file. The mode says whether it can be read. -/
structure File where
  data : Bytes
  readable : Bool := true
  deriving DecidableEq

abbrev FileSystem := SortedMap Bytes File

/-- How a write ends. -/
inductive WriteOutcome where
  | done
  /-- The file cannot be opened. -/
  | refused (msg : Bytes)
  /-- The file was truncated, and the write fails after some bytes. -/
  | cut (n : Nat) (msg : Bytes)

/-- The bytes that a write leaves in the file, if it gets as far as to change it. -/
def WriteOutcome.written (data : Bytes) : WriteOutcome → Option Bytes
  | done => some data
  | refused _ => none
  | cut n _ => some (data.take n)

/-- What a write returns. -/
def WriteOutcome.result : WriteOutcome → Except Bytes Unit
  | done => .ok ()
  | refused msg => .error msg
  | cut _ msg => .error msg

/-! ## Names -/

/-- The loop of `filepath.Ext`, from the last byte of the name on. -/
def extFrom (ext : Bytes) : Bytes → Bytes
  | [] => []
  | b :: bs =>
    if b = 0x2F then []
    else if b = 0x2E then b :: ext
    else extFrom (b :: ext) bs

/-- `filepath.Ext`. -/
def fileExt (path : Bytes) : Bytes := extFrom [] path.reverse

theorem extFrom_ne_nil {after : Bytes} : ∀ {before ext : Bytes}, (∀ b ∈ before, b ≠ 0x2F) →
    extFrom ext (before ++ 0x2E :: after) ≠ []
  | [], ext, _ => by simp [extFrom]
  | b :: before, ext, h => by
    rw [List.forall_mem_cons] at h
    rw [List.cons_append, extFrom, if_neg h.1]
    split
    · simp
    · exact extFrom_ne_nil h.2

/-- A dot with no separator after it starts an extension. -/
theorem fileExt_ne_nil {stem ext : Bytes} (h : ∀ b ∈ ext, b ≠ 0x2F) :
    fileExt (stem ++ 0x2E :: ext) ≠ [] := by
  rw [fileExt, List.reverse_append, List.reverse_cons, List.append_assoc]
  exact extFrom_ne_nil fun b hb => h b (List.mem_reverse.mp hb)

namespace FileSystem

variable (fs : FileSystem) (path : Bytes)

/-- `os.ReadFile`. -/
def readFile : Except Bytes Bytes :=
  match fs.get? path with
  | none => .error (lit "no such file or directory")
  | some file => if file.readable then .ok file.data else .error (lit "permission denied")

/-- The file with other bytes. A file that is there keeps its mode, and a new one can be read. -/
def put (data : Bytes) : FileSystem :=
  match fs.get? path with
  | none => fs.insert path { data }
  | some file => fs.insert path { file with data }

/-- `os.WriteFile`. -/
def writeFile (data : Bytes) (outcome : WriteOutcome) : Except Bytes Unit × FileSystem :=
  (outcome.result, ((outcome.written data).map (fs.put path)).getD fs)

/-- `os.Rename`, when it succeeds. The file that had the new name is gone. -/
def rename (newPath : Bytes) : FileSystem :=
  match fs.get? path with
  | none => fs
  | some file => (fs.erase path).insert newPath file

variable {fs path}

theorem readFile_eq_ok {data : Bytes} :
    fs.readFile path = .ok data ↔ fs.get? path = some { data } := by
  unfold readFile
  cases fs.get? path with
  | none => simp
  | some file =>
    obtain ⟨bytes, readable⟩ := file
    cases readable with
    | true => simp
    | false => simp

theorem get?_put_of_ne {other data : Bytes} (h : other ≠ path) :
    (fs.put path data).get? other = fs.get? other := by
  unfold put
  split
  · rw [SortedMap.get?_insert, if_neg h]
  · rw [SortedMap.get?_insert, if_neg h]

theorem data_put (data : Bytes) : ((fs.put path data).get? path).map File.data = some data := by
  unfold put
  split
  · rw [SortedMap.get?_insert, if_pos rfl]
    rfl
  · rw [SortedMap.get?_insert, if_pos rfl]
    rfl

/-- Putting back what is there changes nothing. -/
theorem put_eq_self_iff {data : Bytes} :
    (fs.put path data).get? path = fs.get? path ↔ (fs.get? path).map File.data = some data := by
  constructor
  · intro h
    rw [← h]
    exact data_put data
  · intro h
    unfold put
    cases hfile : fs.get? path with
    | none =>
      rw [hfile] at h
      cases h
    | some file =>
      rw [hfile, Option.map_some, Option.some.injEq] at h
      dsimp only
      rw [SortedMap.get?_insert, if_pos rfl, ← h]

/-- A new file can be read. -/
theorem readFile_put_of_none {data : Bytes} (h : fs.get? path = none) :
    (fs.put path data).readFile path = .ok data := by
  rw [readFile_eq_ok, put, h]
  dsimp only
  rw [SortedMap.get?_insert, if_pos rfl]

theorem get?_rename {newPath : Bytes} {file : File} (h : fs.get? path = some file) (other : Bytes) :
    (fs.rename path newPath).get? other =
      if other = newPath then some file else if other = path then none else fs.get? other := by
  rw [rename, h]
  dsimp only
  rw [SortedMap.get?_insert, SortedMap.get?_erase]
  by_cases hnew : other = newPath
  · rw [if_pos hnew, if_pos hnew]
  · rw [if_neg hnew, if_neg hnew]
    by_cases hold : other = path
    · rw [if_pos hold, if_pos hold]
    · rw [if_neg hold, if_neg hold]

end FileSystem

end Infra
