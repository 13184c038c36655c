import Logryph.Infra.FileSystem
import Logryph.Ledger

/-!
# The key file

`NewSigner` loads the private key from its file. Whatever goes wrong with that, it takes the file
for missing: it generates a key and writes it to the path.

* `loadPrivateKey_eq_ok` — the files that have a key in them
* `newSigner_safe_iff` — when opening a signer leaves a file as it is and gives its key
* `newSigner_overwrites` — a newline at the end of the file is enough to lose the key
-/

namespace Logryph

open Infra

def privateKeySize : Nat := 64

/-- `Public`: the public key is the second half of the private one. -/
def publicHalf (privateKey : Bytes) : Bytes := privateKey.drop 32

/-- A private key as `ed25519.GenerateKey` makes it. -/
structure KeyPair where
  privateKey : Bytes
  length_eq : privateKey.length = privateKeySize

def KeyPair.publicKey (k : KeyPair) : Bytes := publicHalf k.privateKey

/-- The signer of a key pair. -/
def KeyPair.signer (k : KeyPair) : Signer := ⟨k.privateKey, k.publicKey⟩

/-! ## Loading and saving -/

/-- `loadPrivateKey`. -/
def loadPrivateKey (fs : FileSystem) (path : Bytes) : Except Bytes Bytes :=
  match fs.readFile path with
  | .error msg => .error msg
  | .ok data =>
    match hexDecode data with
    | none => .error (lit "decoding key: invalid text")
    | some keyBytes =>
      if keyBytes.length ≠ privateKeySize then
        .error (lit "invalid key size: expected 64, got " ++ natText keyBytes.length)
      else .ok keyBytes

/-- `savePrivateKey`. -/
def savePrivateKey (fs : FileSystem) (path key : Bytes) (outcome : WriteOutcome) :
    Except Bytes Unit × FileSystem :=
  fs.writeFile path (hexEncode key) outcome

/-- The key that the bytes of a file encode. -/
def keyOf (data : Bytes) : Option Bytes :=
  (hexDecode data).filter fun key => key.length = privateKeySize

theorem keyOf_eq_some {data key : Bytes} :
    keyOf data = some key ↔ hexDecode data = some key ∧ key.length = privateKeySize := by
  rw [keyOf, Option.filter_eq_some_iff, decide_eq_true_eq]

@[simp] theorem KeyPair.keyOf_hexEncode (k : KeyPair) :
    keyOf (hexEncode k.privateKey) = some k.privateKey :=
  keyOf_eq_some.mpr ⟨hexDecode_hexEncode _, k.length_eq⟩

/-- **The files with a key**: those that can be read and hold its digits, and nothing else. -/
theorem loadPrivateKey_eq_ok {fs : FileSystem} {path key : Bytes} :
    loadPrivateKey fs path = .ok key ↔
      ∃ data, fs.get? path = some { data } ∧ keyOf data = some key := by
  unfold loadPrivateKey
  simp only [← FileSystem.readFile_eq_ok, keyOf_eq_some]
  cases fs.readFile path with
  | error msg => simp
  | ok data =>
    simp only [Except.ok.injEq, exists_eq_left']
    cases hexDecode data with
    | none => simp
    | some keyBytes =>
      by_cases hlen : keyBytes.length = privateKeySize
      · simp only [ne_eq, hlen, not_true_eq_false, if_false, Except.ok.injEq, Option.some.injEq]
        constructor
        · rintro rfl
          exact ⟨rfl, hlen⟩
        · exact And.left
      · simp only [ne_eq, hlen, not_false_eq_true, if_true, reduceCtorEq, Option.some.injEq,
          false_iff, not_and]
        rintro rfl
        exact hlen

/-! ## Opening a signer -/

/-- What opening a signer takes from outside. -/
structure OpenEnv where
  generated : Except Bytes KeyPair
  saved : WriteOutcome

/-- `NewSigner`. -/
def newSigner (env : OpenEnv) (fs : FileSystem) (keyPath : Bytes) :
    Except Fault Signer × FileSystem :=
  match loadPrivateKey fs keyPath with
  | .error _ =>
    match env.generated with
    | .error msg => (.error (.error (lit "generating keypair: " ++ msg)), fs)
    | .ok key =>
      match savePrivateKey fs keyPath key.privateKey env.saved with
      | (.error msg, fs) => (.error (.error (lit "saving private key: " ++ msg)), fs)
      | (.ok (), fs) => (.ok key.signer, fs)
  | .ok privateKey => (.ok ⟨privateKey, publicHalf privateKey⟩, fs)

/-- A file that is there is left alone, and its key is the signer's; and the signer is the same when
it is opened again. -/
structure OpensSafely (env : OpenEnv) (fs : FileSystem) (path : Bytes) : Prop where
  kept : (fs.get? path).isSome = true → (newSigner env fs path).2.get? path = fs.get? path
  loaded : (fs.get? path).isSome = true → ∀ s, (newSigner env fs path).1 = .ok s →
    loadPrivateKey fs path = .ok s.privateKey ∧ s.publicKey = publicHalf s.privateKey
  reopened : ∀ s, (newSigner env fs path).1 = .ok s →
    ∀ env', (newSigner env' (newSigner env fs path).2 path).1 = .ok s

/-- The file has a key in it. -/
def hasKey (file : File) : Bool := file.readable && (keyOf file.data).isSome

/-- No new key gets into the file: there is none, the file cannot be opened, or the write fails and
leaves the bytes that were there. -/
def OpenEnv.spares (env : OpenEnv) (data : Bytes) : Bool :=
  match env.generated with
  | .error _ => true
  | .ok key =>
    match env.saved with
    | .done => false
    | .refused _ => true
    | .cut n _ => (hexEncode key.privateKey).take n = data

section

variable {env : OpenEnv} {fs : FileSystem} {path : Bytes}

/-- What `NewSigner` can do. -/
inductive Opening (env : OpenEnv) (fs : FileSystem) (path : Bytes) :
    Except Fault Signer × FileSystem → Prop
  /-- The file has a key in it. -/
  | loaded {key : Bytes} (load : loadPrivateKey fs path = .ok key) :
      Opening env fs path (.ok ⟨key, publicHalf key⟩, fs)
  /-- No key is generated, or the file cannot be opened. -/
  | failed {f : Fault} (missing : ∀ key, loadPrivateKey fs path ≠ .ok key)
      (spares : ∀ data, env.spares data = true) : Opening env fs path (.error f, fs)
  /-- The write stops after some bytes. -/
  | cut {f : Fault} {written : Bytes} (missing : ∀ key, loadPrivateKey fs path ≠ .ok key)
      (spares : ∀ data, env.spares data = true ↔ data = written) :
      Opening env fs path (.error f, fs.put path written)
  | generated {key : KeyPair} (missing : ∀ key, loadPrivateKey fs path ≠ .ok key)
      (spares : ∀ data, env.spares data = false) :
      Opening env fs path (.ok key.signer, fs.put path (hexEncode key.privateKey))

theorem newSigner_cases (env : OpenEnv) (fs : FileSystem) (path : Bytes) :
    Opening env fs path (newSigner env fs path) := by
  unfold newSigner
  cases hload : loadPrivateKey fs path with
  | ok key => exact .loaded hload
  | error msg =>
    have hmissing : ∀ key, loadPrivateKey fs path ≠ .ok key := fun key hkey => by
      cases hload.symm.trans hkey
    cases hgen : env.generated with
    | error msg' => exact .failed hmissing fun data => by rw [OpenEnv.spares, hgen]
    | ok key =>
      cases hsaved : env.saved with
      | done => exact .generated hmissing fun data => by rw [OpenEnv.spares, hgen, hsaved]
      | refused msg' => exact .failed hmissing fun data => by rw [OpenEnv.spares, hgen, hsaved]
      | cut n msg' =>
        refine .cut hmissing fun data => ?_
        rw [OpenEnv.spares, hgen, hsaved]
        exact decide_eq_true_iff.trans eq_comm

theorem newSigner_of_load {key : Bytes} (h : loadPrivateKey fs path = .ok key) :
    newSigner env fs path = (.ok ⟨key, publicHalf key⟩, fs) := by
  rw [newSigner, h]

theorem hasKey_iff {file : File} (hfile : fs.get? path = some file) :
    hasKey file = true ↔ ∃ key, loadPrivateKey fs path = .ok key := by
  simp only [loadPrivateKey_eq_ok, hfile, hasKey, Bool.and_eq_true, Option.isSome_iff_exists,
    Option.some.injEq]
  constructor
  · rintro ⟨hread, key, hkey⟩
    exact ⟨key, file.data, by rw [← hread], hkey⟩
  · rintro ⟨key, data, rfl, hkey⟩
    exact ⟨rfl, key, hkey⟩

theorem hasKey_ne {file : File} (hfile : fs.get? path = some file)
    (h : ∀ key, loadPrivateKey fs path ≠ .ok key) : hasKey file ≠ true := by
  intro hkey
  obtain ⟨key, hkey⟩ := (hasKey_iff hfile).mp hkey
  exact h key hkey

/-- A call that fails is safe if it leaves the file as it was. -/
theorem opensSafely_of_error {f : Fault} {fs' : FileSystem}
    (h : newSigner env fs path = (.error f, fs')) :
    OpensSafely env fs path ↔ ((fs.get? path).isSome = true → fs'.get? path = fs.get? path) := by
  constructor
  · intro hsafe
    have hkept := hsafe.kept
    rw [h] at hkept
    exact hkept
  · refine fun hkept => ⟨fun hfile => ?_, fun _ s hs => ?_, fun s hs => ?_⟩
    · rw [h]
      exact hkept hfile
    · cases (congrArg Prod.fst h).symm.trans hs
    · cases (congrArg Prod.fst h).symm.trans hs

theorem opensSafely_of_load {key : Bytes} (h : loadPrivateKey fs path = .ok key) :
    OpensSafely env fs path := by
  have hnew : ∀ env, newSigner env fs path = (.ok ⟨key, publicHalf key⟩, fs) := fun _ =>
    newSigner_of_load h
  refine ⟨fun _ => ?_, fun _ s hs => ?_, fun s hs env' => ?_⟩
  · rw [hnew]
  · rw [hnew] at hs
    cases hs
    exact ⟨h, rfl⟩
  · rw [hnew] at hs ⊢
    rw [hnew]
    exact hs

/-- A call that writes a new key is safe if there was no file. -/
theorem opensSafely_of_generated {key : KeyPair}
    (hnew : newSigner env fs path = (.ok key.signer, fs.put path (hexEncode key.privateKey)))
    (hmissing : ∀ key, loadPrivateKey fs path ≠ .ok key) :
    OpensSafely env fs path ↔ fs.get? path = none := by
  constructor
  · intro h
    cases hfile : fs.get? path with
    | none => rfl
    | some file =>
      -- a key is returned that did not come from the file
      have hkey := h.loaded (by rw [hfile]; rfl) key.signer (congrArg Prod.fst hnew)
      exact absurd hkey.1 (hmissing _)
  · intro hfile
    refine ⟨fun h => ?_, fun h => ?_, fun s hs env' => ?_⟩
    · rw [hfile] at h
      cases h
    · rw [hfile] at h
      cases h
    · rw [hnew] at hs ⊢
      cases hs
      have hread : loadPrivateKey (fs.put path (hexEncode key.privateKey)) path
          = .ok key.privateKey :=
        loadPrivateKey_eq_ok.mpr ⟨_, FileSystem.readFile_eq_ok.mp
          (FileSystem.readFile_put_of_none hfile), key.keyOf_hexEncode⟩
      exact congrArg Prod.fst (newSigner_of_load hread)

/-- **When opening a signer is safe.** There is no file yet, or it has a key in it, or else no new
key gets into it. -/
theorem newSigner_safe_iff (env : OpenEnv) (fs : FileSystem) (path : Bytes) :
    OpensSafely env fs path ↔ ∀ file, fs.get? path = some file →
      hasKey file = true ∨ env.spares file.data = true := by
  generalize hout : newSigner env fs path = out
  have hcases := newSigner_cases env fs path
  rw [hout] at hcases
  cases hcases with
  | @loaded key load =>
    exact iff_of_true (opensSafely_of_load load) fun file hfile =>
      Or.inl ((hasKey_iff hfile).mpr ⟨key, load⟩)
  | failed missing spares =>
    rw [opensSafely_of_error hout]
    exact iff_of_true (fun _ => rfl) fun file _ => Or.inr (spares _)
  | cut missing spares =>
    rw [opensSafely_of_error hout, FileSystem.put_eq_self_iff]
    cases hfile : fs.get? path with
    | none => simp
    | some file => simp [hasKey_ne hfile missing, spares]
  | generated missing spares =>
    rw [opensSafely_of_generated hout missing]
    cases hfile : fs.get? path with
    | none => simp
    | some file => simp [hasKey_ne hfile missing, spares]

end

def recordedPair : KeyPair := ⟨recordedKey, by decide +kernel⟩

def rotatedPair : KeyPair := ⟨rotatedKey, by decide +kernel⟩

def keyPath : Bytes := lit ".logryph_key"

/-- A key file that ends with a newline. -/
def newlineFiles : FileSystem :=
  SortedMap.ofList [(keyPath, { data := hexEncode recordedKey ++ lit "\n" })]

/-- **A key is lost**: the file is not understood, and another key is written over it. -/
theorem newSigner_overwrites :
    (newSigner ⟨.ok rotatedPair, .done⟩ newlineFiles keyPath).1 = .ok rotatedSigner ∧
    (newSigner ⟨.ok rotatedPair, .done⟩ newlineFiles keyPath).2.get? keyPath
      = some { data := hexEncode rotatedKey } ∧
    ¬ OpensSafely ⟨.ok rotatedPair, .done⟩ newlineFiles keyPath := by
  have hafter : (newSigner ⟨.ok rotatedPair, .done⟩ newlineFiles keyPath).2.get? keyPath
      = some { data := hexEncode rotatedKey } := by decide +kernel
  have hbefore : newlineFiles.get? keyPath
      = some { data := hexEncode recordedKey ++ lit "\n" } := by decide +kernel
  refine ⟨by decide +kernel, hafter, fun h => ?_⟩
  have hkept := h.kept (by rw [hbefore]; rfl)
  rw [hafter, hbefore] at hkept
  exact absurd hkept (by decide +kernel)

end Logryph
