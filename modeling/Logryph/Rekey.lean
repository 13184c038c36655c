import Logryph.Infra.Transition
import Logryph.KeyFile

/-!
# Rotations that overlap

`RotateKey` writes the new key to its file and assigns the two halves of it to the signer, without
a lock. `HandleRekey` runs in the goroutine of its request, so any number of rotations can be in
progress. `os.WriteFile` truncates the file before it writes to it.

* `Rekeying.step` — the rotations of a signer, in any order of their steps
* `rekey_alone` — without the others, the steps of a rotation are `RotateKey`
* `keys_agree_iff` — the key file and the signer agree exactly if one call was the last one to
  change each of them
* `keys_disagree` — two rotations that overlap, and a write that fails
-/

namespace Logryph

open Infra

/-- What a `RotateKey` does next, or how it has ended. -/
inductive RekeyPc where
  /-- `savePrivateKey`. -/
  | write (key : KeyPair)
  /-- The assignment to `privateKey`. -/
  | setPrivate (key : KeyPair)
  /-- The assignment to `publicKey`. -/
  | setPublic (key : KeyPair)
  | rotated (key : KeyPair)
  | failed (key : Option KeyPair)

/-- The key that the call has generated. -/
def RekeyPc.key : RekeyPc → Option KeyPair
  | write key => some key
  | setPrivate key => some key
  | setPublic key => some key
  | rotated key => some key
  | failed key => key

/-- The call has not ended. -/
def RekeyPc.inProgress : RekeyPc → Bool
  | rotated _ => false
  | failed _ => false
  | _ => true

/-- The key file, the signer, and every call of `RotateKey` so far. The last three fields are
records that the program does not keep: the call that was the last one to change the file, the
private and the public key. -/
structure Rekeying where
  files : FileSystem
  signer : Signer
  calls : List RekeyPc := []
  fileBy : Option Nat := none
  privateBy : Option Nat := none
  publicBy : Option Nat := none

inductive Rekeying.Action where
  /-- A `RotateKey` starts, and generates a key or not. -/
  | call (generated : Except Bytes KeyPair)
  /-- The `i`-th call goes on. If it writes the file, that ends in the given way. -/
  | go (i : Nat) (saved : WriteOutcome)

namespace Rekeying

variable (path : Bytes)

/-- One step of a call. -/
def goOn (s : Rekeying) (i : Nat) (saved : WriteOutcome) : RekeyPc → Option Rekeying
  | .write key =>
    match savePrivateKey s.files path key.privateKey saved with
    | (.error _, files) => some { s with
        files
        calls := s.calls.set i (.failed key)
        fileBy := if (saved.written []).isSome then some i else s.fileBy }
    | (.ok (), files) => some { s with
        files
        calls := s.calls.set i (.setPrivate key)
        fileBy := some i }
  | .setPrivate key => some { s with
      signer := { s.signer with privateKey := key.privateKey }
      calls := s.calls.set i (.setPublic key)
      privateBy := some i }
  | .setPublic key => some { s with
      signer := { s.signer with publicKey := key.publicKey }
      calls := s.calls.set i (.rotated key)
      publicBy := some i }
  | _ => none

/-- **One step**, if the action is possible. -/
def step (s : Rekeying) : Action → Option Rekeying
  | .call (.error _) => some { s with calls := s.calls ++ [.failed none] }
  | .call (.ok key) => some { s with calls := s.calls ++ [.write key] }
  | .go i saved => s.calls[i]?.bind (s.goOn path i saved)

/-! ## What a step does -/

/-- The steps, one by one. -/
inductive Step (s : Rekeying) : Action → Rekeying → Prop
  | call (generated : Except Bytes KeyPair) {pc : RekeyPc} :
      Step s (.call generated) { s with calls := s.calls ++ [pc] }
  | refuse {i : Nat} {key : KeyPair} {msg : Bytes} (before : s.calls[i]? = some (.write key)) :
      Step s (.go i (.refused msg)) { s with calls := s.calls.set i (.failed key) }
  | cut {i n : Nat} {key : KeyPair} {msg : Bytes} (before : s.calls[i]? = some (.write key)) :
      Step s (.go i (.cut n msg)) { s with
        files := s.files.put path ((hexEncode key.privateKey).take n)
        calls := s.calls.set i (.failed key)
        fileBy := some i }
  | save {i : Nat} {key : KeyPair} (before : s.calls[i]? = some (.write key)) :
      Step s (.go i .done) { s with
        files := s.files.put path (hexEncode key.privateKey)
        calls := s.calls.set i (.setPrivate key)
        fileBy := some i }
  | setPrivate {i : Nat} {key : KeyPair} {saved : WriteOutcome}
      (before : s.calls[i]? = some (.setPrivate key)) :
      Step s (.go i saved) { s with
        signer := { s.signer with privateKey := key.privateKey }
        calls := s.calls.set i (.setPublic key)
        privateBy := some i }
  | setPublic {i : Nat} {key : KeyPair} {saved : WriteOutcome}
      (before : s.calls[i]? = some (.setPublic key)) :
      Step s (.go i saved) { s with
        signer := { s.signer with publicKey := key.publicKey }
        calls := s.calls.set i (.rotated key)
        publicBy := some i }

theorem step_cases {s s' : Rekeying} {a : Action} (h : step path s a = some s') :
    Step path s a s' := by
  cases a with
  | call generated =>
    cases generated with
    | error msg =>
      cases h
      exact .call _
    | ok key =>
      cases h
      exact .call _
  | go i saved =>
    obtain ⟨pc, before, h⟩ := Option.bind_eq_some_iff.mp h
    cases pc with
    | write key =>
      cases saved with
      | done =>
        cases h
        exact .save before
      | refused msg =>
        cases h
        exact .refuse before
      | cut n msg =>
        cases h
        exact .cut before
    | setPrivate key =>
      cases h
      exact .setPrivate before
    | setPublic key =>
      cases h
      exact .setPublic before
    | rotated key => cases h
    | failed key => cases h

end Rekeying

/-! ## Where the keys come from -/

/-- The bytes are what the call has left in the file. -/
def RekeyPc.Left (data : Bytes) : RekeyPc → Prop
  | setPrivate key => data = hexEncode key.privateKey
  | setPublic key => data = hexEncode key.privateKey
  | rotated key => data = hexEncode key.privateKey
  | failed (some key) => ∃ n, data = (hexEncode key.privateKey).take n
  | _ => False

/-- The key that the call has assigned to `privateKey`. -/
def RekeyPc.assigned : RekeyPc → Option KeyPair
  | setPublic key => some key
  | rotated key => some key
  | _ => none

/-- What a call has done stays done. -/
structure RekeyPc.Later (pc pc' : RekeyPc) : Prop where
  left : ∀ {data}, pc.Left data → pc'.Left data
  assigned : ∀ {key}, pc.assigned = some key → pc'.assigned = some key
  rotated : ∀ {key}, pc = rotated key → pc' = rotated key

theorem RekeyPc.Later.refl (pc : RekeyPc) : pc.Later pc := ⟨id, id, id⟩

namespace Rekeying

variable (path : Bytes)

/-- The bytes of the key file. -/
def fileData (s : Rekeying) : Option Bytes := (s.files.get? path).map File.data

/-- The file is as the call has left it, or as it was at the start. -/
def FileFrom (s start : Rekeying) : Option Nat → Prop
  | none => s.fileData path = start.fileData path
  | some i => ∃ pc, s.calls[i]? = some pc ∧ ∃ data, s.fileData path = some data ∧ pc.Left data

def PrivateFrom (s start : Rekeying) : Option Nat → Prop
  | none => s.signer.privateKey = start.signer.privateKey
  | some i => ∃ pc key, s.calls[i]? = some pc ∧ pc.assigned = some key ∧
      s.signer.privateKey = key.privateKey

def PublicFrom (s start : Rekeying) : Option Nat → Prop
  | none => s.signer.publicKey = start.signer.publicKey
  | some i => ∃ key, s.calls[i]? = some (.rotated key) ∧ s.signer.publicKey = key.publicKey

/-- The records are right. -/
structure Sourced (start s : Rekeying) : Prop where
  file : s.FileFrom path start s.fileBy
  privateKey : s.PrivateFrom start s.privateBy
  publicKey : s.PublicFrom start s.publicBy

section

variable {path} {start s s' : Rekeying} {o : Option Nat}

/-- The calls after a step, one by one. -/
theorem later_of_step {a : Action} (h : Step path s a s') {i : Nat} {pc : RekeyPc}
    (hpc : s.calls[i]? = some pc) : ∃ pc', s'.calls[i]? = some pc' ∧ pc.Later pc' := by
  have hset : ∀ {j : Nat} {old new : RekeyPc}, s.calls[j]? = some old → old.Later new →
      ∃ pc', (s.calls.set j new)[i]? = some pc' ∧ pc.Later pc' := by
    intro j old new hold hlater
    by_cases hij : j = i
    · subst hij
      obtain ⟨hlt, -⟩ := List.getElem?_eq_some_iff.mp hold
      cases hpc.symm.trans hold
      exact ⟨new, List.getElem?_set_self hlt, hlater⟩
    · exact ⟨pc, (List.getElem?_set_ne hij).trans hpc, .refl pc⟩
  cases h with
  | call generated =>
    obtain ⟨hlt, -⟩ := List.getElem?_eq_some_iff.mp hpc
    exact ⟨pc, (List.getElem?_append_left hlt).trans hpc, .refl pc⟩
  | refuse before => exact hset before ⟨False.elim, by simp [RekeyPc.assigned], by simp⟩
  | cut before => exact hset before ⟨False.elim, by simp [RekeyPc.assigned], by simp⟩
  | save before => exact hset before ⟨False.elim, by simp [RekeyPc.assigned], by simp⟩
  | setPrivate before => exact hset before ⟨id, by simp [RekeyPc.assigned], by simp⟩
  | setPublic before => exact hset before ⟨id, id, by simp⟩

/-- What a step does not touch stays where it comes from. -/
theorem FileFrom.frame {a : Action} (hstep : Step path s a s') (h : s.FileFrom path start o)
    (hdata : s'.fileData path = s.fileData path) : s'.FileFrom path start o := by
  cases o with
  | none => exact hdata.trans h
  | some i =>
    obtain ⟨pc, hpc, data, hfile, hleft⟩ := h
    obtain ⟨pc', hpc', hlater⟩ := later_of_step hstep hpc
    exact ⟨pc', hpc', data, hdata.trans hfile, hlater.left hleft⟩

theorem PrivateFrom.frame {a : Action} (hstep : Step path s a s') (h : s.PrivateFrom start o)
    (hkey : s'.signer.privateKey = s.signer.privateKey) : s'.PrivateFrom start o := by
  cases o with
  | none => exact hkey.trans h
  | some i =>
    obtain ⟨pc, key, hpc, hassigned, hsigner⟩ := h
    obtain ⟨pc', hpc', hlater⟩ := later_of_step hstep hpc
    exact ⟨pc', key, hpc', hlater.assigned hassigned, hkey.trans hsigner⟩

theorem PublicFrom.frame {a : Action} (hstep : Step path s a s') (h : s.PublicFrom start o)
    (hkey : s'.signer.publicKey = s.signer.publicKey) : s'.PublicFrom start o := by
  cases o with
  | none => exact hkey.trans h
  | some i =>
    obtain ⟨key, hpc, hsigner⟩ := h
    obtain ⟨pc', hpc', hlater⟩ := later_of_step hstep hpc
    exact ⟨key, by rw [hpc', hlater.rotated rfl], hkey.trans hsigner⟩

/-- **The step lemma**: the records stay right. -/
theorem Sourced.step {a : Action} (h : Sourced path start s) (hstep : Step path s a s') :
    Sourced path start s' := by
  have hnow : ∀ {i : Nat} {old new : RekeyPc}, s.calls[i]? = some old →
      (s.calls.set i new)[i]? = some new := fun hold =>
    List.getElem?_set_self (List.getElem?_eq_some_iff.mp hold).1
  have hframe := hstep
  cases hstep with
  | call generated => exact ⟨h.file.frame hframe rfl, h.privateKey.frame hframe rfl,
      h.publicKey.frame hframe rfl⟩
  | refuse before => exact ⟨h.file.frame hframe rfl, h.privateKey.frame hframe rfl,
      h.publicKey.frame hframe rfl⟩
  | cut before =>
    refine ⟨?_, h.privateKey.frame hframe rfl, h.publicKey.frame hframe rfl⟩
    exact ⟨_, hnow before, _, FileSystem.data_put _, _, rfl⟩
  | save before =>
    refine ⟨?_, h.privateKey.frame hframe rfl, h.publicKey.frame hframe rfl⟩
    exact ⟨_, hnow before, _, FileSystem.data_put _, rfl⟩
  | setPrivate before =>
    refine ⟨h.file.frame hframe rfl, ?_, h.publicKey.frame hframe rfl⟩
    exact ⟨_, _, hnow before, rfl, rfl⟩
  | setPublic before =>
    refine ⟨h.file.frame hframe rfl, h.privateKey.frame hframe rfl, ?_⟩
    exact ⟨_, hnow before, rfl⟩

/-- The run lemma. -/
theorem Sourced.run {actions : List Action} (hstart : Sourced path start start)
    (hrun : runSteps (Rekeying.step path) start actions = some s) : Sourced path start s :=
  runSteps_invariant (Sourced path start) (fun h hstep => h.step (step_cases path hstep)) hstart
    hrun

end

/-! ## Agreement -/

/-- The file has the private key of the signer in it, and the public key is the half of it. -/
def Agrees (s : Rekeying) : Prop :=
  (s.fileData path).bind keyOf = some s.signer.privateKey ∧
    s.signer.publicKey = publicHalf s.signer.privateKey

/-- One call was the last one to change the file, the private and the public key, or none has
changed any of them. -/
def InStep (s : Rekeying) : Prop := s.fileBy = s.privateBy ∧ s.privateBy = s.publicBy

/-- The key that a call has generated. -/
def keyAt (s : Rekeying) (i : Nat) : Option KeyPair := s.calls[i]?.bind RekeyPc.key

/-- No key is generated twice. -/
structure DistinctKeys (start s : Rekeying) : Prop where
  new : ∀ {i key}, s.keyAt i = some key → key.publicKey ≠ start.signer.publicKey
  unique : ∀ {i j key key'}, s.keyAt i = some key → s.keyAt j = some key' →
    key.publicKey = key'.publicKey → i = j

/-- The public key is that of the signer at the start, or of the key that the call has generated. -/
def Owns (s start : Rekeying) (publicKey : Bytes) : Option Nat → Prop
  | none => publicKey = start.signer.publicKey
  | some i => ∃ key, s.keyAt i = some key ∧ publicKey = key.publicKey

theorem DistinctKeys.owns_unique {start s : Rekeying} (h : DistinctKeys start s)
    {publicKey : Bytes} : ∀ {o o' : Option Nat}, s.Owns start publicKey o →
      s.Owns start publicKey o' → o = o'
  | none, none, _, _ => rfl
  | none, some _, hstart, ⟨_, hkey, heq⟩ => absurd (heq.symm.trans hstart) (h.new hkey)
  | some _, none, ⟨_, hkey, heq⟩, hstart => absurd (heq.symm.trans hstart) (h.new hkey)
  | some _, some _, ⟨_, hkey, heq⟩, ⟨_, hkey', heq'⟩ =>
    congrArg some (h.unique hkey hkey' (heq.symm.trans heq'))

end Rekeying

theorem RekeyPc.key_of_assigned {pc : RekeyPc} {key : KeyPair} (h : pc.assigned = some key) :
    pc.key = some key := by
  cases pc with
  | setPublic k => exact h
  | rotated k => exact h
  | _ => cases h

/-- Only a whole key is a key: a part of its digits is too short. -/
theorem KeyPair.keyOf_take {key : KeyPair} {n : Nat} {k : Bytes}
    (h : keyOf ((hexEncode key.privateKey).take n) = some k) : k = key.privateKey := by
  obtain ⟨hdecode, hlen⟩ := keyOf_eq_some.mp h
  have hlength := length_of_hexDecode hdecode
  have hfull : (hexEncode key.privateKey).length ≤ n := by
    rw [List.length_take, length_hexEncode, key.length_eq, hlen] at hlength
    rw [length_hexEncode, key.length_eq]
    omega
  rw [List.take_of_length_le hfull, key.keyOf_hexEncode] at h
  exact (Option.some.inj h).symm

theorem RekeyPc.Left.key {pc : RekeyPc} {data k : Bytes} (h : pc.Left data)
    (hk : keyOf data = some k) : ∃ key, pc.key = some key ∧ k = key.privateKey := by
  have hwhole : ∀ {key : KeyPair}, data = hexEncode key.privateKey → k = key.privateKey := by
    intro key hdata
    rw [hdata, key.keyOf_hexEncode] at hk
    exact (Option.some.inj hk).symm
  cases pc with
  | write key => cases h
  | setPrivate key => exact ⟨key, rfl, hwhole h⟩
  | setPublic key => exact ⟨key, rfl, hwhole h⟩
  | rotated key => exact ⟨key, rfl, hwhole h⟩
  | failed key =>
    cases key with
    | none => cases h
    | some key =>
      obtain ⟨n, rfl⟩ := h
      exact ⟨key, rfl, KeyPair.keyOf_take hk⟩

namespace Rekeying

section

variable {path : Bytes} {start s : Rekeying}

theorem keyAt_of_getElem? {i : Nat} {pc : RekeyPc} (h : s.calls[i]? = some pc) :
    s.keyAt i = pc.key := by
  rw [keyAt, h, Option.bind_some]

/-- The call that was the last one to change the file, the private or the public key owns what
stands there. -/
theorem Sourced.owns (h : Sourced path start s) (hstart : start.Agrees path) (hs : s.Agrees path) :
    s.Owns start s.signer.publicKey s.fileBy ∧ s.Owns start s.signer.publicKey s.privateBy ∧
      s.Owns start s.signer.publicKey s.publicBy := by
  obtain ⟨hfile, hpublic⟩ := hs
  refine ⟨?_, ?_, ?_⟩
  · have hfrom := h.file
    cases hby : s.fileBy with
    | none =>
      rw [hby] at hfrom
      have hkey : s.signer.privateKey = start.signer.privateKey := by
        rw [show s.fileData path = start.fileData path from hfrom, hstart.1] at hfile
        exact (Option.some.inj hfile).symm
      show s.signer.publicKey = start.signer.publicKey
      rw [hpublic, hkey, hstart.2]
    | some i =>
      rw [hby] at hfrom
      obtain ⟨pc, hpc, data, hdata, hleft⟩ := hfrom
      rw [hdata, Option.bind_some] at hfile
      obtain ⟨key, hkey, heq⟩ := hleft.key hfile
      refine ⟨key, (keyAt_of_getElem? hpc).trans hkey, ?_⟩
      rw [hpublic, heq, KeyPair.publicKey]
  · have hfrom := h.privateKey
    cases hby : s.privateBy with
    | none =>
      rw [hby] at hfrom
      show s.signer.publicKey = start.signer.publicKey
      rw [hpublic, show s.signer.privateKey = start.signer.privateKey from hfrom, hstart.2]
    | some i =>
      rw [hby] at hfrom
      obtain ⟨pc, key, hpc, hassigned, heq⟩ := hfrom
      refine ⟨key, (keyAt_of_getElem? hpc).trans (RekeyPc.key_of_assigned hassigned), ?_⟩
      rw [hpublic, heq, KeyPair.publicKey]
  · have hfrom := h.publicKey
    cases hby : s.publicBy with
    | none =>
      rw [hby] at hfrom
      exact hfrom
    | some i =>
      rw [hby] at hfrom
      obtain ⟨key, hpc, heq⟩ := hfrom
      exact ⟨key, keyAt_of_getElem? hpc, heq⟩

theorem Sourced.agrees (h : Sourced path start s) (hstart : start.Agrees path) (hs : s.InStep) :
    s.Agrees path := by
  obtain ⟨hfile, hprivate⟩ := hs
  have hfileFrom := h.file
  have hprivateFrom := h.privateKey
  have hpublicFrom := h.publicKey
  rw [hfile, hprivate] at hfileFrom
  rw [hprivate] at hprivateFrom
  cases hby : s.publicBy with
  | none =>
    rw [hby] at hfileFrom hprivateFrom hpublicFrom
    rw [Agrees, show s.fileData path = start.fileData path from hfileFrom,
      show s.signer.privateKey = start.signer.privateKey from hprivateFrom,
      show s.signer.publicKey = start.signer.publicKey from hpublicFrom]
    exact hstart
  | some i =>
    -- the call has come to its end, so all that it has left behind is of one key
    rw [hby] at hfileFrom hprivateFrom hpublicFrom
    obtain ⟨key, hpc, hpublic⟩ := hpublicFrom
    obtain ⟨pc, key', hpc', hassigned, hkey⟩ := hprivateFrom
    obtain ⟨pc'', hpc'', data, hdata, hleft⟩ := hfileFrom
    cases hpc.symm.trans hpc'
    cases hpc.symm.trans hpc''
    cases hassigned
    cases hleft
    refine ⟨?_, ?_⟩
    · rw [hdata, Option.bind_some, key.keyOf_hexEncode, hkey]
    · rw [hpublic, hkey, KeyPair.publicKey]

end

instance (path : Bytes) (s : Rekeying) : Decidable (s.Agrees path) :=
  inferInstanceAs (Decidable (_ ∧ _))

/-- The action ends a call with an error. -/
def fails (s : Rekeying) : Action → Bool
  | .call generated => !generated.isOk
  | .go i saved =>
    match s.calls[i]? with
    | some (.write _) => !saved.result.isOk
    | _ => false

/-- A write that fails leaves the bytes that were there. -/
def spares (path : Bytes) (s : Rekeying) : Action → Bool
  | .go i (.cut n _) =>
    match s.calls[i]? with
    | some (.write key) => s.fileData path = some ((hexEncode key.privateKey).take n)
    | _ => true
  | _ => true

/-- A call that fails leaves the signer alone, and the file unless the write has truncated it. -/
theorem Step.of_fails {path : Bytes} {s s' : Rekeying} {a : Action} (h : Step path s a s')
    (hfails : s.fails a = true) : s'.signer = s.signer ∧
      (s'.files.get? path = s.files.get? path ↔ s.spares path a = true) := by
  cases h with
  | call generated => exact ⟨rfl, iff_of_true rfl rfl⟩
  | refuse before => exact ⟨rfl, iff_of_true rfl rfl⟩
  | cut before =>
    refine ⟨rfl, ?_⟩
    rw [FileSystem.put_eq_self_iff, spares, before, decide_eq_true_iff]
    rfl
  | save before =>
    rw [fails, before] at hfails
    cases hfails
  | setPrivate before =>
    rw [fails, before] at hfails
    cases hfails
  | setPublic before =>
    rw [fails, before] at hfails
    cases hfails

end Rekeying

/-- A signer that was just opened agrees with its file. -/
theorem newSigner_agrees {env : OpenEnv} {fs files : FileSystem} {path : Bytes} {signer : Signer}
    (h : newSigner env fs path = (.ok signer, files)) :
    Rekeying.Agrees path { files, signer } := by
  have hcases := newSigner_cases env fs path
  rw [h] at hcases
  cases hcases with
  | loaded load =>
    obtain ⟨data, hfile, hkey⟩ := loadPrivateKey_eq_ok.mp load
    refine ⟨?_, rfl⟩
    rw [Rekeying.fileData, hfile]
    exact hkey
  | @generated key missing spares =>
    refine ⟨?_, rfl⟩
    rw [Rekeying.fileData, FileSystem.data_put]
    exact key.keyOf_hexEncode

namespace Rekeying

/-- **When the key file and the signer agree.** For every order of the steps of any number of
rotations, they agree if one call was the last one to change the file, the private and the public
key; and only then, if no key is generated twice. A call that returns an error leaves the signer as
it was, and the file unless a write has failed after it had truncated the file. -/
theorem keys_agree_iff {env : OpenEnv} {fs files : FileSystem} {path : Bytes} {signer : Signer}
    (hopen : newSigner env fs path = (.ok signer, files)) {actions : List Action} {s : Rekeying}
    (hrun : runSteps (step path) { files, signer } actions = some s) :
    (s.InStep → s.Agrees path) ∧
    (DistinctKeys { files, signer } s → s.Agrees path → s.InStep) ∧
    ∀ a s', step path s a = some s' → s.fails a = true →
      s'.signer = s.signer ∧
        (s'.files.get? path = s.files.get? path ↔ s.spares path a = true) := by
  have hstart := newSigner_agrees hopen
  have hsourced : Sourced path { files, signer } s := .run ⟨rfl, rfl, rfl⟩ hrun
  refine ⟨hsourced.agrees hstart, fun hdistinct hagrees => ?_, fun a s' hstep hfails => ?_⟩
  · obtain ⟨hfile, hprivate, hpublic⟩ := hsourced.owns hstart hagrees
    exact ⟨hdistinct.owns_unique hfile hprivate, hdistinct.owns_unique hprivate hpublic⟩
  · exact (step_cases path hstep).of_fails hfails

/-- **Without the others, the steps of a rotation are `RotateKey`**. -/
theorem rekey_alone (path : Bytes) (files : FileSystem) (signer : Signer)
    (generated : Except Bytes KeyPair) (saved : WriteOutcome) : ∃ n s,
      runSteps (step path) { files, signer } (.call generated :: List.replicate n (.go 0 saved))
        = some s ∧
      s.calls.all (fun pc => !pc.inProgress) = true ∧
      s.signer = (signer.rotateKey
        ⟨generated.map fun key => (key.publicKey, key.privateKey), saved.result⟩).2 := by
  cases generated with
  | error msg => exact ⟨0, _, rfl, rfl, rfl⟩
  | ok key =>
    cases saved with
    | done => exact ⟨3, _, rfl, rfl, rfl⟩
    | refused msg => exact ⟨1, _, rfl, rfl, rfl⟩
    | cut n msg => exact ⟨1, _, rfl, rfl, rfl⟩

/-- A third key. -/
def otherPair : KeyPair where
  privateKey :=
    hexText "c5aa8df43f9f837bedb7442f31dcb7b166d38535076f094b85ce3a2e0b4458f7" ++
      hexText "fc51cd8e6218a1a38da47ed00230f0580816ed13ba3303ac5deb911548908025"
  length_eq := by decide +kernel

/-- Two rotations write their keys, and assign them in the same order. -/
def ordered : List Action :=
  [.call (.ok rotatedPair), .call (.ok otherPair), .go 0 .done, .go 1 .done, .go 0 .done,
    .go 0 .done, .go 1 .done, .go 1 .done]

def emptyFiles : FileSystem := SortedMap.empty

theorem keys_agree_rotated : ∃ s,
    runSteps (step keyPath) ⟨emptyFiles.put keyPath (hexEncode recordedKey), recordedSigner, [],
      none, none, none⟩ ordered = some s ∧
    s.calls.all (fun pc => !pc.inProgress) = true ∧
    s.signer.privateKey = otherPair.privateKey ∧ s.Agrees keyPath := by
  have hopen : newSigner ⟨.ok recordedPair, .done⟩ emptyFiles keyPath
      = (.ok recordedSigner, emptyFiles.put keyPath (hexEncode recordedKey)) := by rfl
  obtain ⟨s, hs, hfacts⟩ := (Option.any_eq_true _ _).mp
    (show (runSteps (step keyPath) ⟨emptyFiles.put keyPath (hexEncode recordedKey),
      recordedSigner, [], none, none, none⟩ ordered).any (fun s =>
        s.calls.all (fun pc => !pc.inProgress) && s.signer.privateKey = otherPair.privateKey &&
          s.fileBy = some 1 && s.privateBy = some 1 && s.publicBy = some 1) = true by
      decide +kernel)
  simp only [Bool.and_eq_true, decide_eq_true_eq] at hfacts
  obtain ⟨⟨⟨⟨hended, hsigner⟩, hfile⟩, hprivate⟩, hpublic⟩ := hfacts
  refine ⟨s, hs, hended, hsigner, (keys_agree_iff hopen hs).1 ⟨?_, ?_⟩⟩
  · rw [hfile, hprivate]
  · rw [hprivate, hpublic]

/-- Two rotations write their keys, and assign them in the other order. -/
def overlapping : List Action :=
  [.call (.ok rotatedPair), .call (.ok otherPair), .go 0 .done, .go 1 .done, .go 1 .done,
    .go 1 .done, .go 0 .done, .go 0 .done]

/-- The disk is full when the new key is written. -/
def diskFull : List Action :=
  [.call (.ok rotatedPair), .go 0 (.cut 0 (lit "no space left on device"))]

/-- **The key file and the signer can disagree** when no rotation is in progress. -/
theorem keys_disagree :
    (newSigner ⟨.ok recordedPair, .done⟩ emptyFiles keyPath).1 = .ok recordedSigner ∧
    ∀ actions ∈ [overlapping, diskFull],
      (runSteps (step keyPath) ⟨(newSigner ⟨.ok recordedPair, .done⟩ emptyFiles keyPath).2,
        recordedSigner, [], none, none, none⟩ actions).any (fun s =>
          s.calls.all (fun pc => !pc.inProgress) && !decide (s.Agrees keyPath)) = true := by
  decide +kernel

end Rekeying

end Logryph
