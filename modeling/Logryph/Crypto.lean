import Logryph.Assert
import Logryph.Models

/-!
# Event hashes and signatures

`crypto.CalculateEventHash` is SHA-256 of the previous hash followed by the canonical JSON of the
payload, and `crypto.Signer` signs the hash's hexadecimal text with Ed25519. The two primitives
are parameters: nothing here depends on more than the lengths of their results.

* `calculateEventHash_eq_ok` — when there is a hash, and of what
* `panics_calculateEventHash` — when it trips an assertion
* `hashInput_injective` — the hashed string determines the previous hash and the payload's normal
  form, although nothing separates the two in it
-/

namespace Logryph

open Infra

/-- The cryptographic primitives. -/
structure Crypto where
  sha256 : Bytes → Bytes
  sign : Bytes → Bytes → Bytes
  verify : Bytes → Bytes → Bytes → Bool
  sha256_length : ∀ m, (sha256 m).length = 32
  sign_length : ∀ key m, (sign key m).length = 64

variable (c : Crypto) (strict : Bool)

/-! ## Hashing -/

/-- `crypto.CalculateEventHash`. -/
def calculateEventHash (prevHash : Bytes) (payload : Value) : Except Fault Bytes := do
  check strict (prevHash ≠ []) (lit "prev_hash must be non-empty")
  check strict (prevHash.count 0x30 ≠ 64 || prevHash = zeroHash) (lit "invalid prev_hash format")
  check strict (!payload.isNil) (lit "payload must not be nil")
  match marshal payload with
  | none => .error (assertionFailed strict (lit "json marshal failed: unsupported value"))
  | some jsonBytes =>
    match unmarshal jsonBytes with
    | none => .error (assertionFailed strict (lit "json unmarshal failed: invalid value"))
    | some normalized =>
      match canonical normalized with
      | none => .error (.error (lit "jcs: unsupported type"))
      | some canonicalJSON => .ok (hexEncode (c.sha256 (prevHash ++ canonicalJSON)))

/-- The string that is hashed. -/
def hashInput (prevHash : Bytes) (payload : Value) : Option Bytes :=
  ((roundTrip payload).bind canonical).map (prevHash ++ ·)

/-- The previous hashes that are accepted. -/
def PrevHashOk (prevHash : Bytes) : Prop :=
  prevHash ≠ [] ∧ (prevHash.count 0x30 ≠ 64 ∨ prevHash = zeroHash)

instance (prevHash : Bytes) : Decidable (PrevHashOk prevHash) := by
  unfold PrevHashOk
  infer_instance

theorem calculateEventHash_eq_ok {prevHash : Bytes} {payload : Value} {h : Bytes} :
    calculateEventHash c strict prevHash payload = .ok h ↔
      PrevHashOk prevHash ∧ payload.isNil = false ∧
        ∃ x, hashInput prevHash payload = some x ∧ h = hexEncode (c.sha256 x) := by
  unfold calculateEventHash hashInput roundTrip PrevHashOk
  simp only [bind_eq_ok, check_eq_ok, decide_eq_true_eq, Bool.or_eq_true, Bool.not_eq_true',
    exists_const]
  cases marshal payload with
  | none => simp
  | some bs =>
    dsimp only [Option.bind_some]
    cases unmarshal bs with
    | none => simp
    | some v =>
      dsimp only [Option.bind_some]
      cases canonical v with
      | none => simp
      | some t =>
        simp only [Except.ok.injEq, Option.map_some, Option.some.injEq, exists_eq_left']
        constructor
        · rintro ⟨h1, h2, h3, rfl⟩
          exact ⟨⟨h1, h2⟩, h3, rfl⟩
        · rintro ⟨⟨h1, h2⟩, h3, rfl⟩
          exact ⟨h1, h2, h3, rfl⟩

/-- Hashing panics unless the link is a hash and the payload can be read. -/
theorem panics_calculateEventHash {prevHash : Bytes} {payload : Value} :
    Panics (calculateEventHash c true prevHash payload) ↔
      ¬ (PrevHashOk prevHash ∧ payload.isNil = false ∧ ∃ w, normalForm payload = some w) := by
  unfold calculateEventHash PrevHashOk
  rw [panics_check_bind, panics_check_bind, panics_check_bind]
  unfold normalForm roundTrip
  cases marshal payload with
  | none => simp
  | some bs =>
    dsimp only [Option.bind_some]
    cases hun : unmarshal bs with
    | none => simp
    | some v =>
      have hcanonical : ∃ t, canonical v = some t := by
        obtain ⟨j, -, hj⟩ := Option.bind_eq_some_iff.mp hun
        exact canonical_isSome hj
      obtain ⟨t, ht⟩ := hcanonical
      simp [ht]

/-- **The hashed string determines what was hashed.** -/
theorem hashInput_injective {p p' : Bytes} {ms ms' : List (Bytes × Value)} {x : Bytes}
    (h : hashInput p (.map ms) = some x) (h' : hashInput p' (.map ms') = some x) :
    p = p' ∧ ∃ w, normalForm (.map ms) = some w ∧ normalForm (.map ms') = some w := by
  simp only [hashInput, Option.map_eq_some_iff, Option.bind_eq_some_iff] at h h'
  obtain ⟨t, ⟨v, hv, ht⟩, rfl⟩ := h
  obtain ⟨t', ⟨v', hv', ht'⟩, heq⟩ := h'
  obtain ⟨ws, rfl⟩ := exists_map_of_roundTrip hv
  obtain ⟨ws', rfl⟩ := exists_map_of_roundTrip hv'
  obtain ⟨hp, rfl⟩ := Json.prefix_unique (framed_canonical ht') (framed_canonical ht) heq
  obtain ⟨j, -, -, hj⟩ := roundTrip_eq_some.mp hv
  obtain ⟨j', -, -, hj'⟩ := roundTrip_eq_some.mp hv'
  have hplain := canonical_injective hj hj' (ht.trans ht'.symm)
  exact ⟨hp.symm, _, normalForm_eq_some.mpr ⟨_, hv, rfl⟩,
    normalForm_eq_some.mpr ⟨_, hv', hplain.symm⟩⟩

/-- Of an object, the hash is the one of the string, if the previous hash is accepted. -/
theorem calculateEventHash_map_eq_ok {prevHash x : Bytes} {ms : List (Bytes × Value)}
    (h : hashInput prevHash (.map ms) = some x) {hash : Bytes} :
    calculateEventHash c strict prevHash (.map ms) = .ok hash ↔
      PrevHashOk prevHash ∧ hash = hexEncode (c.sha256 x) := by
  rw [calculateEventHash_eq_ok, h]
  simp [Value.isNil]

/-- **The hashed string is unambiguous.** Whatever the previous hashes are, two objects for which
the same bytes are hashed come after the same previous hash and have the same normal form. These
bytes are what `CalculateEventHash` gives to SHA-256, if it accepts the previous hash. -/
theorem hashInput_unambiguous {p₁ p₂ x : Bytes} {ms₁ ms₂ : List (Bytes × Value)}
    (h₁ : hashInput p₁ (.map ms₁) = some x) (h₂ : hashInput p₂ (.map ms₂) = some x) :
    (p₁ = p₂ ∧ normalForm (.map ms₁) = normalForm (.map ms₂)) ∧
    ∀ (c : Crypto) (strict : Bool) (hash : Bytes),
      (calculateEventHash c strict p₁ (.map ms₁) = .ok hash ↔
        PrevHashOk p₁ ∧ hash = hexEncode (c.sha256 x)) ∧
      (calculateEventHash c strict p₂ (.map ms₂) = .ok hash ↔
        PrevHashOk p₂ ∧ hash = hexEncode (c.sha256 x)) := by
  obtain ⟨hp, w, hw₁, hw₂⟩ := hashInput_injective h₁ h₂
  exact ⟨⟨hp, hw₁.trans hw₂.symm⟩, fun c strict hash =>
    ⟨calculateEventHash_map_eq_ok c strict h₁, calculateEventHash_map_eq_ok c strict h₂⟩⟩

/-- The members in two orders, after a text that looks like an object itself. -/
theorem hashInput_unambiguous_reordered :
    ∃ x, hashInput (lit "\x7b\x7d") (.map [(lit "a", .bool true), (lit "b", .nil)]) = some x ∧
      hashInput (lit "\x7b\x7d") (.map [(lit "b", .nil), (lit "a", .bool true)]) = some x ∧
      normalForm (.map [(lit "a", .bool true), (lit "b", .nil)]) =
        normalForm (.map [(lit "b", .nil), (lit "a", .bool true)]) ∧
      ∀ c strict, calculateEventHash c strict (lit "\x7b\x7d")
        (.map [(lit "b", .nil), (lit "a", .bool true)]) = .ok (hexEncode (c.sha256 x)) := by
  have h₁ : hashInput (lit "\x7b\x7d") (.map [(lit "a", .bool true), (lit "b", .nil)]) =
      some (lit "\x7b\x7d\x7b\"a\":true,\"b\":null\x7d") := by decide +kernel
  have h₂ : hashInput (lit "\x7b\x7d") (.map [(lit "b", .nil), (lit "a", .bool true)]) =
      some (lit "\x7b\x7d\x7b\"a\":true,\"b\":null\x7d") := by decide +kernel
  obtain ⟨⟨-, hnormal⟩, hhash⟩ := hashInput_unambiguous h₁ h₂
  exact ⟨_, h₁, h₂, hnormal, fun c strict => (hhash c strict _).2.mpr ⟨by decide, rfl⟩⟩

/-- Whatever has a normal form can be hashed. -/
theorem exists_hashInput {p : Bytes} {v w : Value} (h : normalForm v = some w) :
    ∃ x, hashInput p v = some x := by
  obtain ⟨u, hu, -⟩ := normalForm_eq_some.mp h
  obtain ⟨j, -, -, hj⟩ := roundTrip_eq_some.mp hu
  obtain ⟨t, ht⟩ := canonical_isSome hj
  exact ⟨p ++ t, by rw [hashInput, hu, Option.bind_some, ht]; rfl⟩

/-- Whatever can be hashed has a normal form. -/
theorem exists_normalForm {p : Bytes} {v : Value} {x : Bytes} (h : hashInput p v = some x) :
    ∃ w, normalForm v = some w := by
  cases hn : roundTrip v with
  | none => rw [hashInput, hn] at h; cases h
  | some u => exact ⟨_, normalForm_eq_some.mpr ⟨u, hn, rfl⟩⟩

/-- The canonical text is that of the normal form. -/
theorem hashInput_eq_normalForm (p : Bytes) (v : Value) :
    hashInput p v = ((normalForm v).bind canonical).map (p ++ ·) := by
  unfold hashInput normalForm
  cases roundTrip v with
  | none => rfl
  | some u =>
    rw [Option.map_some, Option.bind_some, Option.bind_some, canonical_plainZeros]

/-- The hash depends on the payload's normal form only. -/
theorem hashInput_congr {p : Bytes} {v v' : Value} (h : normalForm v = normalForm v') :
    hashInput p v = hashInput p v' := by
  rw [hashInput_eq_normalForm, h, hashInput_eq_normalForm]

/-- A hash is 64 hexadecimal digits. -/
theorem calculateEventHash_length {prevHash : Bytes} {payload : Value} {h : Bytes}
    (hh : calculateEventHash c strict prevHash payload = .ok h) : h.length = 64 := by
  obtain ⟨-, -, x, -, rfl⟩ := (calculateEventHash_eq_ok c strict).mp hh
  rw [length_hexEncode, c.sha256_length]

/-! ## Signing -/

/-- `crypto.Signer`. -/
structure Signer where
  privateKey : Bytes
  publicKey : Bytes
  deriving DecidableEq

namespace Signer

/-- `SignHash`. It never fails. -/
def signHash (s : Signer) (hash : Bytes) : Bytes := hexEncode (c.sign s.privateKey hash)

/-- `GetPublicKey`. -/
def getPublicKey (s : Signer) : Bytes := hexEncode s.publicKey

/-- `VerifySignature`. -/
def verifySignature (s : Signer) (hash signatureHex : Bytes) : Bool :=
  match hexDecode signatureHex with
  | none => false
  | some signature => c.verify s.publicKey hash signature

/-- What `ed25519.GenerateKey` and the file system do during a rotation. -/
structure RotateEnv where
  generated : Except Bytes (Bytes × Bytes)
  saved : Except Bytes Unit

/-- `RotateKey`: the public keys before and after, and the signer. The key in memory changes only
when the new one was saved. -/
def rotateKey (s : Signer) (env : RotateEnv) : Except Fault (Bytes × Bytes) × Signer :=
  match env.generated with
  | .error msg => (.error (.error (lit "generating new keypair: " ++ msg)), s)
  | .ok (pub, priv) =>
    match env.saved with
    | .error msg => (.error (.error (lit "saving rotated key: " ++ msg)), s)
    | .ok () =>
      let s' : Signer := ⟨priv, pub⟩
      (.ok (s.getPublicKey, s'.getPublicKey), s')

theorem verifySignature_signHash (s s' : Signer) (hash : Bytes) :
    s'.verifySignature c hash (s.signHash c hash)
      = c.verify s'.publicKey hash (c.sign s.privateKey hash) := by
  rw [verifySignature, signHash, hexDecode_hexEncode]

theorem signHash_ne_nil (s : Signer) (hash : Bytes) : s.signHash c hash ≠ [] := by
  intro h
  have := congrArg List.length h
  rw [signHash, length_hexEncode, c.sign_length] at this
  cases this

end Signer

/-! ## Recorded values -/

/-- A text of hexadecimal digits as bytes. -/
def hexText (s : String) : Bytes := (hexDecode (lit s)).getD []

/-- A text in several lines. -/
def lits (ss : List String) : Bytes := ss.flatMap lit

/-- Cut or filled to a length. -/
def fit (n : Nat) (bs : Bytes) : Bytes := (bs ++ List.replicate n 0).take n

theorem length_fit (n : Nat) (bs : Bytes) : (fit n bs).length = n := by
  rw [fit, List.length_take, List.length_append, List.length_replicate]
  omega

/-- Primitives that are known on some inputs only: tables of hashes, of signatures by key and
text, and of private keys by public key. -/
def Crypto.ofTables (hashes : List (Bytes × Bytes)) (signatures : List ((Bytes × Bytes) × Bytes))
    (keys : List (Bytes × Bytes)) : Crypto where
  sha256 m := fit 32 ((hashes.lookup m).getD m)
  sign key m := fit 64 ((signatures.lookup (key, m)).getD (key ++ m))
  verify publicKey m signature := match keys.lookup publicKey with
    | none => false
    | some key => signature = fit 64 ((signatures.lookup (key, m)).getD (key ++ m))
  sha256_length _ := length_fit 32 _
  sign_length _ _ := length_fit 64 _

/-- A key in the table verifies its own signatures. -/
theorem Crypto.verify_ofTables {hashes : List (Bytes × Bytes)}
    {signatures : List ((Bytes × Bytes) × Bytes)} {keys : List (Bytes × Bytes)} {signer : Signer}
    (h : keys.lookup signer.publicKey = some signer.privateKey) (m : Bytes) :
    (ofTables hashes signatures keys).verify signer.publicKey m
      ((ofTables hashes signatures keys).sign signer.privateKey m) = true := by
  simp only [ofTables, h, decide_true]

end Logryph
