import Mathlib.Data.List.Lex

/-!
# Byte strings

A byte string need not be valid UTF-8. Reading one as text follows the usual lossy rule:
a byte that does not start a well-formed sequence becomes U+FFFD and the scan moves on by
one byte.

* `utf8` / `runes` — encoding of code points, and the lossy decoding
* `hexEncode` / `hexDecode` — lower case out, either case in

`runes_utf8` says that decoding undoes encoding, so a text that was encoded once survives
any number of further round trips.
-/

namespace Infra

/-- A string of bytes. -/
abbrev Bytes := List UInt8

instance instDecidableMemBytes (k : Bytes) (ks : List Bytes) : Decidable (k ∈ ks) :=
  List.instDecidableMemOfLawfulBEq k ks

instance instLinearOrderByte : LinearOrder UInt8 where
  le_refl := UInt8.le_refl
  le_trans _ _ _ := UInt8.le_trans
  lt_iff_le_not_ge _ _ := by rw [UInt8.not_le]; exact ⟨fun h => ⟨UInt8.le_of_lt h, h⟩, And.right⟩
  le_antisymm _ _ := UInt8.le_antisymm
  le_total := UInt8.le_total
  toDecidableLE := inferInstance
  toDecidableEq := inferInstance
  toDecidableLT := inferInstance

/-! ## UTF-8 -/

/-- The UTF-8 encoding of a sequence of code points. -/
def utf8 (cs : List Char) : Bytes := cs.flatMap String.utf8EncodeChar

/-- The bytes of a string literal. -/
def lit (s : String) : Bytes := s.toByteArray.data.toList

instance instCoeStringBytes : Coe String Bytes := ⟨lit⟩

/-- The replacement character U+FFFD. -/
def replacement : Char := '�'

/-- The code point whose encoding the bytes start with. ASCII stands for itself. -/
def decodeRune : Bytes → Option Char
  | [] => none
  | b :: bs =>
    if b.toNat < 0x80 then some (Char.ofNat b.toNat)
    else ((b :: bs).take 4).toByteArray.utf8DecodeChar? 0

/-- The lossy decoding. The counter is the number of bytes of the current sequence still to skip. -/
def runesFrom : Nat → Bytes → List Char
  | _, [] => []
  | k + 1, _ :: bs => runesFrom k bs
  | 0, b :: bs =>
    match decodeRune (b :: bs) with
    | some c => c :: runesFrom (c.utf8Size - 1) bs
    | none => replacement :: runesFrom 0 bs

/-- The code points of a byte string. -/
def runes (bs : Bytes) : List Char := runesFrom 0 bs

@[simp] theorem utf8_nil : utf8 [] = [] := rfl

@[simp] theorem utf8_cons (c : Char) (cs : List Char) :
    utf8 (c :: cs) = String.utf8EncodeChar c ++ utf8 cs := List.flatMap_cons

@[simp] theorem utf8_append (a b : List Char) : utf8 (a ++ b) = utf8 a ++ utf8 b :=
  List.flatMap_append

/-! ## Which bytes an encoding holds -/

theorem utf8EncodeChar_ascii {c : Char} (h : c.toNat < 0x80) :
    String.utf8EncodeChar c = [UInt8.ofNat c.toNat] := by
  have hv : c.val.toNat ≤ 0x7f := by
    have : c.val.toNat = c.toNat := rfl
    omega
  unfold String.utf8EncodeChar
  simp only [hv, if_true]
  rfl

/-- Outside ASCII every byte has its top bit set. -/
theorem utf8EncodeChar_high {c : Char} (h : 0x80 ≤ c.toNat) :
    ∀ b ∈ String.utf8EncodeChar c, 0x80 ≤ b.toNat := by
  have hv : ¬ c.val.toNat ≤ 0x7f := by
    have : c.val.toNat = c.toNat := rfl
    omega
  intro b hb
  unfold String.utf8EncodeChar at hb
  simp only [hv, if_false] at hb
  split at hb
  · simp only [List.mem_cons, List.not_mem_nil, or_false] at hb
    rcases hb with rfl | rfl <;> simp <;> omega
  · split at hb <;> simp only [List.mem_cons, List.not_mem_nil, or_false] at hb
    · rcases hb with rfl | rfl | rfl <;> simp <;> omega
    · rcases hb with rfl | rfl | rfl | rfl <;> simp <;> omega

theorem toNat_of_isDigit {c : Char} (h : c.isDigit = true) : 0x30 ≤ c.toNat ∧ c.toNat ≤ 0x39 := by
  simpa [Char.isDigit, UInt32.le_iff_toNat_le] using h

/-- An ASCII byte stands in an encoding only for its own character. -/
theorem not_mem_utf8 {b : UInt8} (hb : b.toNat < 0x80) {cs : List Char}
    (h : ∀ c ∈ cs, c.toNat ≠ b.toNat) : b ∉ utf8 cs := by
  intro hmem
  obtain ⟨c, hc, hbc⟩ := List.mem_flatMap.mp hmem
  by_cases hascii : c.toNat < 0x80
  · rw [utf8EncodeChar_ascii hascii, List.mem_singleton] at hbc
    refine h c hc ?_
    rw [hbc, UInt8.toNat_ofNat']
    omega
  · exact absurd (utf8EncodeChar_high (Nat.not_lt.mp hascii) b hbc) (by omega)

/-! ## Round trip -/

theorem decodeRune_encode (c : Char) (rest : Bytes) :
    decodeRune (String.utf8EncodeChar c ++ rest) = some c := by
  by_cases hascii : c.toNat < 0x80
  · have hbyte : (UInt8.ofNat c.toNat).toNat = c.toNat := by
      rw [UInt8.toNat_ofNat']
      omega
    rw [utf8EncodeChar_ascii hascii, List.singleton_append, decodeRune, hbyte, if_pos hascii,
      Char.ofNat_toNat]
  · have hlen : (String.utf8EncodeChar c).length ≤ 4 := by
      rw [String.length_utf8EncodeChar]; exact c.utf8Size_le_four
    have hhigh := utf8EncodeChar_high (Nat.not_lt.mp hascii)
    have hdec : ((String.utf8EncodeChar c ++ rest).take 4).toByteArray.utf8DecodeChar? 0
        = some c := by
      rw [List.take_append, List.take_of_length_le hlen, List.toByteArray_append]
      exact ByteArray.utf8DecodeChar?_utf8EncodeChar_append
    cases henc : String.utf8EncodeChar c with
    | nil => exact absurd henc String.utf8EncodeChar_ne_nil
    | cons b tl =>
      rw [henc] at hdec hhigh
      rw [List.cons_append, decodeRune, if_neg (Nat.not_lt.mpr (hhigh b List.mem_cons_self))]
      exact hdec

/-- The counter skips exactly that many bytes. -/
theorem runesFrom_skip : ∀ (tl rest : Bytes), runesFrom tl.length (tl ++ rest) = runesFrom 0 rest
  | [], _ => rfl
  | _ :: tl, rest => runesFrom_skip tl rest

theorem runes_encode_append (c : Char) (rest : Bytes) :
    runes (String.utf8EncodeChar c ++ rest) = c :: runes rest := by
  have hdec := decodeRune_encode c rest
  have hsize : (String.utf8EncodeChar c).length = c.utf8Size := String.length_utf8EncodeChar c
  unfold runes
  cases henc : String.utf8EncodeChar c with
  | nil => exact absurd henc String.utf8EncodeChar_ne_nil
  | cons b tl =>
    rw [henc] at hdec hsize
    have htl : c.utf8Size - 1 = tl.length := by rw [← hsize]; simp
    simp only [List.cons_append] at hdec ⊢
    rw [runesFrom, hdec]
    simp only [htl, runesFrom_skip]

/-- **Decoding undoes encoding.** -/
@[simp] theorem runes_utf8 : ∀ cs : List Char, runes (utf8 cs) = cs
  | [] => rfl
  | c :: cs => by rw [utf8_cons, runes_encode_append, runes_utf8 cs]

theorem utf8_injective {a b : List Char} (h : utf8 a = utf8 b) : a = b := by
  rw [← runes_utf8 a, h, runes_utf8]

/-- The text that a byte string is read as, in bytes again. -/
def sanitize (bs : Bytes) : Bytes := utf8 (runes bs)

/-- The bytes are well-formed UTF-8. -/
def ValidUtf8 (bs : Bytes) : Prop := sanitize bs = bs

instance (bs : Bytes) : Decidable (ValidUtf8 bs) := inferInstanceAs (Decidable (_ = _))

theorem validUtf8_utf8 (cs : List Char) : ValidUtf8 (utf8 cs) := by
  unfold ValidUtf8 sanitize
  rw [runes_utf8]

/-! ## Hexadecimal -/

/-- The lower-case digit of a value below 16. -/
def hexDigit (n : Nat) : UInt8 := UInt8.ofNat (if n < 10 then 0x30 + n else 0x57 + n)

/-- The value of a digit. -/
def hexValue (b : UInt8) : Option Nat :=
  let n := b.toNat
  if 0x30 ≤ n && n ≤ 0x39 then some (n - 0x30)
  else if 0x61 ≤ n && n ≤ 0x66 then some (n - 0x57)
  else if 0x41 ≤ n && n ≤ 0x46 then some (n - 0x37)
  else none

def hexEncode (bs : Bytes) : Bytes :=
  bs.flatMap fun b => [hexDigit (b.toNat / 16), hexDigit (b.toNat % 16)]

/-- Reads pairs of digits. An odd length or a character that is no digit is an error. -/
def hexDecode : Bytes → Option Bytes
  | [] => some []
  | [_] => none
  | a :: b :: rest =>
    match hexValue a, hexValue b, hexDecode rest with
    | some hi, some lo, some bs => some (UInt8.ofNat (hi * 16 + lo) :: bs)
    | _, _, _ => none

theorem hexValue_hexDigit {n : Nat} (h : n < 16) : hexValue (hexDigit n) = some n := by
  have hall : ∀ m ∈ List.range 16, hexValue (hexDigit m) = some m := by decide
  exact hall n (List.mem_range.mpr h)

@[simp] theorem hexDecode_hexEncode : ∀ bs : Bytes, hexDecode (hexEncode bs) = some bs
  | [] => rfl
  | b :: bs => by
    have hb : b.toNat < 256 := UInt8.toNat_lt_size b
    show hexDecode (hexDigit (b.toNat / 16) :: hexDigit (b.toNat % 16) :: hexEncode bs) = _
    rw [hexDecode, hexValue_hexDigit (by omega), hexValue_hexDigit (by omega),
      hexDecode_hexEncode bs]
    simp only [Option.some.injEq, List.cons.injEq, and_true]
    rw [show b.toNat / 16 * 16 + b.toNat % 16 = b.toNat by omega]
    exact UInt8.ofNat_toNat

theorem length_of_hexDecode : ∀ {bs out : Bytes}, hexDecode bs = some out →
    bs.length = 2 * out.length
  | [], _, h => by
    cases h
    rfl
  | [_], _, h => by cases h
  | a :: b :: rest, out, h => by
    rw [hexDecode] at h
    split at h
    · next hrest =>
      cases h
      have ih := length_of_hexDecode hrest
      simp only [List.length_cons]
      omega
    · cases h

theorem hexEncode_injective {a b : Bytes} (h : hexEncode a = hexEncode b) : a = b := by
  have ha := hexDecode_hexEncode a
  rw [h, hexDecode_hexEncode] at ha
  exact (Option.some.inj ha).symm

@[simp] theorem length_hexEncode : ∀ bs : Bytes, (hexEncode bs).length = 2 * bs.length
  | [] => rfl
  | b :: bs => by
    show (hexDigit (b.toNat / 16) :: hexDigit (b.toNat % 16) :: hexEncode bs).length = _
    simp only [List.length_cons, length_hexEncode bs]
    omega

end Infra
