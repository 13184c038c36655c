import Logryph.Infra.Bytes
import Logryph.Infra.Json
import Logryph.Infra.Number

/-!
# Reading from a stream

What `fmt.Fscan` and a `json.Decoder` take from the front of a stream. A stream gives its bytes, and
then it ends or fails. Neither of them looks at what comes after the value.

* `Stream.scanWord` — the next word
* `Stream.decodeUint64` — a number, or `null`
* `Float64.toUint64` — the conversion of a number to an integer
-/

namespace Infra

/-- Some bytes, and then the end or an error. -/
structure Stream where
  data : Bytes
  error : Option Bytes := none

/-- White space for `fmt`. -/
def isSpace (c : Char) : Bool :=
  let n := c.toNat
  (0x9 ≤ n && n ≤ 0xd) || n = 0x20 || n = 0x85 || n = 0xa0 || n = 0x1680 ||
    (0x2000 ≤ n && n ≤ 0x200a) || n = 0x2028 || n = 0x2029 || n = 0x202f || n = 0x205f || n = 0x3000

namespace Stream

/-- A value that ends where `rest` begins. If that is the end of the bytes, one more is asked for:
the end of the stream ends the value, and an error spoils it. -/
def finish {α : Type} (s : Stream) (rest : List Char) (value : α) : Except Bytes α :=
  match rest, s.error with
  | [], some msg => .error msg
  | _, _ => .ok value

/-- `fmt.Fscan` into a string. -/
def scanWord (s : Stream) : Except Bytes Bytes :=
  let text := (runes s.data).dropWhile isSpace
  if text = [] then .error (s.error.getD (lit "EOF"))
  else s.finish (text.dropWhile (!isSpace ·)) (utf8 (text.takeWhile (!isSpace ·)))

/-- `Decode` of a `json.Decoder` into a `uint64` that is zero. What is no number, or a number with a
sign, a fraction or an exponent, is an error; its text is shortened here. -/
def decodeUint64 (s : Stream) : Except Bytes Nat :=
  match Json.skipWs (runes s.data) with
  | [] => .error (s.error.getD (lit "EOF"))
  | 'n' :: 'u' :: 'l' :: 'l' :: rest => s.finish rest 0
  | c :: text =>
    if c.isDigit then
      -- a zero is not followed by further digits
      let digits := if c = '0' then [c] else (c :: text).takeWhile Char.isDigit
      let rest := (c :: text).drop digits.length
      if rest.head? = some '.' ∨ rest.head? = some 'e' ∨ rest.head? = some 'E' then
        .error (lit "json: cannot unmarshal number into Go value of type uint64")
      else if Nat.ofDigitChars 10 digits 0 < 2 ^ 64 then
        s.finish rest (Nat.ofDigitChars 10 digits 0)
      else .error (lit "json: cannot unmarshal number into Go value of type uint64")
    else .error (lit "json: cannot unmarshal value into Go value of type uint64")

example : decodeUint64 ⟨utf8 "871234\n".toList, none⟩ = .ok 871234 := by decide +kernel

/-- A word is valid UTF-8, whatever the bytes were. -/
theorem validUtf8_of_scanWord {s : Stream} {word : Bytes} (h : s.scanWord = .ok word) :
    ValidUtf8 word := by
  unfold scanWord finish at h
  dsimp only at h
  split at h
  · cases h
  · split at h
    · cases h
    · cases h
      exact validUtf8_utf8 _

end Stream

/-- `uint64(x)`, which is exact toward zero inside of the range. What it gives for other numbers is
not specified. -/
def Float64.toUint64 (outside : Float64 → Nat) (x : Float64) : Nat :=
  let n := x.val.num.tdiv x.val.den
  if 0 ≤ n ∧ n < 2 ^ 64 then n.toNat else outside x

/-- An integer that a `float64` can hold comes back from it. -/
theorem Float64.toUint64_of_natCast {outside : Float64 → Nat} {x : Float64} {n : Nat}
    (hn : n < 2 ^ 53) (hx : ofRat? n = some x) : x.toUint64 outside = n := by
  have hval : x.val = n := by
    have habs : |(n : Int)| < 2 ^ 53 := by
      rw [abs_of_nonneg (Int.natCast_nonneg n)]
      exact_mod_cast hn
    rw [val_of_ofRat? hx]
    exact_mod_cast round64_intCast habs
  have hnum : x.val.num.tdiv x.val.den = n := by simp [hval]
  rw [toUint64, hnum, if_pos ⟨Int.natCast_nonneg n, by omega⟩, Int.toNat_natCast]

end Infra
