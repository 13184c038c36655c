import Logryph.Infra.Json

/-!
# Reading back a printed JSON text

`parse_render` — the parser undoes the printer, for every way of escaping whose escapes it
reads. Two consequences are used: a value survives being written and read, and a text written
without freedom of choice determines its tree (`render_injective`).

The proof follows the printer. Numbers and strings are read up to the character after them, so
their lemmas are about a text that goes on; for a number that character must not continue it
(`NumEnd`). The value lemmas are a mutual induction on the tree, with the length of the printed
text as the bound on the counter.
-/

namespace Infra.Json

/-! ## Runs of digits -/

/-- The text does not go on with a digit. -/
def DigitEnd (rest : List Char) : Prop := ∀ c, rest.head? = some c → c.isDigit = false

/-- The text does not go on with a character that would continue a number. -/
def NumEnd (rest : List Char) : Prop :=
  ∀ c, rest.head? = some c → c.isDigit = false ∧ c ≠ '.' ∧ c ≠ 'e' ∧ c ≠ 'E'

theorem NumEnd.digitEnd {rest : List Char} (h : NumEnd rest) : DigitEnd rest :=
  fun c hc => (h c hc).1

theorem digitEnd_cons {c : Char} {cs : List Char} (h : c.isDigit = false) : DigitEnd (c :: cs) := by
  intro d hd
  rw [List.head?_cons, Option.some.injEq] at hd
  exact hd ▸ h

theorem numEnd_cons {c : Char} {cs : List Char} (h : c.isDigit = false) (h1 : c ≠ '.')
    (h2 : c ≠ 'e') (h3 : c ≠ 'E') : NumEnd (c :: cs) := by
  intro d hd
  rw [List.head?_cons, Option.some.injEq] at hd
  exact hd ▸ ⟨h, h1, h2, h3⟩

theorem takeWhile_digits {ds rest : List Char} (hd : ∀ c ∈ ds, c.isDigit = true)
    (hr : DigitEnd rest) : (ds ++ rest).takeWhile Char.isDigit = ds := by
  rw [List.takeWhile_append_of_pos hd]
  cases rest with
  | nil => simp
  | cons c cs => simp [hr c rfl]

theorem dropWhile_digits {ds rest : List Char} (hd : ∀ c ∈ ds, c.isDigit = true)
    (hr : DigitEnd rest) : (ds ++ rest).dropWhile Char.isDigit = rest := by
  rw [List.dropWhile_append_of_pos hd]
  cases rest with
  | nil => rfl
  | cons c cs => simp [hr c rfl]

theorem isDigit_toDigits {n : Nat} : ∀ c ∈ Nat.toDigits 10 n, c.isDigit = true :=
  fun _ hc => Nat.isDigit_of_mem_toDigits (by omega) (by omega) hc

/-- The digits of a positive number do not start with a zero. -/
theorem head_toDigits (n : Nat) (h : 0 < n) : (Nat.toDigits 10 n).head? ≠ some '0' := by
  induction n using Nat.strongRecOn with
  | _ n ih =>
    by_cases hlt : n < 10
    · rw [Nat.toDigits_of_lt_base hlt]
      have hall : ∀ m ∈ List.range 10, 0 < m → [Nat.digitChar m].head? ≠ some '0' := by decide
      exact hall n (List.mem_range.mpr hlt) h
    · rw [Nat.toDigits_of_base_le (by omega) (by omega),
        List.head?_append_of_ne_nil _ Nat.toDigits_ne_nil]
      exact ih (n / 10) (by omega) (by omega)

/-! ## The parts of a number -/

theorem readFrac_append {fp rest : List Char} (hfp : ∀ c ∈ fp, c.isDigit = true)
    (hr : DigitEnd rest) (hdot : rest.head? ≠ some '.') :
    readFrac ((if fp = [] then [] else '.' :: fp) ++ rest) = some (fp, rest) := by
  split
  · next h =>
    subst h
    rw [List.nil_append]
    unfold readFrac
    split
    · simp at hdot
    · rfl
  · next h =>
    rw [List.cons_append, readFrac, takeWhile_digits hfp hr, dropWhile_digits hfp hr, if_neg h]

theorem readExp_none {rest : List Char} (hr : NumEnd rest) : readExp rest = some (0, rest) := by
  cases rest with
  | nil => rfl
  | cons c cs =>
    obtain ⟨-, -, h1, h2⟩ := hr c rfl
    rw [readExp, if_neg (by simp [h1, h2])]

theorem readExp_some (e : Int) {rest : List Char} (hr : DigitEnd rest) :
    readExp ('e' :: (if e < 0 then '-' else '+') :: (Nat.toDigits 10 e.natAbs ++ rest))
      = some (e, rest) := by
  have hne : Nat.toDigits 10 e.natAbs ≠ [] := Nat.toDigits_ne_nil
  rw [readExp, if_pos (Or.inl rfl)]
  by_cases hneg : e < 0
  · simp only [hneg, if_true, readSign, takeWhile_digits isDigit_toDigits hr,
      dropWhile_digits isDigit_toDigits hr, hne, if_false, Nat.ofDigitChars_ten_toDigits,
      Option.some.injEq, Prod.mk.injEq, and_true]
    omega
  · simp only [hneg, readSign, takeWhile_digits isDigit_toDigits hr,
      dropWhile_digits isDigit_toDigits hr, hne, if_false, Nat.ofDigitChars_ten_toDigits,
      Option.some.injEq, Prod.mk.injEq, and_true, Bool.false_eq_true]
    omega

/-- The exponent part of a number's text. -/
def expText : Option Int → List Char
  | none => []
  | some e => 'e' :: (if e < 0 then '-' else '+') :: Nat.toDigits 10 e.natAbs

theorem readExp_append (ex : Option Int) {rest : List Char} (hr : NumEnd rest) :
    readExp (expText ex ++ rest) = some (ex.getD 0, rest) := by
  cases ex with
  | none => exact readExp_none hr
  | some e => exact readExp_some e hr.digitEnd

/-- Neither a digit nor a point follows the integer and fraction digits. -/
theorem expText_end (ex : Option Int) {rest : List Char} (hr : NumEnd rest) :
    DigitEnd (expText ex ++ rest) ∧ (expText ex ++ rest).head? ≠ some '.' := by
  cases ex with
  | none => exact ⟨hr.digitEnd, fun h => (hr '.' h).2.1 rfl⟩
  | some e => exact ⟨digitEnd_cons (by decide), by simp [expText]⟩

theorem readUnsigned_append (neg : Bool) {ip fp : List Char} (ex : Option Int) {rest : List Char}
    (hip : ∀ c ∈ ip, c.isDigit = true) (hne : ip ≠ [])
    (hzero : ip.length ≤ 1 ∨ ip.head? ≠ some '0') (hfp : ∀ c ∈ fp, c.isDigit = true)
    (hr : NumEnd rest) :
    readUnsigned neg (ip ++ ((if fp = [] then [] else '.' :: fp) ++ (expText ex ++ rest)))
      = some (Decimal.of (if neg then -(Nat.ofDigitChars 10 (ip ++ fp) 0 : Int)
          else (Nat.ofDigitChars 10 (ip ++ fp) 0 : Int)) (ex.getD 0 - fp.length), rest) := by
  obtain ⟨hend, hdot⟩ := expText_end ex hr
  have hdig : DigitEnd ((if fp = [] then [] else '.' :: fp) ++ (expText ex ++ rest)) := by
    split
    · exact hend
    · exact digitEnd_cons (by decide)
  have hok : ¬ (ip = [] ∨ (1 < ip.length ∧ ip.head? = some '0')) := by
    rintro (h | ⟨h1, h2⟩)
    · exact hne h
    · rcases hzero with h | h
      · omega
      · exact h h2
  unfold readUnsigned
  simp only [takeWhile_digits hip hdig, dropWhile_digits hip hdig, readFrac_append hfp hend hdot,
    readExp_append ex hr, if_neg hok]

theorem readNum_numText (neg : Bool) {ip fp : List Char} (ex : Option Int) {rest : List Char}
    (hip : ∀ c ∈ ip, c.isDigit = true) (hne : ip ≠ [])
    (hzero : ip.length ≤ 1 ∨ ip.head? ≠ some '0') (hfp : ∀ c ∈ fp, c.isDigit = true)
    (hr : NumEnd rest) :
    readNum (numText neg ip fp ex ++ rest)
      = some (Decimal.of (if neg then -(Nat.ofDigitChars 10 (ip ++ fp) 0 : Int)
          else (Nat.ofDigitChars 10 (ip ++ fp) 0 : Int)) (ex.getD 0 - fp.length), rest) := by
  have htext : numText neg ip fp ex ++ rest = (if neg then ['-'] else []) ++
      (ip ++ ((if fp = [] then [] else '.' :: fp) ++ (expText ex ++ rest))) := by
    cases ex <;> simp only [numText, expText, List.append_assoc]
  rw [htext, ← readUnsigned_append neg ex hip hne hzero hfp hr]
  cases neg with
  | true => rfl
  | false =>
    cases ip with
    | nil => exact absurd rfl hne
    | cons d ds =>
      have hd : d ≠ '-' := by
        intro h
        have := hip d List.mem_cons_self
        rw [h] at this
        exact absurd this (by decide)
      show readNum (d :: _) = readUnsigned false (d :: _)
      unfold readNum
      split
      · next h => exact absurd (List.cons.inj h).1 hd
      · rfl

/-! ## Numbers -/

section

variable {ds : List Char} {e : Int} (hds : ∀ c ∈ ds, c.isDigit = true) (hne : ds ≠ [])
  (hhead : ds.head? ≠ some '0')

include hds in
theorem isDigit_numParts : (∀ c ∈ (numParts ds e).1, c.isDigit = true) ∧
    ∀ c ∈ (numParts ds e).2.1, c.isDigit = true := by
  have hz : ∀ n, ∀ c ∈ List.replicate n '0', c.isDigit = true := by
    intro n c hc
    rw [(List.mem_replicate.mp hc).2]
    decide
  unfold numParts
  dsimp only
  split
  · refine ⟨by simp, fun c hc => ?_⟩
    rcases List.mem_append.mp hc with h | h
    · exact hz _ c h
    · exact hds c h
  · split
    · split
      · exact ⟨fun c hc => hds c (List.mem_of_mem_take hc),
        fun c hc => hds c (List.mem_of_mem_drop hc)⟩
      · refine ⟨fun c hc => ?_, by simp⟩
        rcases List.mem_append.mp hc with h | h
        · exact hds c h
        · exact hz _ c h
    · exact ⟨fun c hc => hds c (List.mem_of_mem_take hc),
        fun c hc => hds c (List.mem_of_mem_drop hc)⟩

include hne hhead in
theorem numParts_head : (numParts ds e).1 ≠ [] ∧
    ((numParts ds e).1.length ≤ 1 ∨ (numParts ds e).1.head? ≠ some '0') := by
  obtain ⟨d, ds', rfl⟩ := List.exists_cons_of_ne_nil hne
  rw [List.head?_cons] at hhead
  unfold numParts
  dsimp only
  split
  · simp
  · split
    · next h =>
      split
      · obtain ⟨k, hk⟩ : ∃ k, (((d :: ds').length : Int) + e).toNat = k + 1 :=
          ⟨(((d :: ds').length : Int) + e).toNat - 1, by omega⟩
        rw [hk]
        exact ⟨by simp, Or.inr (by simpa using hhead)⟩
      · exact ⟨by simp, Or.inr (by simpa using hhead)⟩
    · exact ⟨by simp, Or.inl (by simp)⟩

include hne in
/-- The point is placed so that the value stays the same. -/
theorem numParts_value :
    ((Nat.ofDigitChars 10 ((numParts ds e).1 ++ (numParts ds e).2.1) 0 : Nat) : ℚ)
        * 10 ^ ((numParts ds e).2.2.getD 0 - ((numParts ds e).2.1.length : Int))
      = (Nat.ofDigitChars 10 ds 0 : Nat) * 10 ^ e := by
  have hlen : 0 < ds.length := List.length_pos_iff.mpr hne
  unfold numParts
  dsimp only
  split
  · next h =>
    have hval : Nat.ofDigitChars 10
        (['0'] ++ (List.replicate (-((ds.length : Int) + e)).toNat '0' ++ ds)) 0
        = Nat.ofDigitChars 10 ds 0 := by
      rw [Nat.ofDigitChars_append, Nat.ofDigitChars_append, Nat.ofDigitChars_cons,
        Nat.ofDigitChars_nil, Nat.ofDigitChars_replicate_zero]
      simp
    rw [hval, Option.getD_none, List.length_append, List.length_replicate]
    congr 2
    push_cast
    omega
  · split
    · next h =>
      split
      · rw [List.take_append_drop, Option.getD_none, List.length_drop]
        congr 2
        omega
      · next he =>
        obtain ⟨k, rfl⟩ := Int.eq_ofNat_of_zero_le (not_lt.mp he)
        rw [List.append_nil, Nat.ofDigitChars_append, Int.toNat_natCast,
          Nat.ofDigitChars_replicate_zero]
        simp [mul_comm]
    · rw [List.take_append_drop, Option.getD_some, List.length_drop]
      congr 2
      omega

end

/-- **A printed number is read back.** -/
theorem readNum_renderNum (d : Decimal) {rest : List Char} (hr : NumEnd rest) :
    readNum (renderNum d ++ rest) = some (d, rest) := by
  unfold renderNum
  split
  · next h =>
    have := @readNum_numText false ['0'] [] none rest (by simp) (by simp) (by simp) (by simp) hr
    simp only [numText, List.append_nil, Bool.false_eq_true, if_false, if_true,
      List.nil_append] at this
    rw [this]
    refine congrArg (fun x => some (x, rest)) (Decimal.toRat_injective ?_)
    rw [Decimal.toRat_of, Decimal.toRat, h]
    simp [Nat.ofDigitChars]
  · next h =>
    have hpos : 0 < d.mant.natAbs := by omega
    have hds : ∀ c ∈ Nat.toDigits 10 d.mant.natAbs, c.isDigit = true := isDigit_toDigits
    have hne : Nat.toDigits 10 d.mant.natAbs ≠ [] := Nat.toDigits_ne_nil
    obtain ⟨hip, hfp⟩ := isDigit_numParts (e := d.exp) hds
    obtain ⟨hipne, hzero⟩ := numParts_head (e := d.exp) hne (head_toDigits _ hpos)
    have hval := numParts_value (e := d.exp) hne
    rw [Nat.ofDigitChars_ten_toDigits] at hval
    rw [readNum_numText _ _ hip hipne hzero hfp hr]
    refine congrArg (fun x => some (x, rest)) (Decimal.toRat_injective ?_)
    rw [Decimal.toRat_of, Decimal.toRat]
    split
    · next hneg =>
      rw [decide_eq_true_eq] at hneg
      push_cast
      rw [neg_mul, hval, ← neg_mul]
      congr 1
      rw [Nat.cast_natAbs, abs_of_neg hneg]
      push_cast
      ring
    · next hneg =>
      rw [decide_eq_true_eq] at hneg
      push_cast
      rw [hval]
      congr 1
      rw [Nat.cast_natAbs, abs_of_nonneg (by omega)]

/-- A zero with a sign is read as zero. -/
theorem readNum_negZero {rest : List Char} (hr : NumEnd rest) :
    readNum ('-' :: '0' :: rest) = some (Decimal.of 0 0, rest) := by
  have := @readNum_numText true ['0'] [] none rest (by simp) (by simp) (by simp) (by simp) hr
  simpa [numText, Nat.ofDigitChars] using this

/-- A number starts with a sign or a digit, and zero has no sign. -/
theorem renderNum_head (d : Decimal) : ∃ c cs, renderNum d = c :: cs ∧
    (c = '-' ∨ c.isDigit = true) ∧ ¬ (c = '-' ∧ d.mant = 0) := by
  unfold renderNum
  split
  · exact ⟨'0', [], rfl, Or.inr (by decide), fun h => absurd h.1 (by decide)⟩
  · next h =>
    have hds : ∀ c ∈ Nat.toDigits 10 d.mant.natAbs, c.isDigit = true := isDigit_toDigits
    obtain ⟨hip, -⟩ := isDigit_numParts (e := d.exp) hds
    obtain ⟨hne, -⟩ := numParts_head (e := d.exp) Nat.toDigits_ne_nil
      (head_toDigits _ (Int.natAbs_pos.mpr h))
    obtain ⟨c, cs, hcs⟩ := List.exists_cons_of_ne_nil hne
    dsimp only
    rw [hcs] at hip ⊢
    unfold numText
    split
    · exact ⟨'-', _, rfl, Or.inl rfl, fun hzero => h hzero.2⟩
    · exact ⟨c, _, rfl, Or.inr (hip c List.mem_cons_self), fun hzero => h hzero.2⟩

/-! ## Strings -/

/-- Every escape is read back as the character it stands for. -/
def EscapeOk (esc : Char → List Char) : Prop :=
  ∀ c rest, readChar (esc c ++ rest) = some (some c, rest)

theorem hexCharValue_hexChar {n : Nat} (h : n < 16) : hexCharValue (hexChar n) = some n := by
  have hall : ∀ n ∈ List.range 16, hexCharValue (hexChar n) = some n := by decide
  exact hall n (List.mem_range.mpr h)

theorem readChar_unicodeEscape {n : Nat} (h : n < 0xD800) (rest : List Char) :
    readChar (unicodeEscape n ++ rest) = some (some (Char.ofNat n), rest) := by
  have hhex : readHex4 (hexChar (n / 4096 % 16) :: hexChar (n / 256 % 16) :: hexChar (n / 16 % 16)
      :: hexChar (n % 16) :: rest) = some (n, rest) := by
    simp only [readHex4, hexCharValue_hexChar (Nat.mod_lt _ (by omega : 0 < 16)),
      Option.some.injEq, Prod.mk.injEq, and_true]
    omega
  have huni : readUnicode (hexChar (n / 4096 % 16) :: hexChar (n / 256 % 16) ::
      hexChar (n / 16 % 16) :: hexChar (n % 16) :: rest) = some (Char.ofNat n, rest) := by
    rw [readUnicode, hhex]
    exact if_neg (by omega)
  show readChar ('\\' :: 'u' :: hexChar (n / 4096 % 16) :: hexChar (n / 256 % 16) ::
    hexChar (n / 16 % 16) :: hexChar (n % 16) :: rest) = _
  rw [readChar, if_neg (by decide), if_pos rfl, readEscape, if_pos rfl, huni]

/-- A character that stands for itself inside a string. -/
theorem readChar_self {c : Char} (hq : c ≠ '"') (hb : c ≠ '\\') (h : 0x20 ≤ c.toNat)
    (rest : List Char) : readChar (c :: rest) = some (some c, rest) := by
  rw [readChar, if_neg hq, if_neg hb, if_neg (by omega)]

theorem escapeOk_escapeWith {other : Char → List Char}
    (h : ∀ c rest, c ≠ '"' → c ≠ '\\' → 0x20 ≤ c.toNat →
      readChar (other c ++ rest) = some (some c, rest)) : EscapeOk (escapeWith other) := by
  intro c rest
  unfold escapeWith
  split
  · next hc => rw [hc]; rfl
  split
  · next hc => rw [hc]; rfl
  split
  · next hc => rw [hc]; rfl
  split
  · next hc => rw [hc]; rfl
  split
  · next hc => rw [hc]; rfl
  split
  · next hc => rw [hc]; rfl
  split
  · next hc => rw [hc]; rfl
  split
  · next hlt =>
    rw [readChar_unicodeEscape (by omega), Char.ofNat_toNat]
  · next hq hb _ _ _ _ _ hlt => exact h c rest hq hb (by omega)

section

variable {esc : Char → List Char} (hesc : EscapeOk esc)

include hesc

theorem esc_ne_nil (c : Char) : esc c ≠ [] := by
  intro h
  have := hesc c []
  rw [h] at this
  cases this

theorem length_le_flatMap : ∀ s : List Char, s.length ≤ (s.flatMap esc).length
  | [] => Nat.le_refl _
  | c :: s => by
    have hpos : 0 < (esc c).length := List.length_pos_iff.mpr (esc_ne_nil hesc c)
    have ih := length_le_flatMap s
    rw [List.flatMap_cons, List.length_append, List.length_cons]
    omega

theorem readStr_flatMap (rest : List Char) : ∀ (s : List Char) (n : Nat), s.length < n →
    readStr n (s.flatMap esc ++ '"' :: rest) = some (s, rest)
  | [], n + 1, _ => by rw [readStr]; rfl
  | c :: s, n + 1, h => by
    rw [List.flatMap_cons, List.append_assoc, readStr, hesc]
    simp only [readStr_flatMap rest s n (by simpa using h)]

/-- **A printed string is read back**, with the length of the text as the bound. -/
theorem readStr_renderStr (s rest : List Char) :
    readStr ((s.flatMap esc ++ '"' :: rest).length + 1) (s.flatMap esc ++ '"' :: rest)
      = some (s, rest) := by
  refine readStr_flatMap hesc rest s _ ?_
  have := length_le_flatMap hesc s
  rw [List.length_append]
  omega

end

/-! ## Values -/

theorem skipWs_cons {c : Char} {cs : List Char} (h : isWs c = false) :
    skipWs (c :: cs) = c :: cs := by
  rw [skipWs, List.dropWhile_cons_of_neg (by rw [h]; exact Bool.false_ne_true)]

theorem renderStr_append (esc : Char → List Char) (s rest : List Char) :
    renderStr esc s ++ rest = '"' :: (s.flatMap esc ++ '"' :: rest) := by
  simp [renderStr]

theorem readName_renderStr {esc : Char → List Char} (hesc : EscapeOk esc) (k rest : List Char) :
    readName (renderStr esc k ++ ':' :: rest) = some (k, rest) := by
  rw [renderStr_append, readName, skipWs_cons (by decide)]
  simp only [readStr_renderStr hesc, skipWs_cons (show isWs ':' = false by decide)]

/-- The first character of a number is none of those that start another value or are blank. -/
theorem ne_of_number_head {c : Char} (c' : Char) (hc : c = '-' ∨ c.isDigit = true) (h1 : c' ≠ '-')
    (h2 : c'.isDigit = false) : c ≠ c' := by
  rintro rfl
  rcases hc with h | h
  · exact h1 h
  · rw [h2] at h
    exact Bool.false_ne_true h

theorem isWs_number_head {c : Char} (hc : c = '-' ∨ c.isDigit = true) : isWs c = false := by
  simp [isWs, ne_of_number_head ' ' hc (by decide) (by decide),
    ne_of_number_head '\t' hc (by decide) (by decide),
    ne_of_number_head '\n' hc (by decide) (by decide),
    ne_of_number_head '\r' hc (by decide) (by decide)]

/-- A text that starts like a number is read as one. -/
theorem readValue_number (n : Nat) {c : Char} {cs : List Char} (hc : c = '-' ∨ c.isDigit = true) :
    readValue (n + 1) (c :: cs) = match readNum (c :: cs) with
      | some (d, rest) => some (numOf c d, rest)
      | none => none := by
  have hne : ∀ c' : Char, c' ≠ '-' → c'.isDigit = false → c ≠ c' :=
    fun c' => ne_of_number_head c' hc
  rw [readValue, skipWs_cons (isWs_number_head hc)]
  refine (if_neg (hne 'n' (by decide) (by decide))).trans ?_
  refine (if_neg (hne 't' (by decide) (by decide))).trans ?_
  refine (if_neg (hne 'f' (by decide) (by decide))).trans ?_
  refine (if_neg (hne '"' (by decide) (by decide))).trans ?_
  refine (if_neg (hne '[' (by decide) (by decide))).trans ?_
  exact if_neg (hne '{' (by decide) (by decide))

/-- A printed value starts with a character that is neither blank nor a closing bracket. -/
theorem render_head (esc : Char → List Char) (j : Json) :
    ∃ c cs, render esc j = c :: cs ∧ isWs c = false ∧ c ≠ ']' := by
  cases j with
  | null => exact ⟨_, _, rfl, by decide, by decide⟩
  | bool b => cases b <;> exact ⟨_, _, rfl, by decide, by decide⟩
  | num d =>
    obtain ⟨c, cs, hcs, hc, -⟩ := renderNum_head d
    exact ⟨c, cs, hcs, isWs_number_head hc, ne_of_number_head _ hc (by decide) (by decide)⟩
  | negZero => exact ⟨'-', _, rfl, by decide, by decide⟩
  | str s => exact ⟨'"', _, rfl, by decide, by decide⟩
  | arr xs => cases xs <;> exact ⟨'[', _, rfl, by decide, by decide⟩
  | obj ms => rcases ms with _ | ⟨⟨k, x⟩, ms⟩ <;> exact ⟨'{', _, rfl, by decide, by decide⟩

theorem numEnd_renderElems (esc : Char → List Char) (xs : List Json) (rest : List Char) :
    NumEnd (renderElems esc xs ++ rest) := by
  cases xs <;> exact numEnd_cons (by decide) (by decide) (by decide) (by decide)

theorem numEnd_renderMembers (esc : Char → List Char) (ms : List (List Char × Json))
    (rest : List Char) : NumEnd (renderMembers esc ms ++ rest) := by
  rcases ms with _ | ⟨⟨k, x⟩, ms⟩ <;>
    exact numEnd_cons (by decide) (by decide) (by decide) (by decide)

mutual

/-- The three readers undo the three printers, by induction on the tree. -/
theorem readValue_render {esc : Char → List Char} (hesc : EscapeOk esc) :
    ∀ (j : Json) (n : Nat) (rest : List Char), NumEnd rest →
    (render esc j).length ≤ n → readValue n (render esc j ++ rest) = some (j, rest)
  | j, 0, rest, _, h => by
    obtain ⟨c, cs, hj, -⟩ := render_head esc j
    rw [hj] at h
    exact absurd h (by simp)
  | .null, n + 1, rest, _, _ => by rw [readValue]; rfl
  | .bool true, n + 1, rest, _, _ => by rw [readValue]; rfl
  | .bool false, n + 1, rest, _, _ => by rw [readValue]; rfl
  | .num d, n + 1, rest, hr, _ => by
    obtain ⟨c, cs, hcs, hc, hsign⟩ := renderNum_head d
    have hread := readNum_renderNum d hr
    rw [hcs, List.cons_append] at hread
    rw [render, hcs, List.cons_append, readValue_number n hc, hread]
    dsimp only
    rw [numOf, if_neg hsign]
  | .negZero, n + 1, rest, hr, _ => by
    rw [render, List.cons_append, List.cons_append, List.nil_append,
      readValue_number n (Or.inl rfl), readNum_negZero hr]
    rfl
  | .str s, n + 1, rest, _, _ => by
    rw [render, renderStr_append, readValue, skipWs_cons (by decide)]
    simp only [readStr_renderStr hesc]
    rfl
  | .arr [], n + 1, rest, _, _ => by rw [readValue]; rfl
  | .arr (x :: xs), n + 1, rest, _, h => by
    rw [render, List.length_cons, List.length_append] at h
    obtain ⟨c, cs, hx, hws, hbr⟩ := render_head esc x
    have hval := readValue_render hesc x n (renderElems esc xs ++ rest)
      (numEnd_renderElems esc xs rest) (by omega)
    have helems := readElems_render hesc xs n rest (by omega)
    rw [hx, List.cons_append] at hval
    rw [render, List.cons_append, List.append_assoc, readValue, skipWs_cons (by decide)]
    dsimp only
    rw [if_neg (by decide), if_neg (by decide), if_neg (by decide), if_neg (by decide), if_pos rfl,
      hx, List.cons_append, skipWs_cons hws]
    split
    · next heq => exact absurd (List.cons.inj heq).1 hbr
    · rw [hval]
      dsimp only
      rw [helems]
  | .obj [], n + 1, rest, _, _ => by rw [readValue]; rfl
  | .obj ((k, x) :: ms), n + 1, rest, _, h => by
    rw [render] at h
    simp only [List.length_cons, List.length_append] at h
    have hname := readName_renderStr hesc k (render esc x ++ (renderMembers esc ms ++ rest))
    have hval := readValue_render hesc x n (renderMembers esc ms ++ rest)
      (numEnd_renderMembers esc ms rest) (by omega)
    have hms := readMembers_render hesc ms n rest (by omega)
    rw [renderStr_append] at hname
    rw [render, List.cons_append, List.append_assoc, List.cons_append, List.append_assoc, readValue,
      skipWs_cons (by decide)]
    dsimp only
    rw [if_neg (by decide), if_neg (by decide), if_neg (by decide), if_neg (by decide),
      if_neg (by decide), if_pos rfl, renderStr_append, skipWs_cons (by decide)]
    split
    · next heq => exact absurd (List.cons.inj heq).1 (by decide)
    · simp only [hname, hval, hms]

theorem readElems_render {esc : Char → List Char} (hesc : EscapeOk esc) :
    ∀ (xs : List Json) (n : Nat) (rest : List Char),
    (renderElems esc xs).length ≤ n → readElems n (renderElems esc xs ++ rest) = some (xs, rest)
  | [], 0, _, h => absurd h (by simp [renderElems])
  | x :: xs, 0, _, h => absurd h (by simp [renderElems])
  | [], n + 1, rest, _ => by rw [readElems]; rfl
  | x :: xs, n + 1, rest, h => by
    rw [renderElems, List.length_cons, List.length_append] at h
    rw [renderElems, List.cons_append, List.append_assoc, readElems, skipWs_cons (by decide)]
    simp only [readValue_render hesc x n (renderElems esc xs ++ rest)
      (numEnd_renderElems esc xs rest) (by omega), readElems_render hesc xs n rest (by omega)]

theorem readMembers_render {esc : Char → List Char} (hesc : EscapeOk esc) :
    ∀ (ms : List (List Char × Json)) (n : Nat) (rest : List Char),
    (renderMembers esc ms).length ≤ n →
      readMembers n (renderMembers esc ms ++ rest) = some (ms, rest)
  | [], 0, _, h => absurd h (by simp [renderMembers])
  | (k, x) :: ms, 0, _, h => absurd h (by simp [renderMembers])
  | [], n + 1, rest, _ => by rw [readMembers]; rfl
  | (k, x) :: ms, n + 1, rest, h => by
    rw [renderMembers] at h
    simp only [List.length_cons, List.length_append] at h
    rw [renderMembers, List.cons_append, List.append_assoc, List.cons_append, List.append_assoc,
      readMembers, skipWs_cons (by decide)]
    simp only [readName_renderStr hesc, readValue_render hesc x n (renderMembers esc ms ++ rest)
      (numEnd_renderMembers esc ms rest) (by omega), readMembers_render hesc ms n rest (by omega)]

end

section

variable {esc : Char → List Char} (hesc : EscapeOk esc)

include hesc

/-- **The parser undoes the printer.** -/
theorem parse_render (j : Json) : parse (render esc j) = some j := by
  have h := readValue_render hesc j ((render esc j).length + 1) [] (by simp [NumEnd]) (by omega)
  rw [List.append_nil] at h
  rw [parse, h]
  rfl

/-- A printed text determines its tree. -/
theorem render_injective : Function.Injective (render esc) := by
  intro j j' h
  have := parse_render hesc j
  rw [h, parse_render hesc j'] at this
  exact (Option.some.inj this).symm

end

end Infra.Json
