import Logryph.Infra.GoJson

/-!
# Numbers as text

`strconv.ParseFloat` and the text that `fmt` gives for `%v`.

* `parseFloat` — decimal and hexadecimal literals with separating underscores, and the names of the
  infinities and of NaN; a literal beyond the finite range is an error
* `sprint` — a dynamic value as `%v` prints it
* `parseFloat_intChars`, `sprint_int`, `sprint_int_ne` — an integer is parsed to the nearest number,
  and printed as it is written below a million only
* `sprint_minusZero_ne` — a zero with a sign is printed with it
-/

namespace Infra

/-! ## Parsing -/

/-- What `ParseFloat` can return. -/
inductive GoFloat where
  | nan
  | inf (neg : Bool)
  | finite (x : Float64)

namespace GoFloat

/-- `a < b`. Nothing is below or above NaN. -/
def lt : GoFloat → GoFloat → Bool
  | .nan, _ => false
  | _, .nan => false
  | .inf n, .inf m => n && !m
  | .inf n, .finite _ => n
  | .finite _, .inf m => !m
  | .finite x, .finite y => decide (x.val < y.val)

/-- `a <= b`. -/
def le : GoFloat → GoFloat → Bool
  | .nan, _ => false
  | _, .nan => false
  | .inf n, .inf m => n || !m
  | .inf n, .finite _ => n
  | .finite _, .inf m => !m
  | .finite x, .finite y => decide (x.val ≤ y.val)

end GoFloat

/-- The value of a digit. -/
def digitValue (hex : Bool) (c : Char) : Option Nat :=
  if c.isDigit then some (c.toNat - 0x30)
  else if hex then
    if 'a' ≤ c ∧ c ≤ 'f' then some (c.toNat - 0x57)
    else if 'A' ≤ c ∧ c ≤ 'F' then some (c.toNat - 0x37)
    else none
  else none

/-- What the scan of a mantissa has seen: the digits as a number, how many of them stand after the
point, and whether there was a point and a digit. -/
structure Mantissa where
  value : Nat := 0
  fraction : Nat := 0
  sawDot : Bool := false
  sawDigits : Bool := false

/-- The digits of a literal, up to a second point or anything else. -/
def scanMantissa (hex : Bool) : Mantissa → List Char → Mantissa × List Char
  | m, [] => (m, [])
  | m, c :: cs =>
    if c = '_' then scanMantissa hex m cs
    else if c = '.' then
      if m.sawDot then (m, c :: cs) else scanMantissa hex { m with sawDot := true } cs
    else
      match digitValue hex c with
      | none => (m, c :: cs)
      | some d =>
        scanMantissa hex
          { m with
            value := m.value * (if hex then 16 else 10) + d
            fraction := if m.sawDot then m.fraction + 1 else m.fraction
            sawDigits := true } cs

/-- The digits of an exponent. From five digits on, further ones are ignored. -/
def scanExponent : Nat → List Char → Nat × List Char
  | e, [] => (e, [])
  | e, c :: cs =>
    if c = '_' then scanExponent e cs
    else if c.isDigit then
      scanExponent (if e < 10000 then e * 10 + (c.toNat - 0x30) else e) cs
    else (e, c :: cs)

/-- An exponent to the end of the text. A hexadecimal literal must have one. -/
def readExponent (hex : Bool) : List Char → Option Int
  | [] => if hex then none else some 0
  | c :: cs =>
    if c.toLower = (if hex then 'p' else 'e') then
      let (neg, ds) := Json.readSign cs
      match ds with
      | [] => none
      | d :: _ =>
        if d.isDigit then
          match scanExponent 0 ds with
          | (e, []) => some (if neg then -(e : Int) else e)
          | (_, _ :: _) => none
        else none
    else none

/-- The last kind of character seen by `underscoreOK`. -/
inductive Saw where
  | start
  | digit
  | underscore
  | other
  deriving DecidableEq

def underscoreLoop (hex : Bool) : Saw → List Char → Bool
  | saw, [] => decide (saw ≠ .underscore)
  | saw, c :: cs =>
    if (digitValue hex c).isSome then underscoreLoop hex .digit cs
    else if c = '_' then
      if saw = .digit then underscoreLoop hex .underscore cs else false
    else if saw = .underscore then false
    else underscoreLoop hex .other cs

/-- `underscoreOK`: underscores separate digits, or a base prefix from a digit. -/
def underscoreOK (cs : List Char) : Bool :=
  match (Json.readSign cs).2 with
  | '0' :: b :: rest =>
    if b.toLower = 'x' then underscoreLoop true .digit rest
    else if b.toLower = 'b' ∨ b.toLower = 'o' then underscoreLoop false .digit rest
    else underscoreLoop false .start ('0' :: b :: rest)
  | cs => underscoreLoop false .start cs

/-- A literal after its sign and base prefix. -/
def readLiteral (hex neg : Bool) (cs : List Char) : Option ℚ :=
  let (m, rest) := scanMantissa hex {} cs
  if m.sawDigits then
    match readExponent hex rest with
    | none => none
    | some e =>
      let q : ℚ := if hex then m.value * 2 ^ (e - 4 * m.fraction)
        else m.value * 10 ^ (e - m.fraction)
      some (if neg then -q else q)
  else none

/-- The value of a literal. -/
def readFloat (cs : List Char) : Option ℚ :=
  let (neg, ds) := Json.readSign cs
  let value :=
    match ds with
    | '0' :: b :: c :: rest =>
      if b.toLower = 'x' then readLiteral true neg (c :: rest) else readLiteral false neg ds
    | _ => readLiteral false neg ds
  if cs.contains '_' && !underscoreOK cs then none else value

/-- The names of values that have no literal. -/
def specialFloat (cs : List Char) : Option GoFloat :=
  let (neg, name) := Json.readSign (cs.map Char.toLower)
  if name = ['i', 'n', 'f'] ∨ name = ['i', 'n', 'f', 'i', 'n', 'i', 't', 'y'] then some (.inf neg)
  else if cs.map Char.toLower = ['n', 'a', 'n'] then some .nan
  else none

/-- A number after a sign, which a zero keeps. -/
def Float64.withSign (neg : Bool) (x : Float64) : Float64 :=
  if neg ∧ x.val = 0 then .minusZero else x

/-- `strconv.ParseFloat(s, 64)`. -/
def parseFloat (s : Bytes) : Option GoFloat :=
  match specialFloat (runes s) with
  | some x => some x
  | none =>
    match readFloat (runes s) with
    | none => none
    | some q => (Float64.ofRat? q).map fun x => .finite (x.withSign (Json.readSign (runes s)).1)

/-! ## Printing -/

/-- The text of a number with the format `g`: an exponent is written from a million on and below
one ten-thousandth. -/
def formatG (d : Decimal) : List Char :=
  let ds := Nat.toDigits 10 d.mant.natAbs
  let n : Int := ds.length + d.exp
  let sign := if d.mant < 0 then ['-'] else []
  if n - 1 < -4 ∨ 6 ≤ n - 1 then
    let e := Nat.toDigits 10 (n - 1).natAbs
    sign ++ ds.take 1 ++ (if ds.length = 1 then [] else '.' :: ds.drop 1) ++
      'e' :: (if n - 1 < 0 then '-' else '+') :: (if e.length = 1 then '0' :: e else e)
  else if n ≤ 0 then sign ++ '0' :: '.' :: List.replicate (-n).toNat '0' ++ ds
  else if 0 ≤ d.exp then sign ++ ds ++ List.replicate d.exp.toNat '0'
  else sign ++ ds.take n.toNat ++ '.' :: ds.drop n.toNat

/-- A number that is not negative with the format `f` and so many digits after the point. -/
def formatF (digits : Nat) (q : ℚ) : List Char :=
  let n := (roundEven (q * 10 ^ digits)).toNat
  let ds := Nat.toDigits 10 (n % 10 ^ digits)
  Nat.toDigits 10 (n / 10 ^ digits) ++ '.' :: (List.replicate (digits - ds.length) '0' ++ ds)

mutual

/-- A value as `%v` prints it. Only the kinds that reading JSON gives are told apart. -/
def sprint : Value → Bytes
  | .nil => lit "<nil>"
  | .bool true => lit "true"
  | .bool false => lit "false"
  | .float64 x => utf8 (if x.negZero then ['-', '0'] else formatG x.shortest)
  | .string s => s
  | .slice xs => lit "[" ++ sprintList xs ++ lit "]"
  | .map ms => lit "map[" ++ sprintMembers ms ++ lit "]"
  | _ => []

def sprintList : List Value → Bytes
  | [] => []
  | [x] => sprint x
  | x :: xs => sprint x ++ lit " " ++ sprintList xs

def sprintMembers : List (Bytes × Value) → Bytes
  | [] => []
  | [(k, x)] => k ++ lit ":" ++ sprint x
  | (k, x) :: ms => k ++ lit ":" ++ sprint x ++ lit " " ++ sprintMembers ms

end

/-! ## Integers

An integer is parsed to the nearest number whatever its size, but only printed as it was written
while it has at most six digits. -/

theorem toDigits_mul_pow {m : Nat} (hm : 0 < m) :
    ∀ k, Nat.toDigits 10 (m * 10 ^ k) = Nat.toDigits 10 m ++ List.replicate k '0'
  | 0 => by simp
  | k + 1 => by
    have hpos : 0 < m * 10 ^ k := by positivity
    have hstep : m * 10 ^ (k + 1) = 10 * (m * 10 ^ k) + 0 := by ring
    rw [hstep, ← Nat.toDigits_append_toDigits (by decide) hpos (by decide), toDigits_mul_pow hm k,
      List.replicate_succ', List.append_assoc]
    rfl

/-- An integer in decimal. -/
def intChars (n : Int) : List Char :=
  (if n < 0 then ['-'] else []) ++ Nat.toDigits 10 n.natAbs

/-- What the format `g` sees of an integer. -/
theorem decimalOf_int (n : Int) : ∃ k : Nat, (Decimal.of n 0).exp = k ∧
    ((Decimal.of n 0).mant < 0 ↔ n < 0) ∧
    Nat.toDigits 10 n.natAbs =
      Nat.toDigits 10 (Decimal.of n 0).mant.natAbs ++ List.replicate k '0' := by
  obtain ⟨k, hexp, hn⟩ := Decimal.exists_of_int n
  have hnormal := (Decimal.of n 0).normal
  generalize Decimal.of n 0 = d at *
  have hpow : (0 : Int) < 10 ^ k := by positivity
  refine ⟨k, hexp, ?_, ?_⟩
  · rw [hn]
    constructor
    · intro h
      exact mul_neg_of_neg_of_pos h hpow
    · intro h
      exact neg_of_mul_neg_left h hpow.le
  · have habs : n.natAbs = d.mant.natAbs * 10 ^ k := by
      rw [hn, Int.natAbs_mul, Int.natAbs_pow]
      rfl
    rcases Nat.eq_zero_or_pos d.mant.natAbs with h0 | hpos
    · -- zero has no trailing zeros to count
      have hk : k = 0 := by
        have hmant : d.mant = 0 := by omega
        rcases hnormal with h | h
        · simp [hmant] at h
        · omega
      subst hk
      simp [habs]
    · rw [habs, toDigits_mul_pow hpos]

/-- Below a million the format `g` writes an integer out. -/
theorem formatG_int {n : Int} (h : |n| < 10 ^ 6) : formatG (Decimal.of n 0) = intChars n := by
  have hlt : n.natAbs < 10 ^ 6 := by
    zify
    exact h
  obtain ⟨k, hexp, hsign, hdigits⟩ := decimalOf_int n
  have hlen := (Nat.length_toDigits_le_iff (b := 10) (by decide) (show 0 < 6 by decide)).mpr hlt
  have hne := List.length_pos_of_ne_nil
    (Nat.toDigits_ne_nil (b := 10) (n := (Decimal.of n 0).mant.natAbs))
  rw [hdigits, List.length_append, List.length_replicate] at hlen
  unfold formatG intChars
  simp only [hexp, hsign]
  rw [if_neg (by omega), if_neg (by omega), if_pos (by omega), hdigits, Int.toNat_natCast,
    List.append_assoc]

/-- From a million on it writes an exponent. -/
theorem mem_formatG_int {n : Int} (h : 10 ^ 6 ≤ |n|) : 'e' ∈ formatG (Decimal.of n 0) := by
  obtain ⟨k, hexp, -, hdigits⟩ := decimalOf_int n
  have hlen : ¬ (Nat.toDigits 10 n.natAbs).length ≤ 6 := by
    rw [Nat.length_toDigits_le_iff (by decide) (by decide)]
    zify
    exact not_lt.mpr h
  rw [hdigits, List.length_append, List.length_replicate] at hlen
  unfold formatG
  simp only [hexp]
  rw [if_pos (by omega)]
  simp

/-- A scan over digits reads them as a number. -/
theorem scanMantissa_digits : ∀ (cs : List Char) (m : Mantissa), (∀ c ∈ cs, c.isDigit = true) →
    m.sawDot = false → scanMantissa false m cs =
      ({ m with
        value := Nat.ofDigitChars 10 cs m.value
        sawDigits := m.sawDigits || !cs.isEmpty }, [])
  | [], m, _, _ => by simp [scanMantissa]
  | c :: cs, m, hcs, hdot => by
    have hc : c.isDigit = true := hcs c List.mem_cons_self
    have hunderscore : c ≠ '_' := by
      rintro rfl
      exact absurd hc (by decide)
    have hpoint : c ≠ '.' := by
      rintro rfl
      exact absurd hc (by decide)
    have hrest : ∀ c' ∈ cs, c'.isDigit = true := fun c' h => hcs c' (List.mem_cons_of_mem c h)
    rw [scanMantissa, if_neg hunderscore, if_neg hpoint, digitValue, if_pos hc]
    simp only [hdot]
    rw [scanMantissa_digits cs _ hrest rfl]
    simp [Nat.ofDigitChars_cons, Nat.mul_comm]

theorem readLiteral_digits (neg : Bool) (n : Nat) :
    readLiteral false neg (Nat.toDigits 10 n) = some (if neg then -(n : ℚ) else n) := by
  have hne : (Nat.toDigits 10 n).isEmpty = false := by simp
  unfold readLiteral
  rw [scanMantissa_digits _ _ Json.isDigit_toDigits rfl]
  simp [hne, readExponent]

theorem mem_intChars {c : Char} {n : Int} (h : c ∈ intChars n) : c = '-' ∨ c.isDigit = true := by
  unfold intChars at h
  rw [List.mem_append] at h
  rcases h with h | h
  · split at h <;> simp_all
  · exact .inr (Json.isDigit_toDigits c h)

theorem toLower_of_isDigit {c : Char} (h : c.isDigit = true) : c.toLower = c := by
  have hle : c.toNat ≤ 0x39 := (toNat_of_isDigit h).2
  refine dif_neg ?_
  rintro ⟨hge, -⟩
  have hletter : 0x41 ≤ c.toNat := hge
  omega

theorem readSign_intChars (n : Int) :
    Json.readSign (intChars n) = (decide (n < 0), Nat.toDigits 10 n.natAbs) := by
  unfold intChars
  by_cases hn : n < 0
  · simp [hn, Json.readSign]
  · rw [if_neg hn, List.nil_append, decide_eq_false hn]
    -- a digit is no sign
    have hdigits := Json.isDigit_toDigits (n := n.natAbs)
    unfold Json.readSign
    split
    · next h => exact absurd (hdigits '-' (by simp [h])) (by decide)
    · next h => exact absurd (hdigits '+' (by simp [h])) (by decide)
    · rfl

/-- An integer is read as itself. -/
theorem readFloat_intChars (n : Int) : readFloat (intChars n) = some (n : ℚ) := by
  have hunderscore : (intChars n).contains '_' = false := by
    rw [List.contains_eq_mem, decide_eq_false]
    intro h
    exact absurd (mem_intChars h) (by decide)
  have hvalue : (if decide (n < 0) = true then -((n.natAbs : Nat) : ℚ) else n.natAbs) = n := by
    rw [Nat.cast_natAbs]
    by_cases hn : n < 0
    · simp [hn, abs_of_neg hn]
    · simp [hn, abs_of_nonneg (not_lt.mp hn)]
  unfold readFloat
  rw [readSign_intChars, hunderscore]
  simp only [Bool.false_and, Bool.false_eq_true, if_false]
  -- two digits are never the prefix of a hexadecimal literal
  split
  · next b c rest hds =>
    have hb : b.isDigit = true := Json.isDigit_toDigits (n := n.natAbs) b (by simp [hds])
    rw [toLower_of_isDigit hb, if_neg, readLiteral_digits, hvalue]
    rintro rfl
    exact absurd hb (by decide)
  · rw [readLiteral_digits, hvalue]

theorem intChars_injective {m n : Int} (h : intChars m = intChars n) : m = n := by
  have hread := congrArg readFloat h
  rw [readFloat_intChars, readFloat_intChars] at hread
  exact_mod_cast Option.some.inj hread

theorem specialFloat_intChars (n : Int) : specialFloat (intChars n) = none := by
  have hlower : (intChars n).map Char.toLower = intChars n := by
    refine List.map_congr_left (fun c hc => ?_) |>.trans (List.map_id _)
    rcases mem_intChars hc with rfl | h
    · rfl
    · exact toLower_of_isDigit h
  have hi : 'i' ∉ Nat.toDigits 10 n.natAbs := fun h =>
    absurd (Json.isDigit_toDigits 'i' h) (by decide)
  have hn : 'n' ∉ intChars n := fun h => absurd (mem_intChars h) (by decide)
  unfold specialFloat
  rw [hlower, readSign_intChars]
  simp only
  rw [if_neg, if_neg]
  · intro h
    simp [h] at hn
  · rintro (h | h) <;> simp [h] at hi

/-- Only the text of zero is read as zero, and that has no sign. -/
theorem withSign_of_int {n : Int} {x : Float64} (h : Float64.ofRat? n = some x) :
    x.withSign (decide (n < 0)) = x := by
  refine if_neg ?_
  rintro ⟨hneg, hzero⟩
  rw [Float64.val_of_ofRat? h] at hzero
  have hround : round64 (n : ℚ) = round64 ((0 : Int) : ℚ) := by
    rw [hzero, round64_intCast (by norm_num)]
    rfl
  have hn : n = 0 := intCast_eq_of_round64_eq (by norm_num) hround
  rw [decide_eq_true_eq, hn] at hneg
  exact lt_irrefl _ hneg

/-- **An integer's text is parsed to the nearest number.** -/
theorem parseFloat_intChars (n : Int) :
    parseFloat (utf8 (intChars n)) = (Float64.ofRat? n).map .finite := by
  rw [parseFloat, runes_utf8, specialFloat_intChars, readFloat_intChars, readSign_intChars]
  dsimp only
  cases hx : Float64.ofRat? n with
  | none => rfl
  | some x => rw [Option.map_some, Option.map_some, withSign_of_int hx]

/-- `%v` writes an integer out when it is below a million. -/
theorem sprint_int {x : Float64} {n : Int} (hx : x.val = n) (hsign : x.negZero = false)
    (h : |n| < 10 ^ 6) : sprint (.float64 x) = utf8 (intChars n) := by
  rw [sprint, hsign, if_neg Bool.false_ne_true, Float64.shortest_intCast (h.trans (by norm_num)) hx,
    formatG_int h]

/-- From a million on its text is that of no integer. -/
theorem sprint_int_ne {x : Float64} {n : Int} (hx : x.val = n) (hn : |n| < 2 ^ 53)
    (h : 10 ^ 6 ≤ |n|) (m : Int) : sprint (.float64 x) ≠ utf8 (intChars m) := by
  have hsign : ¬ x.negZero = true := by
    intro hzero
    have hzero : n = 0 := by exact_mod_cast hx.symm.trans (x.zero hzero)
    rw [hzero] at h
    norm_num at h
  intro heq
  rw [sprint, if_neg hsign, Float64.shortest_intCast hn hx] at heq
  have hchars : formatG (Decimal.of n 0) = intChars m := utf8_injective heq
  have he := mem_formatG_int h
  rw [hchars] at he
  exact absurd (mem_intChars he) (by decide)

/-- `%v` writes `-0` for the negative zero, which is the text of no integer. -/
theorem sprint_minusZero_ne (m : Int) : sprint (.float64 .minusZero) ≠ utf8 (intChars m) := by
  intro heq
  have hchars : ['-', '0'] = intChars m := utf8_injective heq
  unfold intChars at hchars
  split at hchars
  · next hneg =>
    have hdigits : Nat.toDigits 10 0 = Nat.toDigits 10 m.natAbs := (List.cons.inj hchars).2
    have hzero := congrArg (fun ds => Nat.ofDigitChars 10 ds 0) hdigits
    simp only [Nat.ofDigitChars_ten_toDigits] at hzero
    omega
  · have hmem : '-' ∈ [] ++ Nat.toDigits 10 m.natAbs := hchars ▸ List.mem_cons_self
    exact absurd (Json.isDigit_toDigits '-' hmem) (by decide)

end Infra
