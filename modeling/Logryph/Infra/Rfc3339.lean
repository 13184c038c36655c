import Logryph.Infra.JsonRoundtrip
import Mathlib.Data.List.TakeWhile
import Mathlib.Data.Nat.Digits.Defs

/-!
# RFC 3339 times

A time as its printed text shows it: calendar date, clock and zone. The layout is
`2006-01-02T15:04:05.999999999Z07:00`: fraction without trailing zeros, `Z` for the zero zone,
other zones to the minute.

`parse_format` — a printed time is read back as a time with the same text. The zone may lose its
seconds on the way, so the time itself need not be the same one. A zone of less than a minute is
the one thing that does not survive: it prints as `+00:00` and reads as `Z`.
-/

namespace Infra

def daysIn (month : Nat) (year : Int) : Nat :=
  if month = 2 then if year % 4 = 0 ∧ (year % 100 ≠ 0 ∨ year % 400 = 0) then 29 else 28
  else if month = 4 ∨ month = 6 ∨ month = 9 ∨ month = 11 then 30 else 31

/-- A calendar time with its zone, in seconds east of UTC. -/
structure Time where
  year : Int
  month : Nat
  day : Nat
  hour : Nat
  minute : Nat
  second : Nat
  nanos : Nat
  offset : Int
  valid : 1 ≤ month ∧ month ≤ 12 ∧ 1 ≤ day ∧ day ≤ daysIn month year ∧ hour < 24 ∧ minute < 60 ∧
    second < 60 ∧ nanos < 10 ^ 9
  deriving DecidableEq

namespace Time

/-- January 1 of year 1 in UTC, the time of an unset field. -/
def zero : Time := ⟨1, 1, 1, 0, 0, 0, 0, 0, by decide⟩

instance : Inhabited Time := ⟨zero⟩

/-! ## Printing -/

/-- Decimal digits, filled with zeros on the left. -/
def pad (w n : Nat) : List Char :=
  List.replicate (w - (Nat.toDigits 10 n).length) '0' ++ Nat.toDigits 10 n

def padInt (w : Nat) (n : Int) : List Char :=
  if n < 0 then '-' :: pad w n.natAbs else pad w n.natAbs

def trimZeros (cs : List Char) : List Char := (cs.reverse.dropWhile (· = '0')).reverse

def fracText (nanos : Nat) : List Char :=
  if nanos = 0 then [] else '.' :: trimZeros (pad 9 nanos)

/-- The zone, cut to minutes towards zero. -/
def zoneText (offset : Int) : List Char :=
  if offset = 0 then ['Z']
  else
    let zone := offset.tdiv 60
    (if zone < 0 then '-' else '+') :: (pad 2 (zone.natAbs / 60) ++ ':' :: pad 2 (zone.natAbs % 60))

def format (t : Time) : List Char :=
  padInt 4 t.year ++ '-' :: (pad 2 t.month ++ '-' :: (pad 2 t.day ++ 'T' :: (pad 2 t.hour ++
    ':' :: (pad 2 t.minute ++ ':' :: (pad 2 t.second ++ (fracText t.nanos ++ zoneText t.offset))))))

/-! ## Reading -/

/-- Exactly `w` digits. -/
def readDigits (w : Nat) (cs : List Char) : Option (Nat × List Char) :=
  if (cs.take w).length = w ∧ (cs.take w).all Char.isDigit then
    some (Nat.ofDigitChars 10 (cs.take w) 0, cs.drop w)
  else none

/-- The hour may have one digit. -/
def readHour (cs : List Char) : Option (Nat × List Char) :=
  match readDigits 2 cs with
  | some r => some r
  | none => readDigits 1 cs

def skip (c : Char) : List Char → Option (List Char)
  | d :: cs => if d = c then some cs else none
  | [] => none

/-- Any number of digits after a point or comma, of which nine count. Without a digit there is no
fraction. -/
def readFraction : List Char → Nat × List Char
  | p :: cs =>
    if (p = '.' ∨ p = ',') ∧ cs.takeWhile Char.isDigit ≠ [] then
      let ds := (cs.takeWhile Char.isDigit).take 9
      (Nat.ofDigitChars 10 ds 0 * 10 ^ (9 - ds.length), cs.dropWhile Char.isDigit)
    else (0, p :: cs)
  | [] => (0, [])

/-- Offsets of 24 hours and of 60 minutes are let through. -/
def readZone : List Char → Option (Int × List Char)
  | [] => none
  | s :: cs =>
    if s = 'Z' then some (0, cs)
    else
      match readDigits 2 cs with
      | none => none
      | some (h, cs) =>
        match skip ':' cs with
        | none => none
        | some cs =>
          match readDigits 2 cs with
          | none => none
          | some (m, cs) =>
            if 24 < h ∨ 60 < m then none
            else if s = '+' then some (((h * 60 + m) * 60 : Nat), cs)
            else if s = '-' then some (-((h * 60 + m) * 60 : Nat), cs)
            else none

/-- Year, month and day. -/
def readDate (cs : List Char) : Option ((Nat × Nat × Nat) × List Char) := do
  let (year, cs) ← readDigits 4 cs
  let cs ← skip '-' cs
  let (month, cs) ← readDigits 2 cs
  let cs ← skip '-' cs
  let (day, cs) ← readDigits 2 cs
  some ((year, month, day), cs)

/-- Hour, minute and second. -/
def readClock (cs : List Char) : Option ((Nat × Nat × Nat) × List Char) := do
  let (hour, cs) ← readHour cs
  let cs ← skip ':' cs
  let (minute, cs) ← readDigits 2 cs
  let cs ← skip ':' cs
  let (second, cs) ← readDigits 2 cs
  some ((hour, minute, second), cs)

def parse (cs : List Char) : Option Time := do
  let ((year, month, day), cs) ← readDate cs
  let cs ← skip 'T' cs
  let ((hour, minute, second), cs) ← readClock cs
  let (nanos, cs) := readFraction cs
  let (offset, cs) ← readZone cs
  if h : cs = [] ∧ 1 ≤ month ∧ month ≤ 12 ∧ 1 ≤ day ∧ day ≤ daysIn month year ∧ hour < 24 ∧
      minute < 60 ∧ second < 60 ∧ nanos < 10 ^ 9 then
    some ⟨year, month, day, hour, minute, second, nanos, offset, h.2⟩
  else none

/-! ## Round trip -/

/-- The times whose text is read back: four-digit years, and zones of a minute or more that fit
two digits. -/
def Representable (t : Time) : Prop :=
  0 ≤ t.year ∧ t.year ≤ 9999 ∧ (t.offset = 0 ∨ 60 ≤ t.offset.natAbs) ∧ t.offset.natAbs < 25 * 3600

instance (t : Time) : Decidable t.Representable := by
  unfold Representable
  infer_instance

theorem isDigit_pad {w n : Nat} : ∀ c ∈ pad w n, c.isDigit = true := by
  intro c hc
  rcases List.mem_append.mp hc with h | h
  · rw [(List.mem_replicate.mp h).2]
    decide
  · exact Json.isDigit_toDigits c h

theorem pad_spec {w n : Nat} (hw : 0 < w) (hn : n < 10 ^ w) :
    (pad w n).length = w ∧ (∀ c ∈ pad w n, c.isDigit = true) ∧
      Nat.ofDigitChars 10 (pad w n) 0 = n := by
  have hlen := Nat.toDigits_length 10 n w hw hn
  refine ⟨?_, isDigit_pad, ?_⟩
  · rw [pad, List.length_append, List.length_replicate]
    omega
  · rw [pad, Nat.ofDigitChars_append, Nat.ofDigitChars_replicate_zero, Nat.mul_zero,
      Nat.ofDigitChars_ten_toDigits]

theorem readDigits_pad {w n : Nat} (hw : 0 < w) (hn : n < 10 ^ w) (rest : List Char) :
    readDigits w (pad w n ++ rest) = some (n, rest) := by
  obtain ⟨hlen, hdig, hval⟩ := pad_spec hw hn
  have htake : (pad w n ++ rest).take w = pad w n := List.take_left' hlen
  have hdrop : (pad w n ++ rest).drop w = rest := List.drop_left' hlen
  rw [readDigits, htake, hdrop, hval, if_pos ⟨hlen, List.all_eq_true.mpr hdig⟩]

theorem readHour_pad {n : Nat} (hn : n < 100) (rest : List Char) :
    readHour (pad 2 n ++ rest) = some (n, rest) := by
  rw [readHour, readDigits_pad (by omega) hn]

@[simp] theorem skip_cons (c : Char) (cs : List Char) : skip c (c :: cs) = some cs := if_pos rfl

theorem eq_trimZeros_append (cs : List Char) :
    cs = trimZeros cs ++ List.replicate (cs.length - (trimZeros cs).length) '0' := by
  have hsplit := List.takeWhile_append_dropWhile (p := (· = '0')) (l := cs.reverse)
  have hz : (cs.reverse.takeWhile (· = '0')) =
      List.replicate (cs.reverse.takeWhile (· = '0')).length '0' := by
    refine List.eq_replicate_iff.mpr ⟨rfl, fun c hc => ?_⟩
    simpa using List.mem_takeWhile_imp hc
  have hlen : cs.length - (trimZeros cs).length = (cs.reverse.takeWhile (· = '0')).length := by
    have := congrArg List.length hsplit
    rw [List.length_append, List.length_reverse] at this
    rw [trimZeros, List.length_reverse]
    omega
  have hrev := congrArg List.reverse hsplit
  rw [List.reverse_append, List.reverse_reverse, hz, List.reverse_replicate] at hrev
  rw [hlen]
  exact hrev.symm

theorem trimZeros_subset {cs : List Char} : ∀ c ∈ trimZeros cs, c ∈ cs := by
  intro c hc
  rw [trimZeros, List.mem_reverse] at hc
  exact List.mem_reverse.mp ((List.dropWhile_sublist _).subset hc)

theorem length_trimZeros_le (cs : List Char) : (trimZeros cs).length ≤ cs.length := by
  rw [trimZeros, List.length_reverse]
  exact (List.dropWhile_sublist _).length_le.trans_eq List.length_reverse

theorem readFraction_fracText {n : Nat} (hn : n < 10 ^ 9) {rest : List Char}
    (hr : Json.DigitEnd rest) (hp : rest.head? ≠ some '.') (hc : rest.head? ≠ some ',') :
    readFraction (fracText n ++ rest) = (n, rest) := by
  unfold fracText
  split
  · next h =>
    subst h
    cases rest with
    | nil => rfl
    | cons c cs =>
      rw [List.nil_append, readFraction, if_neg]
      rintro ⟨rfl | rfl, -⟩
      · exact hp rfl
      · exact hc rfl
  · next h =>
    obtain ⟨hlen, hdig, hval⟩ := pad_spec (by omega : 0 < 9) hn
    have hle := length_trimZeros_le (pad 9 n)
    rw [hlen] at hle
    have htd : ∀ c ∈ trimZeros (pad 9 n), c.isDigit = true :=
      fun c hc => hdig c (trimZeros_subset c hc)
    have htv : Nat.ofDigitChars 10 (trimZeros (pad 9 n)) 0 * 10 ^ (9 - (trimZeros (pad 9 n)).length)
        = n := by
      have heq := eq_trimZeros_append (pad 9 n)
      rw [hlen] at heq
      have := congrArg (Nat.ofDigitChars 10 · 0) heq
      simp only [Nat.ofDigitChars_append, Nat.ofDigitChars_replicate_zero, hval] at this
      rw [Nat.mul_comm]
      exact this.symm
    have hne : trimZeros (pad 9 n) ≠ [] := by
      intro h0
      rw [h0] at htv
      exact h (by rw [← htv]; rfl)
    rw [List.cons_append, readFraction, Json.takeWhile_digits htd hr, Json.dropWhile_digits htd hr,
      if_pos ⟨Or.inl rfl, hne⟩, List.take_of_length_le hle]
    dsimp only
    rw [htv]

theorem readZone_zoneText {o : Int} (ho : o.natAbs < 25 * 3600) :
    readZone (zoneText o) = some (o.tdiv 60 * 60, []) := by
  unfold zoneText
  split
  · next h =>
    subst h
    rfl
  · next h =>
    have hz : (o.tdiv 60).natAbs = o.natAbs / 60 := by
      rw [Int.natAbs_tdiv]
      rfl
    have hpad : ∀ n, n < 100 → ∀ rest, readDigits 2 (pad 2 n ++ rest) = some (n, rest) :=
      fun n hn rest => readDigits_pad (by omega) hn rest
    have hend := hpad ((o.tdiv 60).natAbs % 60) (by omega) []
    rw [List.append_nil] at hend
    have hrange : ¬ (24 < (o.tdiv 60).natAbs / 60 ∨ 60 < (o.tdiv 60).natAbs % 60) := by omega
    dsimp only
    by_cases hneg : o.tdiv 60 < 0
    · simp only [hneg, if_true, readZone, hpad _ (show (o.tdiv 60).natAbs / 60 < 100 by omega),
        skip_cons, hend, hrange, if_false, Char.reduceEq]
      congr 2
      omega
    · simp only [hneg, readZone, hpad _ (show (o.tdiv 60).natAbs / 60 < 100 by omega),
        skip_cons, hend, hrange, if_false, if_true, Char.reduceEq]
      congr 2
      omega

/-- The zone after a round trip. -/
def minuteZone (t : Time) : Time := { t with offset := t.offset.tdiv 60 * 60 }

theorem zoneText_minutes {o : Int} (ho : o = 0 ∨ 60 ≤ o.natAbs) :
    zoneText (o.tdiv 60 * 60) = zoneText o := by
  rcases ho with rfl | ho
  · rfl
  · have hz : (o.tdiv 60).natAbs = o.natAbs / 60 := by
      rw [Int.natAbs_tdiv]
      rfl
    have h1 : o ≠ 0 := by omega
    have h2 : o.tdiv 60 * 60 ≠ 0 := by omega
    unfold zoneText
    rw [if_neg h1, if_neg h2, Int.mul_tdiv_cancel _ (by omega : (60 : Int) ≠ 0)]

/-- Whatever comes after the seconds starts neither a digit nor a fraction. -/
theorem zoneText_head (o : Int) :
    ∃ c cs, zoneText o = c :: cs ∧ (c = 'Z' ∨ c = '+' ∨ c = '-') := by
  unfold zoneText
  split
  · exact ⟨'Z', [], rfl, Or.inl rfl⟩
  · dsimp only
    split
    · exact ⟨_, _, rfl, Or.inr (Or.inr rfl)⟩
    · exact ⟨_, _, rfl, Or.inr (Or.inl rfl)⟩

theorem readDate_format {y m d : Nat} (hy : y < 10 ^ 4) (hm : m < 10 ^ 2) (hd : d < 10 ^ 2)
    (rest : List Char) :
    readDate (pad 4 y ++ '-' :: (pad 2 m ++ '-' :: (pad 2 d ++ rest)))
      = some ((y, m, d), rest) := by
  unfold readDate
  rw [readDigits_pad (by omega) hy]
  simp only [Option.bind_eq_bind, Option.bind_some, skip_cons]
  rw [readDigits_pad (by omega) hm]
  simp only [Option.bind_some, skip_cons]
  rw [readDigits_pad (by omega) hd]
  rfl

theorem readClock_format {h m s : Nat} (hh : h < 100) (hm : m < 10 ^ 2) (hs : s < 10 ^ 2)
    (rest : List Char) :
    readClock (pad 2 h ++ ':' :: (pad 2 m ++ ':' :: (pad 2 s ++ rest)))
      = some ((h, m, s), rest) := by
  unfold readClock
  rw [readHour_pad hh]
  simp only [Option.bind_eq_bind, Option.bind_some, skip_cons]
  rw [readDigits_pad (by omega) hm]
  simp only [Option.bind_some, skip_cons]
  rw [readDigits_pad (by omega) hs]
  rfl

theorem daysIn_le (month : Nat) (year : Int) : daysIn month year ≤ 31 := by
  unfold daysIn
  split <;> split <;> omega

/-- **A printed time is read back**, with its zone cut to minutes. -/
theorem parse_format {t : Time} (ht : t.Representable) : parse t.format = some t.minuteZone := by
  obtain ⟨hy0, hy, -, ho⟩ := ht
  obtain ⟨hm1, hm, hd1, hd, hh, hmin, hs, hn⟩ := t.valid
  have hday := daysIn_le t.month t.year
  have hyear : ((t.year.natAbs : Nat) : Int) = t.year := by omega
  obtain ⟨c, cs, hz, hc⟩ := zoneText_head t.offset
  have hfrac : readFraction (fracText t.nanos ++ zoneText t.offset)
      = (t.nanos, zoneText t.offset) := by
    rw [hz]
    refine readFraction_fracText hn (Json.digitEnd_cons ?_) ?_ ?_ <;>
      rcases hc with rfl | rfl | rfl <;> simp
  unfold parse format padInt
  rw [if_neg (by omega), readDate_format (by omega) (by omega) (by omega)]
  simp only [Option.bind_eq_bind, Option.bind_some, skip_cons]
  rw [readClock_format (by omega) (by omega) (by omega)]
  simp only [Option.bind_some, hfrac, readZone_zoneText ho, hyear]
  rw [dif_pos ⟨trivial, t.valid⟩]
  rfl

/-- The time that is read has the text it was read from. -/
theorem format_minuteZone {t : Time} (ht : t.Representable) : t.minuteZone.format = t.format := by
  unfold format minuteZone
  rw [zoneText_minutes ht.2.2.1]

end Time

end Infra
