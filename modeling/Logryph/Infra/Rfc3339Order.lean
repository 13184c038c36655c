import Logryph.Infra.Bytes
import Logryph.Infra.Rfc3339
import Mathlib.Data.Char
import Mathlib.Data.List.Lex

/-!
# The order of printed times

A database compares timestamps as texts. In one zone the date and the clock are compared like the
numbers they are, since their digits are padded. The fraction is not padded, and after it comes the
zone: `+` and `-` are smaller than any digit and than the point, and `Z` is larger.

* `append_lt_append_of_lt`, `append_lt_append_of_gt` — texts that are followed by a mark that is
  smaller, or larger, than what they consist of
* `utf8_lt_iff` — the order of ASCII texts, byte by byte
* `Time.Before` — the order of the calendar and the clock
* `Time.format_lt_format_iff` — the order of the texts in a zone other than UTC is the same
* `Time.format_lt_format_utc_iff` — in UTC it is the same, except that within a second a fraction
  stands after all those that it is the beginning of
-/

namespace Infra

/-! ## Lists -/

/-- Two elements of a list stand in one order or in the other. -/
theorem pairwise_or_of_mem {α : Type*} {R : α → α → Prop} {l : List α} (h : l.Pairwise R) {a b : α}
    (ha : a ∈ l) (hb : b ∈ l) (hne : a ≠ b) : R a b ∨ R b a := by
  induction h with
  | nil => cases ha
  | cons hfirst _ ih =>
    rcases List.mem_cons.mp ha with rfl | ha'
    · rcases List.mem_cons.mp hb with rfl | hb'
      · exact absurd rfl hne
      · exact Or.inl (hfirst b hb')
    · rcases List.mem_cons.mp hb with rfl | hb'
      · exact Or.inr (hfirst a ha')
      · exact ih ha' hb'

section

variable {α : Type*} [LinearOrder α]

theorem append_lt_append_iff {a b xs ys : List α} (h : a.length = b.length) :
    a ++ xs < b ++ ys ↔ a < b ∨ a = b ∧ xs < ys := by
  induction a generalizing b with
  | nil =>
    obtain rfl := List.length_eq_zero_iff.mp h.symm
    simp
  | cons x a ih =>
    cases b with
    | nil => cases h
    | cons y b =>
      rw [List.cons_append, List.cons_append, List.cons_lt_cons_iff, List.cons_lt_cons_iff,
        ih (Nat.succ.inj h), List.cons.injEq]
      tauto

/-- A mark that is smaller than everything before it keeps the order. -/
theorem append_lt_append_of_lt {a b zs : List α} {z : α} (ha : ∀ x ∈ a, z < x)
    (hb : ∀ x ∈ b, z < x) : a ++ z :: zs < b ++ z :: zs ↔ a < b := by
  induction a generalizing b with
  | nil =>
    cases b with
    | nil => simp
    | cons y b => simp [List.cons_lt_cons_iff, hb y List.mem_cons_self]
  | cons x a ih =>
    rw [List.forall_mem_cons] at ha
    cases b with
    | nil => simp [List.cons_lt_cons_iff, ha.1.not_gt, ha.1.ne']
    | cons y b =>
      rw [List.forall_mem_cons] at hb
      rw [List.cons_append, List.cons_append, List.cons_lt_cons_iff, List.cons_lt_cons_iff,
        ih ha.2 hb.2]

/-- A mark that is larger puts a text after all those that it is the beginning of. -/
theorem append_lt_append_of_gt {a b zs : List α} {z : α} (ha : ∀ x ∈ a, x < z)
    (hb : ∀ x ∈ b, x < z) : a ++ z :: zs < b ++ z :: zs ↔
      (b <+: a ∧ b ≠ a) ∨ ¬ a <+: b ∧ ¬ b <+: a ∧ a < b := by
  induction a generalizing b with
  | nil =>
    cases b with
    | nil => simp
    | cons y b =>
      rw [List.forall_mem_cons] at hb
      simp [List.cons_lt_cons_iff, hb.1.not_gt, hb.1.ne']
  | cons x a ih =>
    rw [List.forall_mem_cons] at ha
    cases b with
    | nil => simp [List.cons_lt_cons_iff, ha.1]
    | cons y b =>
      rw [List.forall_mem_cons] at hb
      rw [List.cons_append, List.cons_append, List.cons_lt_cons_iff, ih ha.2 hb.2,
        List.cons_lt_cons_iff, List.cons_prefix_cons, List.cons_prefix_cons]
      by_cases hxy : x = y
      · subst hxy
        simp
      · have hyx : y ≠ x := Ne.symm hxy
        simp [hxy, hyx]

/-- The beginning of a text is smaller. -/
theorem lt_of_isPrefix {a b : List α} (h : a <+: b) (hne : a ≠ b) : a < b := by
  obtain ⟨t, rfl⟩ := h
  cases t with
  | nil => exact absurd (List.append_nil a).symm hne
  | cons x t =>
    have hlt : a ++ [] < a ++ x :: t :=
      (append_lt_append_iff rfl).mpr (Or.inr ⟨rfl, List.nil_lt_cons x t⟩)
    rwa [List.append_nil] at hlt

end

/-- Texts of ASCII characters are ordered like the characters. -/
theorem utf8_lt_iff {a b : List Char} (ha : ∀ c ∈ a, c.toNat < 0x80)
    (hb : ∀ c ∈ b, c.toNat < 0x80) : utf8 a < utf8 b ↔ a < b := by
  induction a generalizing b with
  | nil =>
    cases b with
    | nil => simp
    | cons y b => simp [utf8EncodeChar_ascii (hb y List.mem_cons_self)]
  | cons x a ih =>
    rw [List.forall_mem_cons] at ha
    cases b with
    | nil => simp
    | cons y b =>
      rw [List.forall_mem_cons] at hb
      have hx : (UInt8.ofNat x.toNat).toNat = x.toNat := by
        rw [UInt8.toNat_ofNat']
        omega
      have hy : (UInt8.ofNat y.toNat).toNat = y.toNat := by
        rw [UInt8.toNat_ofNat']
        omega
      have hlt : UInt8.ofNat x.toNat < UInt8.ofNat y.toNat ↔ x < y := by
        rw [UInt8.lt_iff_toNat_lt, hx, hy]
        rfl
      have heq : UInt8.ofNat x.toNat = UInt8.ofNat y.toNat ↔ x = y := by
        rw [← UInt8.toNat_inj, hx, hy, Char.toNat_inj]
      rw [utf8_cons, utf8_cons, utf8EncodeChar_ascii ha.1, utf8EncodeChar_ascii hb.1,
        List.singleton_append, List.singleton_append, List.cons_lt_cons_iff, hlt, heq,
        ih ha.2 hb.2, List.cons_lt_cons_iff]

/-! ## Digits -/

theorem ofDigitChars_lt {cs : List Char} (h : ∀ c ∈ cs, c.isDigit = true) :
    Nat.ofDigitChars 10 cs 0 < 10 ^ cs.length := by
  induction cs with
  | nil => simp
  | cons c cs ih =>
    rw [List.forall_mem_cons] at h
    obtain ⟨hlow, hhigh⟩ := toNat_of_isDigit h.1
    have hlt := ih h.2
    have hc : c.toNat - '0'.toNat ≤ 9 := by
      show c.toNat - 48 ≤ 9
      omega
    have hmul := Nat.mul_le_mul_left (10 ^ cs.length) hc
    rw [Nat.ofDigitChars_cons, Nat.mul_zero, Nat.zero_add, Nat.ofDigitChars_eq_ofDigitChars_zero,
      List.length_cons, Nat.pow_succ]
    omega

/-- Digits in equal number are ordered like the numbers. -/
theorem digits_lt_iff {a b : List Char} (h : a.length = b.length)
    (ha : ∀ c ∈ a, c.isDigit = true) (hb : ∀ c ∈ b, c.isDigit = true) :
    a < b ↔ Nat.ofDigitChars 10 a 0 < Nat.ofDigitChars 10 b 0 := by
  induction a generalizing b with
  | nil =>
    obtain rfl := List.length_eq_zero_iff.mp h.symm
    simp
  | cons x a ih =>
    cases b with
    | nil => cases h
    | cons y b =>
      rw [List.forall_mem_cons] at ha hb
      have hlen : a.length = b.length := Nat.succ.inj h
      have hx := toNat_of_isDigit ha.1
      have hy := toNat_of_isDigit hb.1
      have hlt := ofDigitChars_lt ha.2
      have hlt' := ofDigitChars_lt hb.2
      rw [List.cons_lt_cons_iff, ih hlen ha.2 hb.2, Nat.ofDigitChars_cons, Nat.ofDigitChars_cons,
        Nat.mul_zero, Nat.zero_add, Nat.zero_add,
        @Nat.ofDigitChars_eq_ofDigitChars_zero _ (x.toNat - '0'.toNat),
        @Nat.ofDigitChars_eq_ofDigitChars_zero _ (y.toNat - '0'.toNat), hlen]
      rw [hlen] at hlt
      show x < y ∨ _ ↔ 10 ^ b.length * (x.toNat - 48) + _ < 10 ^ b.length * (y.toNat - 48) + _
      rcases lt_trichotomy x y with hxy | hxy | hxy
      · have hnat : x.toNat < y.toNat := hxy
        have hmul := Nat.mul_le_mul_left (10 ^ b.length)
          (show x.toNat - 48 + 1 ≤ y.toNat - 48 by omega)
        rw [Nat.mul_add, Nat.mul_one] at hmul
        exact iff_of_true (Or.inl hxy) (by omega)
      · subst hxy
        simp
      · have hnat : y.toNat < x.toNat := hxy
        have hmul := Nat.mul_le_mul_left (10 ^ b.length)
          (show y.toNat - 48 + 1 ≤ x.toNat - 48 by omega)
        rw [Nat.mul_add, Nat.mul_one] at hmul
        refine iff_of_false (fun hor => ?_) (by omega)
        rcases hor with hlt | ⟨heq, -⟩
        · exact absurd hlt hxy.not_gt
        · exact absurd heq hxy.ne'

namespace Time

theorem pad_inj {w m n : Nat} (hw : 0 < w) (hm : m < 10 ^ w) (hn : n < 10 ^ w) :
    pad w m = pad w n ↔ m = n := by
  refine ⟨fun h => ?_, fun h => h ▸ rfl⟩
  rw [← (pad_spec hw hm).2.2, ← (pad_spec hw hn).2.2, h]

theorem pad_lt_iff {w m n : Nat} (hw : 0 < w) (hm : m < 10 ^ w) (hn : n < 10 ^ w) :
    pad w m < pad w n ↔ m < n := by
  obtain ⟨hlen, hdig, hval⟩ := pad_spec hw hm
  obtain ⟨hlen', hdig', hval'⟩ := pad_spec hw hn
  rw [digits_lt_iff (hlen.trans hlen'.symm) hdig hdig', hval, hval']

/-- Padded numbers are compared first. -/
theorem pad_append_lt_iff {w m n : Nat} (hw : 0 < w) (hm : m < 10 ^ w) (hn : n < 10 ^ w)
    {xs ys : List Char} : pad w m ++ xs < pad w n ++ ys ↔ m < n ∨ m = n ∧ xs < ys := by
  have hlen : (pad w m).length = (pad w n).length := by
    rw [(pad_spec hw hm).1, (pad_spec hw hn).1]
  rw [append_lt_append_iff hlen, pad_lt_iff hw hm hn, pad_inj hw hm hn]

/-! ## The fraction -/

theorem trimZeros_cons (c : Char) (cs : List Char) :
    trimZeros (c :: cs) = if trimZeros cs = [] ∧ c = '0' then [] else c :: trimZeros cs := by
  unfold trimZeros
  rw [List.reverse_cons, List.dropWhile_append]
  by_cases hnil : cs.reverse.dropWhile (· = '0') = []
  · by_cases hc : c = '0'
    · simp [hnil, hc]
    · simp [hnil, hc]
  · simp [hnil]

/-- Without the zeros at the end the order is the same. -/
theorem trimZeros_lt_iff {a b : List Char} (h : a.length = b.length)
    (ha : ∀ c ∈ a, c.isDigit = true) (hb : ∀ c ∈ b, c.isDigit = true) :
    trimZeros a < trimZeros b ↔ a < b := by
  induction a generalizing b with
  | nil =>
    obtain rfl := List.length_eq_zero_iff.mp h.symm
    simp
  | cons x a ih =>
    cases b with
    | nil => cases h
    | cons y b =>
      rw [List.forall_mem_cons] at ha hb
      have hzero : ¬ x < '0' := fun hlt => by
        have hlow := (toNat_of_isDigit ha.1).1
        have hnat : x.toNat < 0x30 := hlt
        omega
      rw [trimZeros_cons, trimZeros_cons, List.cons_lt_cons_iff,
        ← ih (Nat.succ.inj h) ha.2 hb.2]
      by_cases hx : trimZeros a = [] ∧ x = '0'
      · rw [if_pos hx, hx.1, hx.2]
        by_cases hy : trimZeros b = [] ∧ y = '0'
        · simp [hy]
        · rw [if_neg hy]
          refine iff_of_true (by simp) ?_
          rcases lt_trichotomy '0' y with hlt | heq | hgt
          · exact Or.inl hlt
          · obtain ⟨d, ds, hb⟩ := List.exists_cons_of_ne_nil fun hnil => hy ⟨hnil, heq.symm⟩
            rw [hb]
            exact Or.inr ⟨heq, List.nil_lt_cons d ds⟩
          · have hlow := (toNat_of_isDigit hb.1).1
            have hnat : y.toNat < 0x30 := hgt
            omega
      · rw [if_neg hx]
        by_cases hy : trimZeros b = [] ∧ y = '0'
        · simp [hy, hzero]
        · rw [if_neg hy, List.cons_lt_cons_iff]

theorem fracText_lt_iff {m n : Nat} (hm : m < 10 ^ 9) (hn : n < 10 ^ 9) :
    fracText m < fracText n ↔ m < n := by
  obtain ⟨hlen, hdig, -⟩ := pad_spec (by omega : 0 < 9) hm
  obtain ⟨hlen', hdig', -⟩ := pad_spec (by omega : 0 < 9) hn
  unfold fracText
  by_cases hm0 : m = 0
  · by_cases hn0 : n = 0
    · simp [hm0, hn0]
    · simp [hm0, hn0, Nat.pos_of_ne_zero hn0]
  · by_cases hn0 : n = 0
    · simp [hm0, hn0]
    · rw [if_neg hm0, if_neg hn0, List.cons_lt_cons_iff,
        trimZeros_lt_iff (hlen.trans hlen'.symm) hdig hdig', pad_lt_iff (by omega) hm hn]
      simp

/-- The characters of a fraction. -/
theorem mem_fracText {n : Nat} {c : Char} (h : c ∈ fracText n) : c = '.' ∨ c.isDigit = true := by
  unfold fracText at h
  split at h
  · cases h
  · rcases List.mem_cons.mp h with h | h
    · exact Or.inl h
    · exact Or.inr (isDigit_pad c (trimZeros_subset c h))

/-- A sign is smaller than a fraction, and `Z` is larger. -/
theorem sign_lt_of_mem_fracText {n : Nat} {c z : Char} (hz : z = '+' ∨ z = '-')
    (h : c ∈ fracText n) : z < c := by
  show z.toNat < c.toNat
  have hz' : z.toNat ≤ 0x2D := by rcases hz with rfl | rfl <;> decide
  rcases mem_fracText h with rfl | hc
  · exact hz'.trans_lt (by decide)
  · have hlow := (toNat_of_isDigit hc).1
    omega

theorem lt_z_of_mem_fracText {n : Nat} {c : Char} (h : c ∈ fracText n) : c < 'Z' := by
  show c.toNat < 0x5A
  rcases mem_fracText h with rfl | hc
  · decide
  · have hhigh := (toNat_of_isDigit hc).2
    omega

/-! ## Times -/

/-- The date and the clock, down to the second. -/
def clock (t : Time) : List Nat := [t.year.toNat, t.month, t.day, t.hour, t.minute, t.second]

/-- The time is earlier by the calendar and the clock, which is what it is in one zone. -/
def Before (t u : Time) : Prop := t.clock < u.clock ∨ t.clock = u.clock ∧ t.nanos < u.nanos

instance (t u : Time) : Decidable (t.Before u) := by
  unfold Before
  infer_instance

/-- The text is ordered by the date and the clock first. -/
theorem format_lt_iff {t u : Time} (ht : t.Representable) (hu : u.Representable) :
    t.format < u.format ↔ t.clock < u.clock ∨ t.clock = u.clock ∧
      fracText t.nanos ++ zoneText t.offset < fracText u.nanos ++ zoneText u.offset := by
  obtain ⟨hy, hy', -⟩ := ht
  obtain ⟨hz, hz', -⟩ := hu
  obtain ⟨-, hm, -, hd, hh, hmin, hs, -⟩ := t.valid
  obtain ⟨-, hm', -, hd', hh', hmin', hs', -⟩ := u.valid
  have hday := daysIn_le t.month t.year
  have hday' := daysIn_le u.month u.year
  have hyear : t.year.natAbs = t.year.toNat := by omega
  have hyear' : u.year.natAbs = u.year.toNat := by omega
  have htwo : 0 < 2 := by omega
  unfold format padInt clock
  rw [if_neg (by omega), if_neg (by omega), hyear, hyear',
    pad_append_lt_iff (by omega) (by omega) (by omega), List.cons_lt_cons_iff,
    pad_append_lt_iff htwo (by omega) (by omega), List.cons_lt_cons_iff,
    pad_append_lt_iff htwo (by omega) (by omega), List.cons_lt_cons_iff,
    pad_append_lt_iff htwo (by omega) (by omega), List.cons_lt_cons_iff,
    pad_append_lt_iff htwo (by omega) (by omega), List.cons_lt_cons_iff,
    pad_append_lt_iff htwo (by omega) (by omega)]
  simp only [lt_self_iff_false, false_or, true_and, List.cons_lt_cons_iff, List.cons.injEq,
    and_true, or_false, and_false]
  tauto

/-- **In a zone other than UTC the texts are ordered like the times.** -/
theorem format_lt_format_iff {t u : Time} (ht : t.Representable) (hu : u.Representable)
    (hzone : u.offset = t.offset) (hne : t.offset ≠ 0) : t.format < u.format ↔ t.Before u := by
  have hsign : ∃ z zs, zoneText t.offset = z :: zs ∧ (z = '+' ∨ z = '-') := by
    unfold zoneText
    rw [if_neg hne]
    dsimp only
    split
    · exact ⟨_, _, rfl, Or.inr rfl⟩
    · exact ⟨_, _, rfl, Or.inl rfl⟩
  obtain ⟨z, zs, htext, hz⟩ := hsign
  rw [format_lt_iff ht hu, hzone, htext, append_lt_append_of_lt
    (fun c hc => sign_lt_of_mem_fracText hz hc) (fun c hc => sign_lt_of_mem_fracText hz hc),
    fracText_lt_iff t.valid.2.2.2.2.2.2.2 u.valid.2.2.2.2.2.2.2]
  rfl

/-- **In UTC** a fraction stands after those that it is the beginning of. -/
theorem format_lt_format_utc_iff {t u : Time} (ht : t.Representable) (hu : u.Representable)
    (hzone : t.offset = 0) (hzone' : u.offset = 0) :
    t.format < u.format ↔ t.clock < u.clock ∨ t.clock = u.clock ∧
      ((fracText u.nanos <+: fracText t.nanos ∧ fracText u.nanos ≠ fracText t.nanos) ∨
        ¬ fracText t.nanos <+: fracText u.nanos ∧ ¬ fracText u.nanos <+: fracText t.nanos ∧
          t.nanos < u.nanos) := by
  have htext : zoneText 0 = ['Z'] := rfl
  rw [format_lt_iff ht hu, hzone, hzone', htext, append_lt_append_of_gt
    (fun c hc => lt_z_of_mem_fracText hc) (fun c hc => lt_z_of_mem_fracText hc),
    fracText_lt_iff t.valid.2.2.2.2.2.2.2 u.valid.2.2.2.2.2.2.2]

/-- The times are of one second, and the fraction of the first is the beginning of that of the
second. -/
def Extends (t u : Time) : Prop :=
  t.clock = u.clock ∧ fracText t.nanos <+: fracText u.nanos ∧ t.nanos ≠ u.nanos

theorem fracText_ne {m n : Nat} (hm : m < 10 ^ 9) (hn : n < 10 ^ 9) (h : m ≠ n) :
    fracText m ≠ fracText n := by
  intro heq
  rcases Nat.lt_or_gt_of_ne h with hlt | hlt
  · exact absurd ((fracText_lt_iff hm hn).mpr hlt) (heq ▸ lt_irrefl _)
  · exact absurd ((fracText_lt_iff hn hm).mpr hlt) (heq ▸ lt_irrefl _)

/-- In UTC such texts are the other way around. -/
theorem Extends.swapped {t u : Time} (h : t.Extends u) (ht : t.Representable)
    (hu : u.Representable) (hzone : t.offset = 0) (hzone' : u.offset = 0) :
    t.Before u ∧ u.format < t.format := by
  obtain ⟨hclock, hbegin, hne⟩ := h
  have hnanos := t.valid.2.2.2.2.2.2.2
  have hnanos' := u.valid.2.2.2.2.2.2.2
  have htext := fracText_ne hnanos hnanos' hne
  refine ⟨Or.inr ⟨hclock, (fracText_lt_iff hnanos hnanos').mp (lt_of_isPrefix hbegin htext)⟩, ?_⟩
  exact (format_lt_format_utc_iff hu ht hzone' hzone).mpr
    (Or.inr ⟨hclock.symm, Or.inl ⟨hbegin, htext⟩⟩)

/-- Other texts are in order. -/
theorem format_lt_of_before {t u : Time} (h : t.Before u) (ht : t.Representable)
    (hu : u.Representable) (hzone : u.offset = t.offset)
    (hutc : t.offset = 0 → ¬ t.Extends u ∧ ¬ u.Extends t) : t.format < u.format := by
  by_cases hoffset : t.offset = 0
  · refine (format_lt_format_utc_iff ht hu hoffset (hzone.trans hoffset)).mpr ?_
    refine h.imp_right fun ⟨hclock, hlt⟩ =>
      ⟨hclock, Or.inr ⟨fun hbegin => ?_, fun hbegin => ?_, hlt⟩⟩
    · exact (hutc hoffset).1 ⟨hclock, hbegin, hlt.ne⟩
    · exact (hutc hoffset).2 ⟨hclock.symm, hbegin, hlt.ne'⟩
  · exact (format_lt_format_iff ht hu hzone hoffset).mpr h

/-- The text of a time is ASCII. -/
theorem ascii_format (t : Time) : ∀ c ∈ t.format, c.toNat < 0x80 := by
  have hdigit : ∀ {c : Char}, c.isDigit = true → c.toNat < 0x80 := fun hc => by
    have hhigh := (toNat_of_isDigit hc).2
    omega
  have hpad : ∀ {w n : Nat} {c : Char}, c ∈ pad w n → c.toNat < 0x80 := fun hc =>
    hdigit (isDigit_pad _ hc)
  have hfrac : ∀ c ∈ fracText t.nanos, c.toNat < 0x80 := fun c hc => by
    rcases mem_fracText hc with rfl | hc
    · decide
    · exact hdigit hc
  have hzone : ∀ c ∈ zoneText t.offset, c.toNat < 0x80 := fun c hc => by
    unfold zoneText at hc
    split at hc
    · rw [List.mem_singleton.mp hc]
      decide
    · rcases List.mem_cons.mp hc with rfl | hc
      · split <;> decide
      · rcases List.mem_append.mp hc with hc | hc
        · exact hpad hc
        · rcases List.mem_cons.mp hc with rfl | hc
          · decide
          · exact hpad hc
  have hyear : ∀ c ∈ padInt 4 t.year, c.toNat < 0x80 := fun c hc => by
    unfold padInt at hc
    split at hc
    · rcases List.mem_cons.mp hc with rfl | hc
      · decide
      · exact hpad hc
    · exact hpad hc
  intro c hc
  simp only [format, List.mem_append, List.mem_cons] at hc
  rcases hc with hc | rfl | hc | rfl | hc | rfl | hc | rfl | hc | rfl | hc | hc | hc
  exacts [hyear c hc, by decide, hpad hc, by decide, hpad hc, by decide, hpad hc, by decide,
    hpad hc, by decide, hpad hc, hfrac c hc, hzone c hc]

end Time

end Infra
