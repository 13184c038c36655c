import Logryph.Infra.Bytes
import Logryph.Infra.JsonRoundtrip

/-!
# Where a JSON object starts

`prefix_unique` — when two byte strings, each a free prefix followed by the text of an object,
are equal, the prefixes and the texts are equal. So a record may be written as a prefix and an
object with nothing between them: no object text ends with another one.

The argument is a scan that only knows the nesting depth and whether it is inside a string.
Suppose the text of one object ended with the text of another. The scan of the longer one
reaches the start of the shorter one in some state:

* outside a string, it comes back to the depth it had, which is not the depth at the end;
* inside a string, it takes the outside of every string for the inside and the other way round
  (`Opposite`), and so ends inside a string.
-/

namespace Infra.Json

/-- Inside or outside a string, and how many brackets are open. -/
inductive Scan where
  | out (d : Nat)
  | str (d : Nat)
  | esc (d : Nat)
  deriving DecidableEq

namespace Scan

/-- The bytes that may follow a backslash. -/
def escapable (b : UInt8) : Bool :=
  b = 0x22 || b = 0x5C || b = 0x2F || b = 0x62 || b = 0x66 || b = 0x6E || b = 0x72 || b = 0x74 ||
    b = 0x75

/-- One byte. Nothing may follow the last closing bracket. -/
def step : Scan → UInt8 → Option Scan
  | out 0, _ => none
  | out (d + 1), b =>
    if b = 0x22 then some (str (d + 1))
    else if b = 0x7B ∨ b = 0x5B then some (out (d + 2))
    else if b = 0x7D ∨ b = 0x5D then some (out d)
    else if b = 0x5C then none
    else some (out (d + 1))
  | str d, b =>
    if b = 0x22 then some (out d) else if b = 0x5C then some (esc d) else some (str d)
  | esc d, b => if escapable b then some (str d) else none

def run : Scan → Bytes → Option Scan
  | s, [] => some s
  | s, b :: bs => (s.step b).bind fun s => run s bs

@[simp] theorem run_nil (s : Scan) : run s [] = some s := rfl

@[simp] theorem run_cons (s : Scan) (b : UInt8) (bs : Bytes) :
    run s (b :: bs) = (s.step b).bind fun s => run s bs := rfl

theorem run_append (bs bs' : Bytes) :
    ∀ s : Scan, run s (bs ++ bs') = (run s bs).bind fun s => run s bs' := by
  induction bs with
  | nil => intro s; rfl
  | cons b bs ih =>
    intro s
    rw [List.cons_append, run_cons, run_cons]
    cases s.step b with
    | none => rfl
    | some t => exact ih t

/-- The same state with more brackets open around it. -/
def up (k : Nat) : Scan → Scan
  | out d => out (d + k)
  | str d => str (d + k)
  | esc d => esc (d + k)

theorem step_up (k : Nat) {s t : Scan} {b : UInt8} (h : s.step b = some t) :
    (s.up k).step b = some (t.up k) := by
  cases s with
  | out d =>
    cases d with
    | zero => cases h
    | succ d =>
      rw [up, show d + 1 + k = (d + k) + 1 by omega]
      simp only [step] at h ⊢
      split at h
      · next h1 => cases h; rw [if_pos h1, up]; congr 2; omega
      split at h
      · next h1 h2 => cases h; rw [if_neg h1, if_pos h2, up]; congr 2; omega
      split at h
      · next h1 h2 h3 => cases h; rw [if_neg h1, if_neg h2, if_pos h3, up]
      split at h
      · cases h
      · next h1 h2 h3 h4 =>
        cases h
        rw [if_neg h1, if_neg h2, if_neg h3, if_neg h4, up]
        congr 2
        omega
  | str d =>
    simp only [up, step] at h ⊢
    split at h
    · next h1 => cases h; rw [if_pos h1]
    split at h
    · next h1 h2 => cases h; rw [if_neg h1, if_pos h2]
    · next h1 h2 => cases h; rw [if_neg h1, if_neg h2]
  | esc d =>
    simp only [up, step] at h ⊢
    split at h
    · next h1 => cases h; rw [if_pos h1]
    · cases h

theorem run_up (k : Nat) {bs : Bytes} :
    ∀ {s t : Scan}, run s bs = some t → run (s.up k) bs = some (t.up k) := by
  induction bs with
  | nil =>
    intro s t h
    cases h
    rfl
  | cons b bs ih =>
    intro s t h
    rw [run_cons, Option.bind_eq_some_iff] at h
    obtain ⟨u, hu, ht⟩ := h
    rw [run_cons, step_up k hu]
    exact ih ht

/-- One scan is inside a string exactly where the other one is outside. -/
inductive Opposite : Scan → Scan → Prop
  | outStr (d k : Nat) : Opposite (out d) (str k)
  | strOut (d k : Nat) : Opposite (str d) (out k)

theorem Opposite.step {s t s' t' : Scan} {b : UInt8} (h : Opposite s t) (hs : s.step b = some s')
    (ht : t.step b = some t') : Opposite s' t' := by
  -- both scans have to survive the byte, so it is not a backslash
  have key : ∀ d k u v, (out d).step b = some u → (str k).step b = some v →
      Opposite u v ∧ Opposite v u := by
    intro d k u v hu hv
    cases d with
    | zero => cases hu
    | succ d =>
      simp only [Scan.step] at hu hv
      split at hu
      · next h1 =>
        cases hu
        rw [if_pos h1] at hv
        cases hv
        exact ⟨.strOut _ _, .outStr _ _⟩
      next h1 =>
        rw [if_neg h1] at hv
        by_cases h5 : b = 0x5C
        · subst h5
          simp at hu
        · rw [if_neg h5] at hv
          rw [if_neg h5] at hu
          cases hv
          have hout : ∃ e, u = out e := by
            split at hu
            · exact ⟨_, (Option.some.inj hu).symm⟩
            split at hu
            · exact ⟨_, (Option.some.inj hu).symm⟩
            · exact ⟨_, (Option.some.inj hu).symm⟩
          obtain ⟨e, rfl⟩ := hout
          exact ⟨.outStr _ _, .strOut _ _⟩
  cases h with
  | outStr d k => exact (key d k s' t' hs ht).1
  | strOut d k => exact (key k d t' s' ht hs).2

theorem Opposite.run {bs : Bytes} : ∀ {s t s' t' : Scan}, Opposite s t → run s bs = some s' →
    run t bs = some t' → Opposite s' t' := by
  induction bs with
  | nil =>
    intro s t s' t' h hs ht
    cases hs
    cases ht
    exact h
  | cons b bs ih =>
    intro s t s' t' h hs ht
    rw [run_cons, Option.bind_eq_some_iff] at hs ht
    obtain ⟨s1, hs1, hs2⟩ := hs
    obtain ⟨t1, ht1, ht2⟩ := ht
    exact ih (h.step hs1 ht1) hs2 ht2

end Scan

open Scan

/-- An opening brace and what closes it, to the scan. -/
def Framed (bs : Bytes) : Prop := ∃ tl, bs = 0x7B :: tl ∧ run (out 1) tl = some (out 0)

/-- No framed text ends with another one. -/
theorem Framed.no_suffix {u t : Bytes} (ht : Framed t) (hut : Framed (u ++ t)) : u = [] := by
  obtain ⟨tl, rfl, htl⟩ := ht
  obtain ⟨tl', heq, htl'⟩ := hut
  cases u with
  | nil => rfl
  | cons b u =>
    rw [List.cons_append] at heq
    obtain ⟨rfl, rfl⟩ := List.cons.inj heq
    rw [run_append, Option.bind_eq_some_iff] at htl'
    obtain ⟨s, -, hs⟩ := htl'
    rw [run_cons, Option.bind_eq_some_iff] at hs
    obtain ⟨s', hs', hend⟩ := hs
    cases s with
    | out d =>
      cases d with
      | zero => cases hs'
      | succ d =>
        -- back at depth `d + 1`, not at `0`
        cases hs'
        have hup := run_up (d + 1) htl
        simp only [up] at hup
        rw [show 1 + (d + 1) = d + 2 by omega] at hup
        rw [hup] at hend
        cases hend
    | str d =>
      cases hs'
      cases Opposite.run (.outStr 1 d) htl hend
    | esc d => cases hs'

/-- **The prefix of an object text is determined.** -/
theorem prefix_unique {p p' t t' : Bytes} (ht : Framed t) (ht' : Framed t')
    (h : p ++ t = p' ++ t') : p = p' ∧ t = t' := by
  rcases List.append_eq_append_iff.mp h with ⟨u, hp, htt⟩ | ⟨u, hp, htt⟩
  · obtain rfl := ht'.no_suffix (htt ▸ ht)
    simp_all
  · obtain rfl := ht.no_suffix (htt ▸ ht')
    simp_all

/-! ## Printed texts -/

/-- A byte that changes nothing outside a string. -/
def neutral (b : UInt8) : Bool :=
  b ≠ 0x22 && b ≠ 0x7B && b ≠ 0x5B && b ≠ 0x7D && b ≠ 0x5D && b ≠ 0x5C

theorem run_neutral (d : Nat) : ∀ bs : Bytes, (∀ b ∈ bs, neutral b = true) →
    run (out (d + 1)) bs = some (out (d + 1))
  | [], _ => rfl
  | b :: bs, h => by
    have hb := h b List.mem_cons_self
    simp only [neutral, Bool.and_eq_true, decide_eq_true_eq] at hb
    obtain ⟨⟨⟨⟨⟨h1, h2⟩, h3⟩, h4⟩, h5⟩, h6⟩ := hb
    have hstep : step (out (d + 1)) b = some (out (d + 1)) := by
      simp [step, h1, h2, h3, h4, h5, h6]
    rw [run_cons, hstep]
    exact run_neutral d bs fun b hb => h b (List.mem_cons_of_mem _ hb)

/-- The characters of a number. -/
def numChar (c : Char) : Bool := c.isDigit || c = '-' || c = '+' || c = '.' || c = 'e'

theorem neutral_numChar {c : Char} (h : numChar c = true) :
    ∀ b ∈ String.utf8EncodeChar c, neutral b = true := by
  have hlt : c.toNat < 0x80 := by
    simp only [numChar, Bool.or_eq_true, decide_eq_true_eq, Char.isDigit, Bool.and_eq_true,
      UInt32.le_iff_toNat_le] at h
    rcases h with (((⟨-, h⟩ | rfl) | rfl) | rfl) | rfl
    · exact Nat.lt_of_le_of_lt h (by decide)
    all_goals decide
  have hall : ∀ n ∈ List.range 0x80, numChar (Char.ofNat n) = true →
      neutral (UInt8.ofNat n) = true := by decide +kernel
  rw [utf8EncodeChar_ascii hlt]
  intro b hb
  rw [List.mem_singleton] at hb
  subst hb
  refine hall c.toNat (List.mem_range.mpr hlt) ?_
  rw [Char.ofNat_toNat]
  exact h

theorem numChar_renderNum (d : Decimal) : ∀ c ∈ renderNum d, numChar c = true := by
  have hdig : ∀ c : Char, c.isDigit = true → numChar c = true := fun c h => by simp [numChar, h]
  intro c hc
  unfold renderNum at hc
  split at hc
  · rw [List.mem_singleton.mp hc]
    decide
  · obtain ⟨hip, hfp⟩ := isDigit_numParts (e := d.exp) (isDigit_toDigits (n := d.mant.natAbs))
    simp only [numText, List.mem_append] at hc
    rcases hc with ((hc | hc) | hc) | hc
    · split at hc
      · rw [List.mem_singleton.mp hc]
        decide
      · cases hc
    · exact hdig c (hip c hc)
    · split at hc
      · cases hc
      · rcases List.mem_cons.mp hc with rfl | hc
        · decide
        · exact hdig c (hfp c hc)
    · split at hc
      · cases hc
      · rcases List.mem_cons.mp hc with rfl | hc
        · decide
        rcases List.mem_cons.mp hc with rfl | hc
        · split <;> decide
        · exact hdig c (isDigit_toDigits c hc)

theorem run_renderNum (d : Decimal) (k : Nat) :
    run (out (k + 1)) (utf8 (renderNum d)) = some (out (k + 1)) := by
  refine run_neutral k _ fun b hb => ?_
  obtain ⟨c, hc, hb⟩ := List.mem_flatMap.mp hb
  exact neutral_numChar (numChar_renderNum d c hc) b hb

/-- An escape is read inside the string it stands in. -/
def ScanOk (esc : Char → List Char) : Prop :=
  ∀ c d, run (Scan.str d) (utf8 (esc c)) = some (Scan.str d)

theorem run_renderStr {esc : Char → List Char} (hesc : ScanOk esc) (s : List Char) (d : Nat) :
    run (out (d + 1)) (utf8 (renderStr esc s)) = some (out (d + 1)) := by
  have hbody : ∀ s : List Char,
      run (Scan.str (d + 1)) (utf8 (s.flatMap esc)) = some (Scan.str (d + 1)) := by
    intro s
    induction s with
    | nil => rfl
    | cons c s ih =>
      rw [List.flatMap_cons, utf8_append, run_append, hesc]
      exact ih
  have hstart : step (out (d + 1)) 0x22 = some (Scan.str (d + 1)) := rfl
  show run (out (d + 1)) (utf8 ('"' :: (s.flatMap esc ++ ['"']))) = _
  rw [utf8_cons, utf8EncodeChar_ascii (by decide), List.singleton_append, run_cons]
  show (step (out (d + 1)) 0x22).bind _ = _
  rw [hstart, Option.bind_some, utf8_append, run_append, hbody]
  rfl

/-- A single character outside a string. -/
theorem run_out_cons {c : Char} (hc : c.toNat < 0x80) (cs : List Char) (s : Scan) :
    run s (utf8 (c :: cs)) = (s.step (UInt8.ofNat c.toNat)).bind fun s => run s (utf8 cs) := by
  rw [utf8_cons, utf8EncodeChar_ascii hc]
  rfl

mutual

/-- A value leaves the depth as it was, by induction on the tree. -/
theorem run_render {esc : Char → List Char} (hesc : ScanOk esc) : ∀ (j : Json) (d : Nat),
    run (out (d + 1)) (utf8 (render esc j)) = some (out (d + 1))
  | .null, d => run_neutral d (utf8 ['n', 'u', 'l', 'l']) (by decide +kernel)
  | .bool true, d => run_neutral d (utf8 ['t', 'r', 'u', 'e']) (by decide +kernel)
  | .bool false, d => run_neutral d (utf8 ['f', 'a', 'l', 's', 'e']) (by decide +kernel)
  | .num x, d => run_renderNum x d
  | .negZero, d => run_neutral d (utf8 ['-', '0']) (by decide +kernel)
  | .str s, d => run_renderStr hesc s d
  | .arr [], d => rfl
  | .arr (x :: xs), d => by
    rw [render, run_out_cons (by decide), utf8_append]
    show run (out (d + 2)) _ = _
    rw [run_append, run_render hesc x (d + 1)]
    exact run_renderElems hesc xs (d + 1)
  | .obj [], d => rfl
  | .obj ((k, x) :: ms), d => by
    rw [render, run_out_cons (by decide), utf8_append]
    show run (out (d + 2)) _ = _
    rw [run_append, run_renderStr hesc k (d + 1), Option.bind_some, run_out_cons (by decide)]
    show run (out (d + 2)) _ = _
    rw [utf8_append, run_append, run_render hesc x (d + 1)]
    exact run_renderMembers hesc ms (d + 1)

theorem run_renderElems {esc : Char → List Char} (hesc : ScanOk esc) :
    ∀ (xs : List Json) (d : Nat),
      run (out (d + 1)) (utf8 (renderElems esc xs)) = some (out d)
  | [], d => rfl
  | x :: xs, d => by
    rw [renderElems, run_out_cons (by decide), utf8_append]
    show run (out (d + 1)) _ = _
    rw [run_append, run_render hesc x d]
    exact run_renderElems hesc xs d

theorem run_renderMembers {esc : Char → List Char} (hesc : ScanOk esc) :
    ∀ (ms : List (List Char × Json)) (d : Nat),
      run (out (d + 1)) (utf8 (renderMembers esc ms)) = some (out d)
  | [], d => rfl
  | (k, x) :: ms, d => by
    rw [renderMembers, run_out_cons (by decide), utf8_append]
    show run (out (d + 1)) _ = _
    rw [run_append, run_renderStr hesc k d, Option.bind_some, run_out_cons (by decide)]
    show run (out (d + 1)) _ = _
    rw [utf8_append, run_append, run_render hesc x d]
    exact run_renderMembers hesc ms d

end

end Infra.Json
