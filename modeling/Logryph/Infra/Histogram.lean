import Mathlib.Data.List.Basic
import Mathlib.Order.Lattice

/-!
# Histograms

Values are counted in buckets with increasing upper bounds. There are two ways to do it: a value
counts in the first bucket that it fits in, or in every bucket that it fits in. A reader who takes
counts of the first kind for counts of the second kind is misled, except in one case.

* `inBuckets_concat` — one more value, counted in the first bucket that it fits in
* `inBuckets_eq_cumulative_iff` — the counts agree when only the last bucket has values in it
-/

namespace Infra

variable {α : Type} [LinearOrder α]

/-- The number of values for which each bound is the first one that they fit in. -/
def inBuckets : List α → List α → List Nat
  | [], _ => []
  | b :: bounds, xs => xs.countP (· ≤ b) :: inBuckets bounds (xs.filter (b < ·))

/-- The number of values that are not above each bound. -/
def cumulative (bounds xs : List α) : List Nat := bounds.map fun b => xs.countP (· ≤ b)

@[simp] theorem length_inBuckets : ∀ bounds xs : List α,
    (inBuckets bounds xs).length = bounds.length
  | [], _ => rfl
  | _ :: bounds, xs => by simp [inBuckets, length_inBuckets bounds]

/-- One more in the first bucket that a value fits in. -/
def bump (x : α) : List α → List Nat → List Nat
  | b :: bounds, n :: counts => if x ≤ b then (n + 1) :: counts else n :: bump x bounds counts
  | _, counts => counts

theorem inBuckets_concat (x : α) : ∀ bounds xs : List α,
    inBuckets bounds (xs ++ [x]) = bump x bounds (inBuckets bounds xs)
  | [], _ => rfl
  | b :: bounds, xs => by
    rw [inBuckets, inBuckets, bump, List.countP_append, List.filter_append]
    by_cases hx : x ≤ b
    · rw [if_pos hx]
      simp [hx]
    · rw [if_neg hx, ← inBuckets_concat x bounds]
      simp [hx, not_le.mp hx]

/-- The values up to a bound are those up to a smaller bound, and those in between. -/
theorem countP_le_eq_add {b b' : α} (hb : b < b') : ∀ xs : List α,
    xs.countP (· ≤ b') = (xs.filter (b < ·)).countP (· ≤ b') + xs.countP (· ≤ b)
  | [] => rfl
  | x :: xs => by
    rw [List.countP_cons, List.countP_cons, countP_le_eq_add hb xs]
    by_cases hx : x ≤ b
    · rw [List.filter_cons_of_neg (by simpa using hx)]
      simp [hx, hx.trans hb.le]
      omega
    · rw [List.filter_cons_of_pos (by simpa using hx), List.countP_cons]
      simp only [hx, decide_false]
      simp
      omega

/-- If the counts agree on the buckets after a bound, no value fits in the bucket of the bound. -/
theorem above_of_inBuckets_eq {m : Nat} {b : α} {xs : List α} : ∀ {bounds : List α}, bounds ≠ [] →
    (∀ b' ∈ bounds, b < b') →
    (inBuckets bounds (xs.filter (b < ·))).map (· % m) = cumulative bounds xs → ∀ x ∈ xs, b < x
  | [], hne, _, _ => absurd rfl hne
  | b' :: bounds, _, hb, h => by
    intro x hx
    have hhead : (xs.filter (b < ·)).countP (· ≤ b') % m = xs.countP (· ≤ b') :=
      (List.cons.inj h).1
    have hsplit := countP_le_eq_add (hb b' List.mem_cons_self) xs
    have hle := Nat.mod_le ((xs.filter (b < ·)).countP (· ≤ b')) m
    have hnone : xs.countP (· ≤ b) = 0 := by omega
    simpa using List.countP_eq_zero.mp hnone x hx

/-- **When the two kinds of counts agree**, the first one kept modulo `m`: every value is above all
bounds but the last, and the values that fit in the last bucket are fewer than `m`. -/
theorem inBuckets_eq_cumulative_iff {m : Nat} (hm : 0 < m) (last : α) (xs : List α) :
    ∀ {bounds : List α}, (bounds ++ [last]).Pairwise (· < ·) →
      ((inBuckets (bounds ++ [last]) xs).map (· % m) = cumulative (bounds ++ [last]) xs ↔
        (∀ b ∈ bounds, ∀ x ∈ xs, b < x) ∧ xs.countP (· ≤ last) < m)
  | [], _ => by
    have hmod : xs.countP (· ≤ last) % m = xs.countP (· ≤ last) ↔ xs.countP (· ≤ last) < m :=
      ⟨fun h => h ▸ Nat.mod_lt _ hm, Nat.mod_eq_of_lt⟩
    simp [inBuckets, cumulative, hmod]
  | b :: bounds, h => by
    obtain ⟨hb, hbounds⟩ := List.pairwise_cons.mp h
    have ih := inBuckets_eq_cumulative_iff hm last xs hbounds
    have hsplit : (inBuckets (b :: bounds ++ [last]) xs).map (· % m) =
          cumulative (b :: bounds ++ [last]) xs ↔
        (∀ x ∈ xs, b < x) ∧
          (inBuckets (bounds ++ [last]) xs).map (· % m) = cumulative (bounds ++ [last]) xs := by
      have hfilter : (∀ x ∈ xs, b < x) → xs.filter (b < ·) = xs := fun hall =>
        List.filter_eq_self.mpr (by simpa using hall)
      constructor
      · intro heq
        have htail := (List.cons.inj heq).2
        have hall := above_of_inBuckets_eq (by simp) hb htail
        rw [hfilter hall] at htail
        exact ⟨hall, htail⟩
      · rintro ⟨hall, htail⟩
        have hnone : xs.countP (· ≤ b) = 0 := List.countP_eq_zero.mpr (by simpa using hall)
        rw [List.cons_append, inBuckets, hfilter hall, List.map_cons, htail, hnone, Nat.zero_mod,
          cumulative, cumulative, List.map_cons, hnone]
    rw [hsplit, ih, List.forall_mem_cons, and_assoc]

end Infra
