import Mathlib.Data.List.Chain
import Mathlib.Data.List.Sort
import Mathlib.Logic.Relation

/-!
# Append-only linked logs

A log in which every entry carries its own position and a name for the entry before it. What an
entry's number, link and name are is up to the `View`, so that the same facts hold for rows of a
table, events or anything else.

* `IsLog` — the log, built at its end only
* `IsLog.map_num`, `IsLog.prev_head`, `IsLog.isChain` — what it looks like from the front
* `isInfix_of_sublist` — what is left of a log is linked only if it was in one piece
* `LogStep`, `isLog_of_steps` — a system whose steps append a linked entry or do nothing only
  ever holds logs
* `AllGrounded` — whatever an entry refers to stands before it
-/

namespace Infra

/-- A chain, element by element through a relation. -/
theorem isChain_of_forall₂ {α β : Type} {R : α → β → Prop} {S : α → α → Prop} {T : β → β → Prop}
    (hST : ∀ a b a' b', R a a' → R b b' → S a b → T a' b') :
    ∀ {xs : List α} {ys : List β}, List.Forall₂ R xs ys → xs.IsChain S → ys.IsChain T
  | _, _, .nil, _ => .nil
  | _, _, .cons _ .nil, _ => .singleton _
  | _, _, .cons h₁ (.cons h₂ hs), hchain => by
    rw [List.isChain_cons_cons] at hchain ⊢
    exact ⟨hST _ _ _ _ h₁ h₂ hchain.1, isChain_of_forall₂ hST (.cons h₂ hs) hchain.2⟩

/-- What belongs to the first elements is the first part of what belongs to all. -/
theorem exists_forall₂_of_isPrefix {α β : Type} {R : α → β → Prop} {xs xs' : List α}
    {ys' : List β} (h : List.Forall₂ R xs' ys') (hxs : xs <+: xs') :
    ∃ ys, List.Forall₂ R xs ys ∧ ys <+: ys' := by
  refine ⟨ys'.take xs.length, ?_, List.take_prefix _ _⟩
  have htake := List.forall₂_take xs.length h
  rwa [← List.prefix_iff_eq_take.mp hxs] at htake

section Sorting

variable {α : Type} (r : α → α → Prop) [DecidableRel r]

theorem orderedInsert_of_forall {a : α} : ∀ {l : List α}, (∀ b ∈ l, r a b) →
    l.orderedInsert r a = a :: l
  | [], _ => rfl
  | b :: l, h => List.orderedInsert_cons_of_le r l (h b List.mem_cons_self)

theorem filter_orderedInsert [IsTrans α r] (p : α → Bool) (a : α) : ∀ {l : List α}, l.Pairwise r →
    (l.orderedInsert r a).filter p
      = if p a then (l.filter p).orderedInsert r a else l.filter p
  | [], _ => by
    rw [List.orderedInsert_nil, List.filter_cons]
    rfl
  | b :: l, h => by
    obtain ⟨hb, hl⟩ := List.pairwise_cons.mp h
    by_cases hab : r a b
    · -- all that is kept comes after `a`
      have hall : ∀ x ∈ (b :: l).filter p, r a x := by
        intro x hx
        rcases List.mem_cons.mp (List.mem_of_mem_filter hx) with rfl | hx
        · exact hab
        · exact IsTrans.trans a b x hab (hb x hx)
      rw [List.orderedInsert_cons_of_le r l hab, List.filter_cons, orderedInsert_of_forall r hall]
    · rw [List.orderedInsert_of_not_le r l hab, List.filter_cons, filter_orderedInsert p a hl,
        List.filter_cons]
      by_cases hpb : p b
      · rw [if_pos hpb, if_pos hpb]
        split
        · rw [List.orderedInsert_of_not_le r _ hab]
        · rfl
      · rw [if_neg hpb, if_neg hpb]

/-- Leaving elements out commutes with sorting. -/
theorem insertionSort_filter [Std.Total r] [IsTrans α r] (p : α → Bool) : ∀ l : List α,
    (l.filter p).insertionSort r = (l.insertionSort r).filter p
  | [] => rfl
  | a :: l => by
    rw [List.insertionSort_cons, filter_orderedInsert r p a (List.pairwise_insertionSort r l),
      List.filter_cons, ← insertionSort_filter p l]
    split
    · rw [List.insertionSort_cons]
    · rfl

end Sorting

/-- How to read the number, the link and the name of an entry. -/
structure View (α β : Type) where
  num : α → Int
  prev : α → β
  cur : α → β
  start : β

namespace View

variable {α β : Type} (v : View α β)

/-- The name that the next entry has to link to. -/
def tip (l : List α) : β := (l.getLast?.map v.cur).getD v.start

@[simp] theorem tip_nil : v.tip [] = v.start := rfl

/-- An entry may follow a log. -/
def Follows (l : List α) (x : α) : Prop := v.num x = l.length ∧ v.prev x = v.tip l

/-- A log: every entry follows those before it. -/
inductive IsLog : List α → Prop
  | nil : IsLog []
  | concat {l : List α} {x : α} (h : IsLog l) (hx : v.Follows l x) : IsLog (l ++ [x])

variable {v}

theorem IsLog.map_num {l : List α} (h : v.IsLog l) :
    l.map v.num = (List.range l.length).map Int.ofNat := by
  induction h with
  | nil => rfl
  | concat _ hx ih =>
    rw [List.map_append, ih, List.length_append, List.length_singleton, List.range_succ,
      List.map_append, List.map_singleton, hx.1]
    rfl

theorem IsLog.prev_head {l : List α} (h : v.IsLog l) : ∀ x ∈ l.head?, v.prev x = v.start := by
  induction h with
  | nil =>
    intro x hx
    cases hx
  | @concat l y _ hy ih =>
    intro x hx
    cases l with
    | nil =>
      cases hx
      exact hy.2
    | cons z l => exact ih x hx

theorem IsLog.isChain {l : List α} (h : v.IsLog l) :
    l.IsChain fun a b => v.prev b = v.cur a := by
  induction h with
  | nil => exact .nil
  | @concat l y _ hy ih =>
    refine ih.append (.singleton y) fun a ha b hb => ?_
    cases hb
    rw [hy.2, tip, Option.mem_def.mp ha]
    rfl

theorem IsLog.num_lt {l : List α} (h : v.IsLog l) :
    ∀ x ∈ l, 0 ≤ v.num x ∧ v.num x < l.length := by
  intro x hx
  have hmem : v.num x ∈ l.map v.num := List.mem_map_of_mem hx
  rw [h.map_num, List.mem_map] at hmem
  obtain ⟨i, hi, hxi⟩ := hmem
  rw [List.mem_range] at hi
  rw [← hxi]
  exact ⟨Int.natCast_nonneg i, Int.ofNat_lt.mpr hi⟩

theorem IsLog.num_last {l : List α} {x : α} (h : v.IsLog (l ++ [x])) : v.num x = l.length := by
  generalize hl : l ++ [x] = l' at h
  cases h with
  | nil => exact absurd hl (by simp)
  | concat _ hy =>
    obtain ⟨rfl, hxy⟩ := List.append_inj' hl rfl
    cases hxy
    exact hy.1

/-- The first entries of a log are one. -/
theorem IsLog.of_prefix {l l' : List α} (h : v.IsLog l') (hl : l <+: l') : v.IsLog l := by
  induction h with
  | nil =>
    rw [List.prefix_nil.mp hl]
    exact .nil
  | concat hlog hx ih =>
    rcases List.prefix_concat_iff.mp hl with rfl | hshort
    · exact hlog.concat hx
    · exact ih hshort

theorem IsLog.pairwise_num {l : List α} (h : v.IsLog l) :
    l.Pairwise fun a b => v.num a < v.num b := by
  induction h with
  | nil => exact .nil
  | concat hl hy ih =>
    refine List.pairwise_append.mpr ⟨ih, List.pairwise_singleton _ _, fun a ha b hb => ?_⟩
    rw [List.mem_singleton.mp hb, hy.1]
    exact (hl.num_lt a ha).2

theorem IsLog.insertionSort_eq {l : List α} (h : v.IsLog l) :
    (l.insertionSort fun a b => v.num a ≤ v.num b) = l :=
  (h.pairwise_num.imp fun hab => hab.le).insertionSort_eq

/-- The entry with the largest number is the last one. -/
theorem IsLog.head?_insertionSort {l : List α} (h : v.IsLog l) :
    (l.insertionSort fun a b => v.num b ≤ v.num a).head? = l.getLast? := by
  have : Std.Total fun a b : α => v.num b ≤ v.num a := ⟨fun a b => le_total _ _⟩
  have : IsTrans α fun a b => v.num b ≤ v.num a := ⟨fun a b c hab hbc => hbc.trans hab⟩
  have hperm := List.perm_insertionSort (fun a b => v.num b ≤ v.num a) l
  have hsorted := List.pairwise_insertionSort (fun a b => v.num b ≤ v.num a) l
  cases hsort : l.insertionSort fun a b => v.num b ≤ v.num a with
  | nil =>
    rw [hsort] at hperm
    rw [← hperm.nil_eq]
    rfl
  | cons x xs =>
    rw [hsort] at hperm hsorted
    have hx : x ∈ l := hperm.subset List.mem_cons_self
    obtain ⟨l', y, rfl⟩ := (List.eq_nil_or_concat' l).resolve_left (List.ne_nil_of_mem hx)
    rw [List.getLast?_concat, List.head?_cons, Option.some.injEq]
    -- `x` comes first, so its number is at least that of `y`, which is the largest
    rcases List.mem_append.mp hx with hx' | hx'
    · have hlt : v.num x < v.num y :=
        (List.pairwise_append.mp h.pairwise_num).2.2 x hx' y (List.mem_singleton_self y)
      rcases List.mem_cons.mp (hperm.symm.subset (List.mem_append_right _
        (List.mem_singleton_self y))) with hy | hy
      · exact hy.symm
      · exact absurd ((List.pairwise_cons.mp hsorted).1 y hy) (not_le.mpr hlt)
    · exact List.mem_singleton.mp hx'

/-- **A part of a chain that is a chain has no gap.** Names are different, so each entry can only
come directly after the one that it links to. -/
theorem isInfix_of_sublist {l k : List α} (hl : l.IsChain fun a b => v.prev b = v.cur a)
    (hcur : (l.map v.cur).Nodup) (hsub : k.Sublist l)
    (hk : k.IsChain fun a b => v.prev b = v.cur a) : k <:+: l := by
  induction hsub with
  | slnil => exact List.infix_refl []
  | cons a _ ih =>
    rw [List.map_cons, List.nodup_cons] at hcur
    exact List.infix_cons (ih hl.tail hcur.2 hk)
  | @cons_cons k l a _ ih =>
    rw [List.map_cons, List.nodup_cons] at hcur
    obtain ⟨s, t, hst⟩ := ih hl.tail hcur.2 hk.tail
    cases k with
    | nil => exact ⟨[], l, rfl⟩
    | cons b k =>
      have hlink : v.prev b = v.cur a := (List.isChain_cons_cons.mp hk).1
      rcases List.eq_nil_or_concat' s with rfl | ⟨s, x, rfl⟩
      · exact ⟨[], t, by rw [← hst]; rfl⟩
      · -- the entry before `b` would have the name of `a`
        have hsplit : l = (s ++ [x]) ++ ([b] ++ (k ++ t)) := by rw [← hst]; simp
        have hx : v.prev b = v.cur x := by
          have hchain := hl.tail
          rw [List.tail_cons, hsplit] at hchain
          exact (List.isChain_append.mp hchain).2.2 x (by simp) b (by simp)
        refine absurd ?_ hcur.1
        rw [← hlink, hx, hsplit]
        simp

/-! ## Systems that keep a log -/

variable (v)

/-- A step that appends an entry with a given property, or does nothing. -/
def LogStep (P : α → Prop) (l l' : List α) : Prop :=
  l' = l ∨ ∃ x, v.Follows l x ∧ P x ∧ l' = l ++ [x]

variable {v}

theorem LogStep.isLog {P : α → Prop} {l l' : List α} (h : v.LogStep P l l') (hl : v.IsLog l)
    (hP : ∀ x ∈ l, P x) : v.IsLog l' ∧ ∀ x ∈ l', P x := by
  rcases h with rfl | ⟨x, hx, hPx, rfl⟩
  · exact ⟨hl, hP⟩
  · refine ⟨hl.concat hx, fun y hy => ?_⟩
    rcases List.mem_append.mp hy with hy | hy
    · exact hP y hy
    · rw [List.mem_singleton.mp hy]
      exact hPx

/-- **Steps that append linked entries only ever give logs.** -/
theorem isLog_of_steps {P : α → Prop} {l l' : List α}
    (h : Relation.ReflTransGen (v.LogStep P) l l') (hl : v.IsLog l) (hP : ∀ x ∈ l, P x) :
    v.IsLog l' ∧ ∀ x ∈ l', P x := by
  induction h with
  | refl => exact ⟨hl, hP⟩
  | tail _ hstep ih => exact hstep.isLog ih.1 ih.2

theorem length_le_of_steps {P : α → Prop} {l l' : List α}
    (h : Relation.ReflTransGen (v.LogStep P) l l') : l.length ≤ l'.length := by
  induction h with
  | refl => exact Nat.le_refl _
  | tail _ hstep ih =>
    rcases hstep with rfl | ⟨x, -, -, rfl⟩
    · exact ih
    · rw [List.length_append]
      omega

end View

/-! ## References to earlier entries -/

section Grounded

variable {α : Type} {root : α → Prop} {R : α → α → Prop}

/-- The entry refers to nothing, or to one of the list. -/
def Grounded (root : α → Prop) (R : α → α → Prop) (l : List α) (x : α) : Prop :=
  root x ∨ ∃ y ∈ l, R y x

theorem Grounded.mono {l l' : List α} {x : α} (h : Grounded root R l x) (hsub : l ⊆ l') :
    Grounded root R l' x :=
  h.imp_right fun ⟨y, hy, hR⟩ => ⟨y, hsub hy, hR⟩

/-- An entry to which nothing refers can be left out. -/
theorem Grounded.remove {l₁ l₂ : List α} {x y : α} (h : Grounded root R (l₁ ++ x :: l₂) y)
    (hfree : root y ∨ ¬R x y) : Grounded root R (l₁ ++ l₂) y := by
  rcases h with hroot | ⟨z, hz, hR⟩
  · exact Or.inl hroot
  · rcases List.mem_append.mp hz with hz | hz
    · exact Or.inr ⟨z, List.mem_append_left _ hz, hR⟩
    · rcases List.mem_cons.mp hz with rfl | hz
      · exact Or.inl (hfree.resolve_right (not_not_intro hR))
      · exact Or.inr ⟨z, List.mem_append_right _ hz, hR⟩

/-- Every entry refers to nothing, or to one that stands before it. -/
def AllGrounded (root : α → Prop) (R : α → α → Prop) (l : List α) : Prop :=
  ∀ l₁ x l₂, l = l₁ ++ x :: l₂ → Grounded root R l₁ x

theorem AllGrounded.nil : AllGrounded root R [] := by
  intro l₁ x l₂ h
  simp at h

theorem AllGrounded.concat {l : List α} {x : α} (h : AllGrounded root R l)
    (hx : Grounded root R l x) : AllGrounded root R (l ++ [x]) := by
  intro l₁ y l₂ heq
  rcases List.eq_nil_or_concat' l₂ with rfl | ⟨l₃, z, rfl⟩
  · obtain ⟨rfl, hxy⟩ := List.append_inj' heq rfl
    cases hxy
    exact hx
  · rw [← List.cons_append, ← List.append_assoc] at heq
    exact h l₁ y l₃ (List.append_inj' heq rfl).1

theorem AllGrounded.remove {l₁ l₂ : List α} {x : α} (h : AllGrounded root R (l₁ ++ x :: l₂))
    (hfree : ∀ y ∈ l₂, root y ∨ ¬R x y) : AllGrounded root R (l₁ ++ l₂) := by
  -- the entries after `x`
  have hafter : ∀ l₃ y l₄, l₂ = l₃ ++ y :: l₄ → Grounded root R (l₁ ++ l₃) y := by
    rintro l₃ y l₄ rfl
    have hy : Grounded root R (l₁ ++ x :: l₃) y := h (l₁ ++ x :: l₃) y l₄ (by simp)
    exact hy.remove (hfree y (by simp))
  intro a y b heq
  rcases List.append_eq_append_iff.mp heq with ⟨l₃, rfl, hl₂⟩ | ⟨l₃, rfl, hl₂⟩
  · exact hafter l₃ y b hl₂
  · cases l₃ with
    | nil =>
      rw [List.append_nil] at hafter
      have hy := hafter [] y b hl₂.symm
      rwa [List.append_nil] at hy
    | cons z l₃ =>
      cases hl₂
      exact h a y (l₃ ++ x :: l₂) (by simp)

end Grounded

end Infra
