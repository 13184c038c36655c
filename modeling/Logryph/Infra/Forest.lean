import Mathlib.Data.List.Nodup
import Mathlib.Data.List.Perm.Subperm

/-!
# Walking a forest with a stack

A depth-first walk by recursion, and the loop with a stack that stands in for it. The forest is
given by a function for the children, which may have cycles; the recursive walk is a relation, so
that it says something only where the recursion ends.

* `DepthFirst.unique` — the recursion has at most one result
* `depthFirst_of_walk` — where the loop ends, the recursion does, with the same result
* `Explored` — in a forest that is given by parent pointers, every node is put on the stack at most
  once
* `walk_ends` — so the loop ends after as many rounds as there are nodes
* `mem_walk_iff` — and then it has visited the nodes from which the parents lead to a root
-/

namespace Infra

section

variable {α : Type} (expand : α → List α)

/-! ## By recursion -/

/-- The nodes of a list of trees: each one, then the trees of its children, then the next one. -/
inductive DepthFirst : List α → List α → Prop
  | nil : DepthFirst [] []
  | cons {x : α} {xs ys zs : List α} (children : DepthFirst (expand x) ys)
      (siblings : DepthFirst xs zs) : DepthFirst (x :: xs) (x :: (ys ++ zs))

variable {expand}

theorem DepthFirst.unique {xs ys zs : List α} (hy : DepthFirst expand xs ys)
    (hz : DepthFirst expand xs zs) : ys = zs := by
  induction hy generalizing zs with
  | nil =>
    cases hz
    rfl
  | cons _ _ ihc ihs =>
    cases hz with
    | cons hc hs => rw [ihc hc, ihs hs]

theorem DepthFirst.split : ∀ {a b ys : List α}, DepthFirst expand (a ++ b) ys →
    ∃ ya yb, ys = ya ++ yb ∧ DepthFirst expand a ya ∧ DepthFirst expand b yb
  | [], b, ys, h => ⟨[], ys, rfl, .nil, h⟩
  | x :: a, b, _, .cons hc hs => by
    obtain ⟨ya, yb, rfl, ha, hb⟩ := DepthFirst.split hs
    exact ⟨_, yb, by simp, .cons hc ha, hb⟩

/-! ## With a stack -/

variable (expand)

/-- The loop, for a number of rounds. The first node of the stack is visited, and its children are
put in its place. What was visited before, and the stack. -/
def walk : Nat → List α → List α → List α × List α
  | 0, visited, stack => (visited, stack)
  | _ + 1, visited, [] => (visited, [])
  | n + 1, visited, x :: stack => walk n (visited ++ [x]) (expand x ++ stack)

variable {expand}

/-- The invariant rule for the loop. -/
theorem walk_inv {P : List α → List α → Prop}
    (hstep : ∀ v x s, P v (x :: s) → P (v ++ [x]) (expand x ++ s)) :
    ∀ {n : Nat} {v s : List α}, P v s → P (walk expand n v s).1 (walk expand n v s).2
  | 0, _, _, h => h
  | _ + 1, _, [], h => h
  | n + 1, v, x :: s, h => by
    rw [walk]
    exact walk_inv hstep (hstep v x s h)

/-- The loop ends, or visits a node in each round. -/
theorem walk_length : ∀ {n : Nat} {v s : List α},
    (walk expand n v s).2 = [] ∨ (walk expand n v s).1.length = v.length + n
  | 0, _, _ => Or.inr rfl
  | _ + 1, _, [] => Or.inl rfl
  | n + 1, v, x :: s => by
    rw [walk]
    rcases @walk_length n (v ++ [x]) (expand x ++ s) with h | h
    · exact Or.inl h
    · right
      rw [h, List.length_append, List.length_singleton]
      omega

/-- **Where the loop ends, the recursion does**, and visits the same nodes in the same order. -/
theorem depthFirst_of_walk : ∀ {n : Nat} {v s : List α}, (walk expand n v s).2 = [] →
    ∃ ys, (walk expand n v s).1 = v ++ ys ∧ DepthFirst expand s ys
  | 0, v, s, h => by
    cases h
    exact ⟨[], (List.append_nil v).symm, .nil⟩
  | _ + 1, v, [], _ => ⟨[], (List.append_nil v).symm, .nil⟩
  | n + 1, v, x :: s, h => by
    rw [walk] at h ⊢
    obtain ⟨ys, hv, hys⟩ := depthFirst_of_walk h
    obtain ⟨yc, yb, rfl, hc, hs⟩ := hys.split
    exact ⟨x :: (yc ++ yb), by rw [hv]; simp, .cons hc hs⟩

end

/-! ## Parent pointers -/

section

variable {α ν κ : Type} (nodes : List ν) (key : ν → κ) (parent : ν → Option κ)
  (node : α → ν)

/-- What was visited or stands on the stack: the roots, and the children of what was visited, each
once. -/
structure Explored (v s : List α) : Prop where
  nodup : ((v ++ s).map node).Nodup
  mem_iff : ∀ y, y ∈ (v ++ s).map node ↔
    y ∈ nodes ∧ (parent y = none ∨ ∃ x ∈ v, parent y = some (key (node x)))

/-- The parents of the node lead to a root, and all of them are there. -/
inductive Rooted : ν → Prop
  | root {y : ν} (mem : y ∈ nodes) (top : parent y = none) : Rooted y
  | child {x y : ν} (mem : y ∈ nodes) (link : parent y = some (key x)) (above : Rooted x) : Rooted y

variable {nodes key parent node} [DecidableEq κ] {expand : α → List α} {v s : List α}

omit [DecidableEq κ] in
theorem Rooted.mem {y : ν} (h : Rooted nodes key parent y) : y ∈ nodes := by
  cases h with
  | root mem => exact mem
  | child mem => exact mem

omit [DecidableEq κ] in
theorem Explored.start (hnodup : nodes.Nodup)
    (hroots : s.map node = nodes.filter fun y => parent y = none) :
    Explored nodes key parent node [] s := by
  rw [← List.nil_append s] at hroots
  refine ⟨hroots ▸ hnodup.filter _, fun y => ?_⟩
  rw [hroots]
  simp

/-- The children of the next node are new: another node with the same key would have been visited
before. -/
theorem Explored.step {x : α} (hkeys : (nodes.map key).Nodup)
    (hexpand : node x ∈ nodes →
      (expand x).map node = nodes.filter fun y => parent y = some (key (node x)))
    (h : Explored nodes key parent node v (x :: s)) :
    Explored nodes key parent node (v ++ [x]) (expand x ++ s) := by
  have hx : node x ∈ nodes := ((h.mem_iff (node x)).mp (by simp)).1
  replace hexpand := hexpand hx
  have hinj : ∀ {a b : ν}, a ∈ nodes → b ∈ nodes → key a = key b → a = b :=
    fun ha hb => List.inj_on_of_nodup_map hkeys ha hb
  have hfresh : ∀ y ∈ (expand x).map node, y ∉ (v ++ x :: s).map node := by
    intro y hy hmem
    rw [hexpand, List.mem_filter, decide_eq_true_eq] at hy
    obtain ⟨-, hnone | ⟨x', hx', hparent⟩⟩ := (h.mem_iff y).mp hmem
    · rw [hy.2] at hnone
      cases hnone
    · rw [hy.2, Option.some.injEq] at hparent
      have hx'mem : node x' ∈ nodes :=
        ((h.mem_iff (node x')).mp (List.mem_map_of_mem (List.mem_append_left _ hx'))).1
      have heq : node x = node x' := hinj hx hx'mem hparent
      have hnd := h.nodup
      rw [List.map_append, List.nodup_append] at hnd
      exact hnd.2.2 (node x') (List.mem_map_of_mem hx') (node x) (by simp) heq.symm
  have hperm : ((v ++ [x]) ++ (expand x ++ s)).Perm (expand x ++ (v ++ x :: s)) := by
    rw [List.append_assoc, List.singleton_append]
    have hmiddle : (x :: (expand x ++ s)).Perm (expand x ++ x :: s) := List.perm_middle.symm
    refine (hmiddle.append_left v).trans ?_
    rw [← List.append_assoc, ← List.append_assoc]
    exact List.perm_append_comm.append_right _
  refine ⟨?_, fun y => ?_⟩
  · rw [(hperm.map node).nodup_iff, List.map_append, List.nodup_append]
    refine ⟨?_, h.nodup, fun a ha b hb hab => hfresh a ha (hab ▸ hb)⟩
    rw [hexpand]
    exact (List.Nodup.of_map key hkeys).filter _
  · rw [(hperm.map node).mem_iff, List.map_append, List.mem_append, h.mem_iff, hexpand,
      List.mem_filter, decide_eq_true_eq]
    simp only [List.mem_append, List.mem_singleton, or_and_right, exists_or, exists_eq_left]
    rw [← and_or_left]
    refine and_congr_right fun _ => ?_
    rw [or_comm, or_assoc]

omit [DecidableEq κ] in
/-- No more nodes are visited or on the stack than there are. -/
theorem Explored.length_le (h : Explored nodes key parent node v s) :
    v.length + s.length ≤ nodes.length := by
  have hsub : (v ++ s).map node ⊆ nodes := fun y hy => ((h.mem_iff y).mp hy).1
  have hle := (List.subperm_of_subset h.nodup hsub).length_le
  simpa using hle

section

variable {n : Nat} (hkeys : (nodes.map key).Nodup)
  (hexpand : ∀ x, node x ∈ nodes →
    (expand x).map node = nodes.filter fun y => parent y = some (key (node x)))
  (hroots : s.map node = nodes.filter fun y => parent y = none)

include hkeys hexpand hroots

theorem explored_walk :
    Explored nodes key parent node (walk expand n [] s).1 (walk expand n [] s).2 :=
  walk_inv (fun _ x _ h => h.step hkeys (hexpand x))
    (Explored.start (List.Nodup.of_map key hkeys) hroots)

/-- **The loop ends after as many rounds as there are nodes**, with or without cycles. -/
theorem walk_ends (hn : nodes.length ≤ n) : (walk expand n [] s).2 = [] := by
  have hle := (explored_walk (n := n) hkeys hexpand hroots).length_le
  rcases @walk_length α expand n [] s with h | h
  · exact h
  · rw [h, List.length_nil, Nat.zero_add] at hle
    exact List.length_eq_zero_iff.mp (by omega)

omit hkeys in
/-- Only nodes below a root are put on the stack. -/
theorem rooted_of_walk :
    ∀ x ∈ (walk expand n [] s).1 ++ (walk expand n [] s).2, Rooted nodes key parent (node x) := by
  refine @walk_inv _ expand (fun v s => ∀ x ∈ v ++ s, Rooted nodes key parent (node x))
    (fun v x s h y hy => ?_) n [] s fun y hy => ?_
  · have hx : Rooted nodes key parent (node x) := h x (by simp)
    simp only [List.mem_append, List.mem_singleton] at hy
    rcases hy with (hy | rfl) | hy | hy
    · exact h y (List.mem_append_left _ hy)
    · exact hx
    · have hchild : node y ∈ (expand x).map node := List.mem_map_of_mem hy
      rw [hexpand x hx.mem, List.mem_filter, decide_eq_true_eq] at hchild
      exact .child hchild.1 hchild.2 hx
    · exact h y (by simp [hy])
  · have hroot : node y ∈ s.map node := List.mem_map_of_mem hy
    rw [hroots, List.mem_filter, decide_eq_true_eq] at hroot
    exact .root hroot.1 hroot.2

/-- **What the loop visits**: the nodes whose parents lead to a root, each once. -/
theorem mem_walk_iff (hn : nodes.length ≤ n) :
    ((walk expand n [] s).1.map node).Nodup ∧
      ∀ y, y ∈ (walk expand n [] s).1.map node ↔ Rooted nodes key parent y := by
  have hexplored := explored_walk (n := n) hkeys hexpand hroots
  have hrooted := rooted_of_walk (n := n) hexpand hroots
  rw [walk_ends hkeys hexpand hroots hn] at hexplored hrooted
  rw [List.append_nil] at hrooted
  obtain ⟨hnodup, hmem⟩ := hexplored
  rw [List.append_nil] at hnodup hmem
  refine ⟨hnodup, fun y => ⟨fun hy => ?_, fun hy => ?_⟩⟩
  · obtain ⟨x, hx, rfl⟩ := List.mem_map.mp hy
    exact hrooted x hx
  · induction hy with
    | root mem top => exact (hmem _).mpr ⟨mem, Or.inl top⟩
    | child mem link above ih =>
      obtain ⟨x, hx, rfl⟩ := List.mem_map.mp ih
      exact (hmem _).mpr ⟨mem, Or.inr ⟨x, hx, link⟩⟩

end

end

end Infra
