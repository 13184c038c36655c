import Mathlib.Data.List.Induction
import Mathlib.Data.Set.Card
import Logryph.Infra.SortedMap

/-!
# Histories

Lists that grow at their end: a log of rows, or the values that keys were given one after the
other. A map that is updated along with the list can say for every key what its latest value is,
and leave out the keys whose latest value is of no interest any more.

* `isLatest_concat` — the latest value of a key after one more entry
* `opened_iff` — a key was given a value of interest, and none of another kind since
* `Mirrors` — a map with the latest values of interest, and how it is updated
* `mapGet_mapOf_iff` — lookup in a map that is built from entries
* `ncard_latest` — the number of the keys whose latest value is of a kind
* `adjacent_concat` — a property of neighbours, after one more element
-/

namespace Infra

section

variable {κ σ : Type}

/-- The last value that the key was given. -/
def IsLatest (l : List (κ × σ)) (k : κ) (v : σ) : Prop :=
  ∃ before after, l = before ++ (k, v) :: after ∧ ∀ w, (k, w) ∉ after

/-- The key was given a value with the property, and since then no value without it. -/
def Opened (P : σ → Prop) (l : List (κ × σ)) (k : κ) : Prop :=
  ∃ before v after, l = before ++ (k, v) :: after ∧ P v ∧ ∀ w, (k, w) ∈ after → P w

theorem not_isLatest_nil {k : κ} {v : σ} : ¬ IsLatest [] k v := by
  rintro ⟨before, after, h, -⟩
  simp at h

theorem isLatest_concat {l : List (κ × σ)} {k k' : κ} {v v' : σ} :
    IsLatest (l ++ [(k', v')]) k v ↔ k' = k ∧ v' = v ∨ k' ≠ k ∧ IsLatest l k v := by
  constructor
  · rintro ⟨before, after, h, hnone⟩
    rcases List.eq_nil_or_concat after with rfl | ⟨after, p, rfl⟩
    · obtain ⟨-, heq⟩ := List.append_inj' h rfl
      cases heq
      exact Or.inl ⟨rfl, rfl⟩
    · rw [List.concat_eq_append, ← List.cons_append, ← List.append_assoc] at h
      obtain ⟨hl, heq⟩ := List.append_inj' h rfl
      cases heq
      refine Or.inr ⟨?_, before, after, hl, fun w hw => hnone w (by simp [hw])⟩
      rintro rfl
      exact hnone v' (by simp)
  · rintro (⟨rfl, rfl⟩ | ⟨hne, before, after, rfl, hnone⟩)
    · exact ⟨l, [], rfl, fun w => List.not_mem_nil⟩
    · refine ⟨before, after ++ [(k', v')], by simp, ?_⟩
      intro w hw
      rcases List.mem_append.mp hw with hw | hw
      · exact hnone w hw
      · exact hne (Prod.mk.inj (List.mem_singleton.mp hw)).1.symm

theorem IsLatest.mem {l : List (κ × σ)} {k : κ} {v : σ} (h : IsLatest l k v) : (k, v) ∈ l := by
  obtain ⟨before, after, rfl, -⟩ := h
  simp

theorem IsLatest.unique {l : List (κ × σ)} {k : κ} {v w : σ} (hv : IsLatest l k v)
    (hw : IsLatest l k w) : v = w := by
  induction l using List.reverseRecOn with
  | nil => exact absurd hv not_isLatest_nil
  | append_singleton l p ih =>
    obtain ⟨k', v'⟩ := p
    rcases isLatest_concat.mp hv with ⟨hk, rfl⟩ | ⟨hne, hv⟩
    · rcases isLatest_concat.mp hw with ⟨-, rfl⟩ | ⟨hne, -⟩
      · rfl
      · exact absurd hk hne
    · rcases isLatest_concat.mp hw with ⟨hk, -⟩ | ⟨-, hw⟩
      · exact absurd hk hne
      · exact ih hv hw

/-- A key that was given a value has a latest one. -/
theorem exists_isLatest {l : List (κ × σ)} {k : κ} : (∃ v, IsLatest l k v) ↔ ∃ v, (k, v) ∈ l := by
  constructor
  · rintro ⟨v, h⟩
    exact ⟨v, h.mem⟩
  · induction l using List.reverseRecOn with
    | nil => simp
    | append_singleton l p ih =>
      obtain ⟨k', v'⟩ := p
      rintro ⟨v, hv⟩
      by_cases hk : k' = k
      · exact ⟨v', isLatest_concat.mpr (Or.inl ⟨hk, rfl⟩)⟩
      · have hmem : (k, v) ∈ l := by simpa [Ne.symm hk] using hv
        obtain ⟨w, hw⟩ := ih ⟨v, hmem⟩
        exact ⟨w, isLatest_concat.mpr (Or.inr ⟨hk, hw⟩)⟩

theorem not_opened_nil {P : σ → Prop} {k : κ} : ¬ Opened P [] k := by
  rintro ⟨before, v, after, h, -⟩
  simp at h

theorem opened_concat {P : σ → Prop} {l : List (κ × σ)} {k k' : κ} {v : σ} :
    Opened P (l ++ [(k', v)]) k ↔ k' = k ∧ P v ∨ k' ≠ k ∧ Opened P l k := by
  by_cases hk : k' = k
  · subst hk
    constructor
    · rintro ⟨before, w, after, h, hw, hall⟩
      rcases List.eq_nil_or_concat after with rfl | ⟨after, p, rfl⟩
      · obtain ⟨-, heq⟩ := List.append_inj' h rfl
        cases heq
        exact Or.inl ⟨rfl, hw⟩
      · rw [List.concat_eq_append, ← List.cons_append, ← List.append_assoc] at h
        obtain ⟨-, heq⟩ := List.append_inj' h rfl
        cases heq
        exact Or.inl ⟨rfl, hall v (by simp)⟩
    · rintro (⟨-, hv⟩ | ⟨hne, -⟩)
      · exact ⟨l, v, [], rfl, hv, fun w hw => absurd hw List.not_mem_nil⟩
      · exact absurd rfl hne
  · constructor
    · rintro ⟨before, w, after, h, hw, hall⟩
      rcases List.eq_nil_or_concat after with rfl | ⟨after, p, rfl⟩
      · obtain ⟨-, heq⟩ := List.append_inj' h rfl
        cases heq
        exact absurd rfl hk
      · rw [List.concat_eq_append, ← List.cons_append, ← List.append_assoc] at h
        obtain ⟨hl, -⟩ := List.append_inj' h rfl
        exact Or.inr ⟨hk, before, w, after, hl, hw, fun u hu => hall u (by simp [hu])⟩
    · rintro (⟨heq, -⟩ | ⟨-, before, w, after, rfl, hw, hall⟩)
      · exact absurd heq hk
      · refine ⟨before, w, after ++ [(k', v)], by simp, hw, ?_⟩
        intro u hu
        rcases List.mem_append.mp hu with hu | hu
        · exact hall u hu
        · exact absurd (Prod.mk.inj (List.mem_singleton.mp hu)).1.symm hk

/-- A key is open exactly when its latest value has the property. -/
theorem opened_iff {P : σ → Prop} {l : List (κ × σ)} {k : κ} :
    Opened P l k ↔ ∃ v, IsLatest l k v ∧ P v := by
  induction l using List.reverseRecOn with
  | nil => exact iff_of_false not_opened_nil fun ⟨_, h, _⟩ => not_isLatest_nil h
  | append_singleton l p ih =>
    obtain ⟨k', v'⟩ := p
    simp only [opened_concat, isLatest_concat, ih]
    by_cases hk : k' = k
    · simp [hk]
    · simp [hk]

end

/-! ## A map that follows a history -/

section

variable {κ σ : Type} [LinearOrder κ]

/-- The map has the keys whose latest value has the property, with that value. -/
def Mirrors (P : σ → Prop) (m : SortedMap κ σ) (l : List (κ × σ)) : Prop :=
  ∀ k v, m.get? k = some v ↔ IsLatest l k v ∧ P v

variable {P : σ → Prop} {m : SortedMap κ σ} {l : List (κ × σ)} {k : κ} {v : σ}

theorem Mirrors.empty : Mirrors P (SortedMap.empty : SortedMap κ σ) [] := by
  intro k v
  simp [not_isLatest_nil]

theorem Mirrors.insert (h : Mirrors P m l) (hv : P v) :
    Mirrors P (m.insert k v) (l ++ [(k, v)]) := by
  intro k' v'
  rw [SortedMap.get?_insert, isLatest_concat]
  by_cases hk : k' = k
  · subst hk
    simp only [if_true, Option.some.injEq, true_and, ne_eq, not_true_eq_false, false_and, or_false]
    exact ⟨fun heq => ⟨heq, heq ▸ hv⟩, fun heq => heq.1⟩
  · rw [if_neg hk, h k' v']
    simp [Ne.symm hk]

theorem Mirrors.erase (h : Mirrors P m l) (hv : ¬ P v) :
    Mirrors P (m.erase k) (l ++ [(k, v)]) := by
  intro k' v'
  rw [SortedMap.get?_erase, isLatest_concat]
  by_cases hk : k' = k
  · subst hk
    simp only [if_true, reduceCtorEq, true_and, ne_eq, not_true_eq_false, false_and, or_false,
      false_iff, not_and]
    exact fun heq hv' => hv (heq ▸ hv')
  · rw [if_neg hk, h k' v']
    simp [Ne.symm hk]

/-- **A map that is built from entries has the latest value of every key.** -/
theorem mapGet_mapOf_iff : mapGet k (mapOf l) = some v ↔ IsLatest l k v := by
  induction l using List.reverseRecOn with
  | nil => exact iff_of_false (by simp [mapOf, mapGet]) not_isLatest_nil
  | append_singleton l p ih =>
    obtain ⟨k', v'⟩ := p
    rw [mapOf_concat, mapGet_mapInsert, isLatest_concat]
    by_cases hk : k = k'
    · simp [hk]
    · rw [if_neg hk, ih]
      simp [Ne.symm hk]

/-- Entries that are inserted into a map hide what it had under their keys. -/
theorem get?_foldl_insert (m : SortedMap κ σ) (k : κ) :
    (l.foldl (fun m p => m.insert p.1 p.2) m).get? k = (mapGet k (mapOf l)).or (m.get? k) := by
  induction l using List.reverseRecOn with
  | nil => simp [mapOf, mapGet]
  | append_singleton l p ih =>
    rw [List.foldl_append, List.foldl_cons, List.foldl_nil, SortedMap.get?_insert, mapOf_concat,
      mapGet_mapInsert, ih]
    by_cases hk : k = p.1
    · simp [hk]
    · simp [hk]

/-- A key that is not in the map needs no update. -/
theorem Mirrors.skip (h : Mirrors P m l) (hv : ¬ P v) (hk : m.get? k = none) :
    Mirrors P m (l ++ [(k, v)]) := by
  have herase : m.erase k = m := by
    refine SortedMap.ext_get? fun k' => ?_
    rw [SortedMap.get?_erase]
    split
    · next heq => rw [heq, hk]
    · rfl
  rw [← herase]
  exact h.erase hv

/-- A map that leaves no key out is built from the entries of the history. -/
theorem Mirrors.entries_eq (h : Mirrors (fun _ => True) m l) : m.entries = mapOf l := by
  refine eq_of_mapGet m.sorted (sortedKeys_mapOf l) fun k => Option.ext fun v => ?_
  show m.get? k = some v ↔ _
  rw [h k v, mapGet_mapOf_iff, and_iff_left trivial]

/-- **The keys whose latest value is of a kind** are counted among the entries of the map. -/
theorem ncard_latest (P : σ → Bool) (l : List (κ × σ)) :
    {k | ∃ v, IsLatest l k v ∧ P v = true}.ncard = ((mapOf l).filter fun p => P p.2).length := by
  have hset : {k | ∃ v, IsLatest l k v ∧ P v = true}
      = ((((mapOf l).filter fun p => P p.2).map Prod.fst).toFinset : Set κ) := by
    ext k
    simp only [Set.mem_ofPred_eq, List.coe_toFinset, List.mem_map, List.mem_filter, Prod.exists,
      exists_and_right, exists_eq_right, ← mapGet_mapOf_iff]
    refine exists_congr fun v => and_congr_left fun _ => ⟨mem_of_mapGet, ?_⟩
    exact mapGet_of_mem (sortedKeys_mapOf l)
  have hnodup : (((mapOf l).filter fun p => P p.2).map Prod.fst).Nodup := by
    rw [List.Nodup, List.pairwise_map]
    exact ((sortedKeys_mapOf l).sublist List.filter_sublist).imp fun h => h.ne
  rw [hset, Set.ncard_coe_finset, List.toFinset_card_of_nodup hnodup, List.length_map]

theorem Mirrors.isSome_iff (h : Mirrors P m l) : (m.get? k).isSome = true ↔ Opened P l k := by
  rw [opened_iff, Option.isSome_iff_exists]
  exact exists_congr fun v => h k v

end

/-! ## Neighbours -/

section

variable {α : Type}

/-- Any two neighbours are related, given what comes before them. -/
def Adjacent (R : List α → α → α → Prop) (l : List α) : Prop :=
  ∀ before x y after, l = before ++ x :: y :: after → R before x y

theorem Adjacent.nil {R : List α → α → α → Prop} : Adjacent R [] := by
  intro before x y after h
  simp at h

theorem adjacent_concat {R : List α → α → α → Prop} {l : List α} {y : α} :
    Adjacent R (l ++ [y]) ↔ Adjacent R l ∧ ∀ before x, l = before ++ [x] → R before x y := by
  constructor
  · intro h
    refine ⟨fun before x y' after hl => h before x y' (after ++ [y]) (by simp [hl]), ?_⟩
    exact fun before x hl => h before x y [] (by simp [hl])
  · rintro ⟨hadj, hlast⟩ before x y' after h
    rcases List.eq_nil_or_concat after with rfl | ⟨after, z, rfl⟩
    · have h' : l ++ [y] = (before ++ [x]) ++ [y'] := by simpa using h
      obtain ⟨hl, heq⟩ := List.append_inj' h' rfl
      cases heq
      exact hlast before x hl
    · have h' : l ++ [y] = (before ++ x :: y' :: after) ++ [z] := by simpa using h
      exact hadj before x y' after (List.append_inj' h' rfl).1

end

end Infra
