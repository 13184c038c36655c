import Mathlib.Data.List.Sort

/-!
# Maps with sorted keys

A finite map is its list of entries in strictly increasing key order, so that two maps with
the same entries are the same list. The list operations come first; `SortedMap` is the list
together with the proof that its keys are sorted.

* `mapOf_of_sorted` — building a map from the entries of a map gives it back
* `mapOf_of_perm` — and so does building it from the same entries in any other order
* `mapGet_mapInsert` — lookup after an update
-/

namespace Infra

variable {κ β γ : Type} [LinearOrder κ]

/-! ## On lists of entries -/

/-- Sets `k` to `v`. -/
def mapInsert (k : κ) (v : β) : List (κ × β) → List (κ × β)
  | [] => [(k, v)]
  | p :: m =>
    if k < p.1 then (k, v) :: p :: m
    else if k = p.1 then (k, v) :: m
    else p :: mapInsert k v m

/-- The value of `k`. -/
def mapGet (k : κ) : List (κ × β) → Option β
  | [] => none
  | p :: m => if k = p.1 then some p.2 else mapGet k m

/-- The entries inserted one after the other: of two entries with one key the later stays. -/
def mapOf (l : List (κ × β)) : List (κ × β) := l.foldl (fun m p => mapInsert p.1 p.2 m) []

/-- The keys are strictly increasing. -/
def SortedKeys (m : List (κ × β)) : Prop := m.Pairwise fun p q => p.1 < q.1

instance (m : List (κ × β)) : Decidable (SortedKeys m) :=
  inferInstanceAs (Decidable (m.Pairwise _))

theorem mem_mapInsert {k : κ} {v : β} {q : κ × β} : ∀ {m : List (κ × β)},
    q ∈ mapInsert k v m → q = (k, v) ∨ q ∈ m
  | [], h => by simpa [mapInsert] using h
  | p :: m, h => by
    rw [mapInsert] at h
    split at h
    · exact List.mem_cons.mp h
    · split at h
      · exact (List.mem_cons.mp h).imp id (List.mem_cons_of_mem p)
      · rcases List.mem_cons.mp h with h | h
        · exact Or.inr (by simp [h])
        · exact (mem_mapInsert h).imp id (List.mem_cons_of_mem p)

theorem sortedKeys_mapInsert (k : κ) (v : β) : ∀ {m : List (κ × β)}, SortedKeys m →
    SortedKeys (mapInsert k v m)
  | [], _ => by simp [mapInsert, SortedKeys]
  | p :: m, h => by
    obtain ⟨hp, hm⟩ := List.pairwise_cons.mp h
    rw [mapInsert]
    split
    · next hlt =>
      refine List.pairwise_cons.mpr ⟨?_, h⟩
      intro q hq
      rcases List.mem_cons.mp hq with rfl | hq
      · exact hlt
      · exact hlt.trans (hp q hq)
    · next hnlt =>
      split
      · next heq =>
        refine List.pairwise_cons.mpr ⟨?_, hm⟩
        intro q hq
        exact heq ▸ hp q hq
      · next hne =>
        refine List.pairwise_cons.mpr ⟨?_, sortedKeys_mapInsert k v hm⟩
        intro q hq
        rcases mem_mapInsert hq with rfl | hq
        · exact lt_of_le_of_ne (not_lt.mp hnlt) (Ne.symm hne)
        · exact hp q hq

theorem sortedKeys_foldl : ∀ (l m : List (κ × β)), SortedKeys m →
    SortedKeys (l.foldl (fun m p => mapInsert p.1 p.2 m) m)
  | [], _, h => h
  | p :: l, _, h => sortedKeys_foldl l _ (sortedKeys_mapInsert p.1 p.2 h)

theorem sortedKeys_mapOf (l : List (κ × β)) : SortedKeys (mapOf l) :=
  sortedKeys_foldl l [] List.Pairwise.nil

/-! ## Lookup -/

theorem mem_foldl_mapInsert {q : κ × β} : ∀ l m : List (κ × β),
    q ∈ l.foldl (fun m p => mapInsert p.1 p.2 m) m → q ∈ m ∨ q ∈ l
  | [], _, h => Or.inl h
  | p :: l, m, h => by
    rcases mem_foldl_mapInsert l (mapInsert p.1 p.2 m) h with h | h
    · rcases mem_mapInsert h with rfl | h
      · exact Or.inr List.mem_cons_self
      · exact Or.inl h
    · exact Or.inr (List.mem_cons_of_mem _ h)

theorem mem_of_mem_mapOf {q : κ × β} {l : List (κ × β)} (h : q ∈ mapOf l) : q ∈ l :=
  (mem_foldl_mapInsert l [] h).resolve_left List.not_mem_nil

theorem sortedKeys_iff_keys {m : List (κ × β)} :
    SortedKeys m ↔ (m.map Prod.fst).Pairwise (· < ·) := List.pairwise_map.symm

/-- Lists with the same keys are sorted alike. -/
theorem sortedKeys_of_forall₂ {a : List (κ × β)} {b : List (κ × γ)}
    (h : List.Forall₂ (fun p q => p.1 = q.1) a b) (ha : SortedKeys a) : SortedKeys b := by
  have hkeys : a.map Prod.fst = b.map Prod.fst := by
    induction h with
    | nil => rfl
    | cons hpq _ ih => rw [List.map_cons, List.map_cons, hpq, ih (List.pairwise_cons.mp ha).2]
  rw [sortedKeys_iff_keys, ← hkeys, ← sortedKeys_iff_keys]
  exact ha

theorem mapGet_mapInsert (k k' : κ) (v : β) : ∀ m : List (κ × β),
    mapGet k' (mapInsert k v m) = if k' = k then some v else mapGet k' m
  | [] => rfl
  | p :: m => by
    rw [mapInsert]
    split
    · rfl
    · split
      · next heq => simp only [mapGet, heq]; split <;> rfl
      · next hne =>
        simp only [mapGet, mapGet_mapInsert k k' v m]
        by_cases hp : k' = p.1
        · rw [if_pos hp, if_pos hp, if_neg (fun h : k' = k => hne (h.symm.trans hp))]
        · rw [if_neg hp, if_neg hp]

theorem mapGet_filter_ne (k k' : κ) : ∀ m : List (κ × β),
    mapGet k' (m.filter fun p => p.1 ≠ k) = if k' = k then none else mapGet k' m
  | [] => by simp [mapGet]
  | p :: m => by
    by_cases hp : p.1 = k
    · rw [List.filter_cons_of_neg (by simpa using hp), mapGet_filter_ne k k' m]
      by_cases hk : k' = k
      · rw [if_pos hk, if_pos hk]
      · rw [if_neg hk, if_neg hk, mapGet, if_neg (fun h => hk (h.trans hp))]
    · rw [List.filter_cons_of_pos (by simpa using hp), mapGet, mapGet, mapGet_filter_ne k k' m]
      by_cases hk' : k' = p.1
      · rw [if_pos hk', if_pos hk', if_neg (fun h => hp (hk'.symm.trans h))]
      · rw [if_neg hk', if_neg hk']

theorem mem_of_mapGet {k : κ} {v : β} : ∀ {m : List (κ × β)}, mapGet k m = some v → (k, v) ∈ m
  | [], h => by simp [mapGet] at h
  | p :: m, h => by
    rw [mapGet] at h
    split at h
    · next heq =>
      rw [heq, ← Option.some.inj h]
      exact List.mem_cons_self
    · exact List.mem_cons_of_mem p (mem_of_mapGet h)

theorem mapGet_of_mem {k : κ} {v : β} : ∀ {m : List (κ × β)}, SortedKeys m → (k, v) ∈ m →
    mapGet k m = some v
  | p :: m, h, hmem => by
    obtain ⟨hp, hm⟩ := List.pairwise_cons.mp h
    rw [mapGet]
    rcases List.mem_cons.mp hmem with rfl | hmem
    · rw [if_pos rfl]
    · rw [if_neg (hp _ hmem).ne']
      exact mapGet_of_mem hm hmem

theorem mapGet_mapKey (f : κ → β → γ) (k : κ) : ∀ m : List (κ × β),
    mapGet k (m.map fun p => (p.1, f p.1 p.2)) = (mapGet k m).map (f k)
  | [] => rfl
  | p :: m => by
    simp only [List.map_cons, mapGet, mapGet_mapKey f k m]
    split
    · next heq => rw [heq]; rfl
    · rfl

/-- **Two maps that agree on every key are the same list.** -/
theorem eq_of_mapGet {a b : List (κ × β)} (ha : SortedKeys a) (hb : SortedKeys b)
    (h : ∀ k, mapGet k a = mapGet k b) : a = b := by
  refine List.Perm.eq_of_pairwise ?_ ha hb ?_
  · intro p q _ _ hpq hqp
    exact absurd hpq hqp.asymm
  · have hnd : ∀ {m : List (κ × β)}, SortedKeys m → m.Nodup :=
      fun hm => hm.imp fun hlt he => hlt.ne (by rw [he])
    refine (List.perm_ext_iff_of_nodup (hnd ha) (hnd hb)).mpr ?_
    rintro ⟨k, v⟩
    constructor
    · intro hmem
      exact mem_of_mapGet (by rw [← h, mapGet_of_mem ha hmem])
    · intro hmem
      exact mem_of_mapGet (by rw [h, mapGet_of_mem hb hmem])

/-! ## Building a map -/

/-- A key above all others goes to the end. -/
theorem mapInsert_of_lt {k : κ} {v : β} : ∀ {m : List (κ × β)}, (∀ p ∈ m, p.1 < k) →
    mapInsert k v m = m ++ [(k, v)]
  | [], _ => rfl
  | p :: m, h => by
    have hp := h p List.mem_cons_self
    rw [mapInsert, if_neg hp.asymm, if_neg hp.ne',
      mapInsert_of_lt fun q hq => h q (List.mem_cons_of_mem p hq)]
    rfl

theorem foldl_mapInsert_of_sorted : ∀ (l m : List (κ × β)), SortedKeys (m ++ l) →
    l.foldl (fun m p => mapInsert p.1 p.2 m) m = m ++ l
  | [], m, _ => by simp
  | p :: l, m, h => by
    have hlt : ∀ q ∈ m, q.1 < p.1 := fun q hq =>
      (List.pairwise_append.mp h).2.2 q hq p List.mem_cons_self
    rw [List.foldl_cons, mapInsert_of_lt hlt, foldl_mapInsert_of_sorted l _ (by simpa using h)]
    simp

/-- **Building a map from its own entries gives it back.** -/
theorem mapOf_of_sorted {l : List (κ × β)} (h : SortedKeys l) : mapOf l = l := by
  have := foldl_mapInsert_of_sorted l [] (by simpa using h)
  simpa [mapOf] using this

/-- With no repeated key, insertion only adds an entry. -/
theorem mapInsert_perm {k : κ} {v : β} : ∀ {m : List (κ × β)}, (∀ p ∈ m, p.1 ≠ k) →
    (mapInsert k v m).Perm ((k, v) :: m)
  | [], _ => List.Perm.refl _
  | p :: m, h => by
    rw [mapInsert]
    split
    · exact List.Perm.refl _
    · rw [if_neg (h p List.mem_cons_self).symm]
      exact ((mapInsert_perm fun q hq => h q (List.mem_cons_of_mem p hq)).cons p).trans
        (List.Perm.swap _ _ _)

theorem foldl_mapInsert_perm : ∀ (l m : List (κ × β)), ((m ++ l).map Prod.fst).Nodup →
    (l.foldl (fun m p => mapInsert p.1 p.2 m) m).Perm (m ++ l)
  | [], m, _ => by simp
  | p :: l, m, h => by
    have hperm : (mapInsert p.1 p.2 m).Perm (p :: m) := by
      refine mapInsert_perm fun q hq heq => ?_
      rw [List.map_append, List.nodup_append] at h
      exact h.2.2 q.1 (List.mem_map_of_mem hq) p.1 (by simp) heq
    have hall : (mapInsert p.1 p.2 m ++ l).Perm (m ++ p :: l) :=
      (hperm.append_right l).trans List.perm_middle.symm
    rw [List.foldl_cons]
    exact (foldl_mapInsert_perm l _ ((hall.map Prod.fst).nodup_iff.mpr h)).trans hall

/-- **The order of the entries does not matter.** -/
theorem mapOf_of_perm {l l' : List (κ × β)} (h : SortedKeys l) (hp : l'.Perm l) : mapOf l' = l := by
  have hnd : (l.map Prod.fst).Nodup := by
    rw [List.Nodup, List.pairwise_map]
    exact h.imp fun hlt => hlt.ne
  have hperm : (mapOf l').Perm l' := by
    have := foldl_mapInsert_perm l' [] (by simpa using (hp.map Prod.fst).nodup_iff.mpr hnd)
    simpa [mapOf] using this
  refine List.Perm.eq_of_pairwise ?_ (sortedKeys_mapOf l') h (hperm.trans hp)
  intro p q _ _ hpq hqp
  exact absurd hpq hqp.asymm

theorem sortedKeys_mapKey (f : κ → β → γ) {m : List (κ × β)} (h : SortedKeys m) :
    SortedKeys (m.map fun p => (p.1, f p.1 p.2)) := by
  unfold SortedKeys
  rw [List.pairwise_map]
  exact h

theorem sortedKeys_map (f : β → γ) {m : List (κ × β)} (h : SortedKeys m) :
    SortedKeys (m.map fun p => (p.1, f p.2)) := sortedKeys_mapKey (fun _ => f) h

theorem mapOf_concat (l : List (κ × β)) (p : κ × β) :
    mapOf (l ++ [p]) = mapInsert p.1 p.2 (mapOf l) := by
  simp [mapOf]

/-! ## Related maps -/

section

variable {R : β → γ → Prop}

theorem forall₂_mapInsert {k : κ} {v : β} {w : γ} (hvw : R v w) :
    ∀ {a : List (κ × β)} {b : List (κ × γ)},
      List.Forall₂ (fun p q => p.1 = q.1 ∧ R p.2 q.2) a b →
      List.Forall₂ (fun p q => p.1 = q.1 ∧ R p.2 q.2) (mapInsert k v a) (mapInsert k w b)
  | _, _, .nil => .cons ⟨rfl, hvw⟩ .nil
  | p :: _, q :: _, .cons hpq h => by
    simp only [mapInsert, ← hpq.1]
    split
    · exact .cons ⟨rfl, hvw⟩ (.cons hpq h)
    · split
      · exact .cons ⟨rfl, hvw⟩ h
      · exact .cons hpq (forall₂_mapInsert hvw h)

/-- **Maps that are built from related entries are related.** -/
theorem forall₂_mapOf {l : List (κ × β)} {l' : List (κ × γ)}
    (h : List.Forall₂ (fun p q => p.1 = q.1 ∧ R p.2 q.2) l l') :
    List.Forall₂ (fun p q => p.1 = q.1 ∧ R p.2 q.2) (mapOf l) (mapOf l') := by
  have hfold : ∀ {l : List (κ × β)} {l' : List (κ × γ)},
      List.Forall₂ (fun p q => p.1 = q.1 ∧ R p.2 q.2) l l' →
      ∀ {a : List (κ × β)} {b : List (κ × γ)},
        List.Forall₂ (fun p q => p.1 = q.1 ∧ R p.2 q.2) a b →
        List.Forall₂ (fun p q => p.1 = q.1 ∧ R p.2 q.2)
          (l.foldl (fun m p => mapInsert p.1 p.2 m) a)
          (l'.foldl (fun m p => mapInsert p.1 p.2 m) b) := by
    intro l l' hl
    induction hl with
    | nil => exact fun hab => hab
    | cons hpq _ ih =>
      intro a b hab
      rw [List.foldl_cons, List.foldl_cons, ← hpq.1]
      exact ih (forall₂_mapInsert hpq.2 hab)
  exact hfold h .nil

end

/-! ## The bundled map -/

/-- A finite map: its entries in key order. -/
structure SortedMap (κ β : Type) [LinearOrder κ] where
  entries : List (κ × β)
  sorted : SortedKeys entries

namespace SortedMap

def empty : SortedMap κ β := ⟨[], List.Pairwise.nil⟩

def ofList (l : List (κ × β)) : SortedMap κ β := ⟨mapOf l, sortedKeys_mapOf l⟩

def get? (m : SortedMap κ β) (k : κ) : Option β := mapGet k m.entries

def insert (m : SortedMap κ β) (k : κ) (v : β) : SortedMap κ β :=
  ⟨mapInsert k v m.entries, sortedKeys_mapInsert k v m.sorted⟩

def erase (m : SortedMap κ β) (k : κ) : SortedMap κ β :=
  ⟨m.entries.filter fun p => p.1 ≠ k, m.sorted.sublist List.filter_sublist⟩

def size (m : SortedMap κ β) : Nat := m.entries.length

theorem ext_entries {a b : SortedMap κ β} (h : a.entries = b.entries) : a = b := by
  cases a; cases b; simp only at h; subst h; rfl

theorem ext_get? {a b : SortedMap κ β} (h : ∀ k, a.get? k = b.get? k) : a = b :=
  ext_entries (eq_of_mapGet a.sorted b.sorted h)

theorem entries_erase_head {m : SortedMap κ β} {k : κ} {v : β} {rest : List (κ × β)}
    (h : m.entries = (k, v) :: rest) : (m.erase k).entries = rest := by
  have hs := m.sorted
  rw [h] at hs
  have hlt := (List.pairwise_cons.mp hs).1
  unfold erase
  dsimp only
  rw [h, List.filter_cons_of_neg (by simp), List.filter_eq_self]
  intro p hp
  simpa using (hlt p hp).ne'

@[simp] theorem get?_empty (k : κ) : (empty : SortedMap κ β).get? k = none := rfl

@[simp] theorem get?_insert (m : SortedMap κ β) (k k' : κ) (v : β) :
    (m.insert k v).get? k' = if k' = k then some v else m.get? k' := mapGet_mapInsert k k' v _

@[simp] theorem get?_erase (m : SortedMap κ β) (k k' : κ) :
    (m.erase k).get? k' = if k' = k then none else m.get? k' := mapGet_filter_ne k k' _

end SortedMap

end Infra
