import Logryph.Infra.GoJsonRoundtrip

/-!
# Maps without nesting

A map whose values are strings, integers and times is read back with the same keys. Each value is
read as a string or as a number.

* `exists_readsAs_flat` — such a map can be read if it can be written
* `get?_of_readsAs` — what stands under a key, before and after
-/

namespace Infra

/-- A string, an integer of 64 bits or a time. -/
def Value.Flat : Value → Prop
  | .string _ => True
  | .uint64 n => n < 2 ^ 64
  | .time _ => True
  | _ => False

theorem Value.Flat.decode {v : Value} (h : v.Flat) {j : Json} (htree : v.tree = some j) :
    ∃ w, j.decode = some w ∧ j.depth ≤ 0 := by
  cases v with
  | string s =>
    cases htree
    exact ⟨_, rfl, le_refl _⟩
  | uint64 n =>
    cases htree
    obtain ⟨x, hx⟩ := Float64.exists_ofRat?_natCast h
    refine ⟨.float64 x, ?_, le_refl _⟩
    rw [Json.decode, Decimal.toRat_ofNat, hx]
    rfl
  | time t =>
    rw [Value.tree] at htree
    split at htree
    · cases htree
      exact ⟨_, rfl, le_refl _⟩
    · cases htree
  | _ => cases h

/-- The members of a map that is written are written. -/
theorem tree_of_marshal {ms : List (Bytes × Value)} {text : Bytes}
    (h : marshal (.map ms) = some text) : ∀ m ∈ ms, ∃ j, m.2.tree = some j := by
  intro m hm
  rw [marshal, Option.map_eq_some_iff] at h
  obtain ⟨j, htree, -⟩ := h
  rw [Value.tree, Option.map_eq_some_iff] at htree
  obtain ⟨qs, hqs, -⟩ := htree
  obtain ⟨q, -, -, hq⟩ := mem_of_forall₂_right (forall₂_treeMembers.mp hqs).flip hm
  exact ⟨q.2, hq⟩

/-- A map without nesting can be read. -/
theorem exists_readsAs_flat {ms : List (Bytes × Value)} {text : Bytes}
    (h : marshal (.map ms) = some text) (hflat : ∀ m ∈ ms, m.2.Flat) :
    ∃ w, ReadsAs (.map ms) w := by
  refine exists_readsAs_map (n := 0) (by decide) fun m hm => ?_
  obtain ⟨j, hj⟩ := tree_of_marshal h m hm
  obtain ⟨w, hw, hdepth⟩ := (hflat m hm).decode hj
  exact ⟨j, w, hj, hw, hdepth⟩

/-- A map is read as a map. -/
theorem exists_map_of_readsAs {ms : List (Bytes × Value)} {w : Value} (h : ReadsAs (.map ms) w) :
    ∃ ws, w = .map ws := by
  obtain ⟨j, htree, hdec, hlt⟩ := h
  exact exists_map_of_roundTrip (roundTrip_eq_some.mpr ⟨j, htree, hlt.le, hdec⟩)

/-- **What stands under a key**, when the map is written and read. -/
theorem get?_of_readsAs {m m' : SortedMap Bytes Value} (hk : ∀ p ∈ m.entries, ValidUtf8 p.1)
    (h : ReadsAs (.map m.entries) (.map m'.entries)) (k : Bytes) :
    m.get? k = none ∧ m'.get? k = none ∨
      ∃ v w, m.get? k = some v ∧ m'.get? k = some w ∧ ReadsAs v w := by
  have hnf : roundTrip (.map m.entries) = some (.map m'.entries) := by
    obtain ⟨j, htree, hdec, hlt⟩ := h
    exact roundTrip_eq_some.mpr ⟨j, htree, hlt.le, hdec⟩
  obtain ⟨ws, hws, hall⟩ := (roundTrip_map m.sorted hk).mp hnf
  cases hws
  unfold SortedMap.get?
  generalize m.entries = ms at hall
  generalize m'.entries = ws at hall
  induction hall with
  | nil => exact Or.inl ⟨rfl, rfl⟩
  | @cons p q ps qs hpq _ ih =>
    rw [mapGet, mapGet, ← hpq.1]
    split
    · exact Or.inr ⟨p.2, q.2, rfl, rfl, hpq.2⟩
    · exact ih

end Infra
