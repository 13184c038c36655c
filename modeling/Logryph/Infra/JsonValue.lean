import Logryph.Infra.GoJsonRoundtrip

/-!
# What a JSON text says

The value of a JSON text, as opposed to its syntax and to the dynamic value that a program reads it
into: numbers are exact, with one zero, and an object is a map from names to values, in which the
last of several members with one name counts.

* `Json.value` — the value of a syntax tree
* `JsonValue.rounded` — its numbers as `float64` holds them
* `value_of_tree` — a value that is read and written again has its numbers rounded, and is the same
  otherwise
* `exists_decode_iff` — which texts can be read
* `plainZeros_eq_iff` — which texts are read as the same value, up to the sign of zeros
-/

namespace Infra

/-- The value of a JSON text. The members of an object are sorted by their names. -/
inductive JsonValue where
  | null
  | bool (b : Bool)
  | num (d : Decimal)
  | str (s : List Char)
  | arr (xs : List JsonValue)
  | obj (ms : List (Bytes × JsonValue))

/-- The shortest decimal of the nearest `float64`, for a number in its range. -/
def Decimal.rounded (d : Decimal) : Decimal :=
  ((Float64.ofRat? d.toRat).map Float64.shortest).getD d

namespace Json

mutual

/-- The value of a tree. -/
def value : Json → JsonValue
  | .null => .null
  | .bool b => .bool b
  | .num d => .num d
  | .negZero => .num (Decimal.of 0 0)
  | .str s => .str s
  | .arr xs => .arr (valueList xs)
  | .obj ms => .obj (mapOf (valueMembers ms))

def valueList : List Json → List JsonValue
  | [] => []
  | x :: xs => value x :: valueList xs

def valueMembers : List (List Char × Json) → List (Bytes × JsonValue)
  | [] => []
  | (k, x) :: ms => (utf8 k, value x) :: valueMembers ms

end

theorem valueList_eq : ∀ xs, valueList xs = xs.map value
  | [] => rfl
  | x :: xs => by rw [valueList, valueList_eq xs, List.map_cons]

theorem valueMembers_eq : ∀ ms, valueMembers ms = ms.map fun m => (utf8 m.1, value m.2)
  | [] => rfl
  | (k, x) :: ms => by rw [valueMembers, valueMembers_eq ms, List.map_cons]

end Json

namespace JsonValue

mutual

/-- The value with its numbers rounded. -/
def rounded : JsonValue → JsonValue
  | .null => .null
  | .bool b => .bool b
  | .num d => .num d.rounded
  | .str s => .str s
  | .arr xs => .arr (roundedList xs)
  | .obj ms => .obj (roundedMembers ms)

def roundedList : List JsonValue → List JsonValue
  | [] => []
  | x :: xs => rounded x :: roundedList xs

def roundedMembers : List (Bytes × JsonValue) → List (Bytes × JsonValue)
  | [] => []
  | (k, x) :: ms => (k, rounded x) :: roundedMembers ms

end

theorem roundedList_eq : ∀ xs, roundedList xs = xs.map rounded
  | [] => rfl
  | x :: xs => by rw [roundedList, roundedList_eq xs, List.map_cons]

theorem roundedMembers_eq : ∀ ms, roundedMembers ms = ms.map fun m => (m.1, rounded m.2)
  | [] => rfl
  | (k, x) :: ms => by rw [roundedMembers, roundedMembers_eq ms, List.map_cons]

/-- Every number in the value is the shortest decimal of a `float64`. -/
def Exact (v : JsonValue) : Prop := v.rounded = v

/-- The member of an object. -/
def get? (k : Bytes) : JsonValue → Option JsonValue
  | .obj ms => mapGet k ms
  | _ => none

end JsonValue

/-- A text with the value is read as the dynamic value. -/
def JsonValue.Decodes (y : JsonValue) (v : Value) : Prop :=
  ∃ x : Json, x.decode = some v ∧ x.value = y

/-- The dynamic value is written as a text with the value. -/
def Value.Writes (v : Value) (y : JsonValue) : Prop := ∃ x, v.tree = some x ∧ x.value = y

/-! ## Writing a map -/

open Json

/-- The value of a map that is written, member by member. -/
theorem value_tree_map {ms : List (Bytes × Value)} {j : Json} (hsorted : SortedKeys ms)
    (hnames : ∀ p ∈ ms, ∃ k, p.1 = utf8 k) (h : (Value.map ms).tree = some j) :
    ∃ vs, j.value = .obj vs ∧ SortedKeys vs ∧
      List.Forall₂ (fun p q => p.1 = q.1 ∧ p.2.Writes q.2) ms vs := by
  rw [Value.tree, Option.map_eq_some_iff] at h
  obtain ⟨qs, hqs, rfl⟩ := h
  rw [forall₂_treeMembers] at hqs
  have hqsorted : SortedKeys qs := sortedKeys_of_forall₂ (hqs.imp fun _ _ hpq => hpq.1) hsorted
  have hwritten : valueMembers ((mapOf qs).map fun m => (runes m.1, m.2))
      = qs.map fun q => (q.1, q.2.value) := by
    rw [mapOf_of_sorted hqsorted, valueMembers_eq, List.map_map]
    refine List.map_congr_left fun q hq => ?_
    obtain ⟨p, hp, hpq⟩ := mem_of_forall₂_right hqs hq
    obtain ⟨k, hk⟩ := hnames p hp
    show (utf8 (runes q.1), q.2.value) = (q.1, q.2.value)
    rw [← hpq.1, hk, runes_utf8]
  have hvsorted : SortedKeys (qs.map fun q => (q.1, q.2.value)) := sortedKeys_map _ hqsorted
  refine ⟨qs.map fun q => (q.1, q.2.value), ?_, hvsorted, ?_⟩
  · rw [value, hwritten, mapOf_of_sorted hvsorted]
  · rw [List.forall₂_map_right_iff]
    exact hqs.imp fun p q hpq => ⟨hpq.1, q.2, hpq.2, rfl⟩

/-! ## Reading and writing -/

theorem shortest_minusZero : Float64.minusZero.shortest = Decimal.of 0 0 :=
  Float64.shortest_intCast (by norm_num) rfl

/-- The text of a number has its value, with or without a sign on a zero. -/
theorem value_json (x : Float64) : x.json.value = .num x.shortest := by
  unfold Float64.json
  split
  · next h => rw [value, Float64.eq_minusZero h, shortest_minusZero]
  · rw [value]

/-- The shortest decimal is not rounded any further. -/
theorem rounded_shortest (x : Float64) : x.shortest.rounded = x.shortest := by
  rw [Decimal.rounded, Float64.ofRat?_shortest]
  rfl

/-- **What is read and written again has its numbers rounded**, and is the same otherwise. -/
theorem value_of_tree (j : Json) : ∀ {v : Value} {j' : Json}, decode j = some v →
    v.tree = some j' → j'.value = j.value.rounded := by
  induction j using Json.ind with
  | null =>
    intro v j' hdec htree
    cases hdec
    cases htree
    rfl
  | bool b =>
    intro v j' hdec htree
    cases hdec
    cases htree
    rfl
  | num d =>
    intro v j' hdec htree
    rw [decode, Option.map_eq_some_iff] at hdec
    obtain ⟨x, hx, rfl⟩ := hdec
    rw [Value.tree, Option.some.injEq] at htree
    have hround : d.rounded = x.shortest := by
      rw [Decimal.rounded, hx, Option.map_some, Option.getD_some]
    rw [← htree, value_json, value, JsonValue.rounded, hround]
  | negZero =>
    intro v j' hdec htree
    cases hdec
    rw [Value.tree, Option.some.injEq] at htree
    rw [← htree, value_json, value, JsonValue.rounded, ← shortest_minusZero, rounded_shortest]
  | str s =>
    intro v j' hdec htree
    cases hdec
    rw [Value.tree, runes_utf8] at htree
    cases htree
    rfl
  | arr xs ih =>
    intro v j' hdec htree
    rw [decode, decodeList_eq, Option.map_eq_some_iff] at hdec
    obtain ⟨ys, hys, rfl⟩ := hdec
    rw [Value.tree, Value.treeList_eq, Option.map_eq_some_iff] at htree
    obtain ⟨js, hjs, rfl⟩ := htree
    rw [traverse_eq_some] at hys hjs
    have hvalues : List.Forall₂ (fun x j => value j = (value x).rounded) xs js :=
      forall₂_trans hys hjs fun x hx y _ j hxy hyj => ih x hx hxy hyj
    have hlist : js.map value = (xs.map value).map JsonValue.rounded := by
      rw [List.map_map, ← List.forall₂_eq_eq_eq, List.forall₂_map_left_iff,
        List.forall₂_map_right_iff]
      exact hvalues.flip
    rw [value, value, JsonValue.rounded, valueList_eq, valueList_eq, JsonValue.roundedList_eq,
      hlist]
  | obj ms ih =>
    intro v j' hdec htree
    rw [decode, Option.map_eq_some_iff] at hdec
    obtain ⟨l, hl, rfl⟩ := hdec
    have hnames : ∀ p ∈ mapOf l, ∃ k, p.1 = utf8 k := by
      intro p hp
      obtain ⟨m, -, hk, -⟩ := exists_member_of_decode hl hp
      exact ⟨m.1, hk⟩
    obtain ⟨vs, hvs, -, hwritten⟩ := value_tree_map (sortedKeys_mapOf l) hnames htree
    -- the map that was read and the value of the object are built from the same members
    have hread : List.Forall₂ (fun (p : Bytes × Value) (y : Bytes × JsonValue) => p.1 = y.1 ∧
        ∀ x, p.2.tree = some x → x.value = y.2.rounded) l (valueMembers ms) := by
      rw [decodeMembers_eq, traverse_eq_some] at hl
      rw [valueMembers_eq, List.forall₂_map_right_iff]
      refine (forall₂_imp_mem hl fun m hm p hmp => ?_).flip
      rw [Option.map_eq_some_iff] at hmp
      obtain ⟨v, hv, rfl⟩ := hmp
      exact ⟨rfl, fun x hx => ih m hm hv hx⟩
    have hmap : vs = (mapOf (valueMembers ms)).map fun m => (m.1, m.2.rounded) := by
      rw [← List.forall₂_eq_eq_eq, List.forall₂_map_right_iff]
      refine forall₂_trans hwritten.flip
        (forall₂_mapOf (R := fun p y => ∀ x, p.tree = some x → x.value = y.rounded) hread)
        fun q _ p _ y hpq hpy => ?_
      obtain ⟨hkey, x, hx, hxq⟩ := hpq
      exact Prod.ext (hkey.symm.trans hpy.1) (hxq.symm.trans (hpy.2 x hx))
    rw [hvs, value, JsonValue.rounded, JsonValue.roundedMembers_eq, hmap]

theorem JsonValue.Decodes.rounded {y z : JsonValue} {v : Value} (hy : y.Decodes v)
    (hz : v.Writes z) : z = y.rounded := by
  obtain ⟨j, hdec, rfl⟩ := hy
  obtain ⟨j', htree, rfl⟩ := hz
  exact value_of_tree j hdec htree

/-- The number stands somewhere in the text. -/
inductive Json.HasNum : Json → Decimal → Prop where
  | num (d : Decimal) : HasNum (.num d) d
  | arr {xs : List Json} {x : Json} {d : Decimal} (hx : x ∈ xs) (h : HasNum x d) :
    HasNum (.arr xs) d
  | obj {ms : List (List Char × Json)} {m : List Char × Json} {d : Decimal} (hm : m ∈ ms)
    (h : HasNum m.2 d) : HasNum (.obj ms) d

/-- Every number of the text is in the range of `float64`. -/
def Json.InRange (j : Json) : Prop := ∀ d, j.HasNum d → |round64 d.toRat| < 2 ^ 1024

theorem exists_ofRat?_iff {q : ℚ} : (∃ x, Float64.ofRat? q = some x) ↔ |round64 q| < 2 ^ 1024 := by
  unfold Float64.ofRat?
  split
  · next h => simp [h]
  · next h => simp [h]

/-- **A text can be read if its numbers are in range**, also those that are overwritten. -/
theorem exists_decode_iff (j : Json) : (∃ v, decode j = some v) ↔ j.InRange := by
  induction j using Json.ind with
  | null => exact iff_of_true ⟨_, rfl⟩ fun d hd => by cases hd
  | bool b => exact iff_of_true ⟨_, rfl⟩ fun d hd => by cases hd
  | num d =>
    have hnum : (Json.num d).InRange ↔ |round64 d.toRat| < 2 ^ 1024 := by
      constructor
      · exact fun h => h d (.num d)
      · intro h d hd
        cases hd
        exact h
    rw [hnum, ← exists_ofRat?_iff]
    simp only [decode, Option.map_eq_some_iff]
    constructor
    · rintro ⟨_, x, hx, -⟩
      exact ⟨x, hx⟩
    · rintro ⟨x, hx⟩
      exact ⟨_, x, hx, rfl⟩
  | negZero => exact iff_of_true ⟨_, rfl⟩ fun d hd => by cases hd
  | str s => exact iff_of_true ⟨_, rfl⟩ fun d hd => by cases hd
  | arr xs ih =>
    have hall : (Json.arr xs).InRange ↔ ∀ x ∈ xs, x.InRange := by
      constructor
      · exact fun h x hx d hd => h d (.arr hx hd)
      · intro h d hd
        cases hd with
        | arr hx hd => exact h _ hx d hd
    rw [hall]
    simp only [decode, decodeList_eq, Option.map_eq_some_iff, traverse_eq_some]
    constructor
    · rintro ⟨_, ys, hys, -⟩ x hx
      obtain ⟨y, -, hy⟩ := mem_of_forall₂_right hys.flip hx
      exact (ih x hx).mp ⟨y, hy⟩
    · intro h
      obtain ⟨ys, hys⟩ := exists_forall₂ fun x hx => (ih x hx).mpr (h x hx)
      exact ⟨_, ys, hys, rfl⟩
  | obj ms ih =>
    have hall : (Json.obj ms).InRange ↔ ∀ m ∈ ms, m.2.InRange := by
      constructor
      · exact fun h m hm d hd => h d (.obj hm hd)
      · intro h d hd
        cases hd with
        | obj hx hd => exact h _ hx d hd
    rw [hall]
    simp only [decode, decodeMembers_eq, Option.map_eq_some_iff, traverse_eq_some]
    constructor
    · rintro ⟨_, l, hl, -⟩ m hm
      obtain ⟨p, -, v, hv, -⟩ := mem_of_forall₂_right hl.flip hm
      exact (ih m hm).mp ⟨v, hv⟩
    · intro h
      have hex : ∀ m ∈ ms, ∃ p : Bytes × Value, ∃ v, decode m.2 = some v ∧ (utf8 m.1, v) = p := by
        intro m hm
        obtain ⟨v, hv⟩ := (ih m hm).mpr (h m hm)
        exact ⟨_, v, hv, rfl⟩
      obtain ⟨l, hl⟩ := exists_forall₂ hex
      exact ⟨_, l, hl, rfl⟩

/-! ## What reading tells apart -/

/-- Trees of one depth and one value. -/
def Json.Alike (j j' : Json) : Prop := j.depth = j'.depth ∧ j.value = j'.value

theorem Json.alike_arr {xs xs' : List Json} (h : List.Forall₂ Alike xs xs') :
    Alike (.arr xs) (.arr xs') := by
  have hlists : depthList xs = depthList xs' ∧ valueList xs = valueList xs' := by
    induction h with
    | nil => exact ⟨rfl, rfl⟩
    | cons hx _ ih => exact ⟨by rw [depthList, hx.1, ih.1, depthList],
        by rw [valueList, hx.2, ih.2, valueList]⟩
  exact ⟨by rw [depth, hlists.1, depth], by rw [value, hlists.2, value]⟩

theorem Json.alike_obj {ms ms' : List (List Char × Json)}
    (h : List.Forall₂ (fun m m' => m.1 = m'.1 ∧ Alike m.2 m'.2) ms ms') :
    Alike (.obj ms) (.obj ms') := by
  have hlists : depthMembers ms = depthMembers ms' ∧ valueMembers ms = valueMembers ms' := by
    induction h with
    | nil => exact ⟨rfl, rfl⟩
    | cons hm _ ih => exact ⟨by rw [depthMembers, hm.2.1, ih.1, depthMembers],
        by rw [valueMembers, hm.1, hm.2.2, ih.2, valueMembers]⟩
  exact ⟨by rw [depth, hlists.1, depth], by rw [value, hlists.2, value]⟩

namespace Value

mutual

/-- The sign of its zeros changes neither the depth nor the value of what a value is written as. -/
theorem tree_plainZeros : ∀ (v : Value) {t : Json}, v.tree = some t →
    ∃ t', v.plainZeros.tree = some t' ∧ t.Alike t'
  | .float64 x, t, h => by
    cases h
    refine ⟨x.plainZero.json, rfl, ?_, ?_⟩
    · rw [depth_json, depth_json]
    · rw [value_json, value_json]
      rfl
  | .slice xs, t, h => by
    rw [tree, Option.map_eq_some_iff] at h
    obtain ⟨ts, hts, rfl⟩ := h
    obtain ⟨ts', hts', halike⟩ := treeList_plainZeros xs hts
    exact ⟨.arr ts', by rw [plainZeros, tree, hts']; rfl, alike_arr halike⟩
  | .map ms, t, h => by
    rw [tree, Option.map_eq_some_iff] at h
    obtain ⟨qs, hqs, rfl⟩ := h
    obtain ⟨qs', hqs', halike⟩ := treeMembers_plainZeros ms hqs
    refine ⟨_, by rw [plainZeros, tree, hqs']; rfl, alike_obj ?_⟩
    rw [List.forall₂_map_left_iff, List.forall₂_map_right_iff]
    exact (forall₂_mapOf halike).imp fun q q' h => ⟨congrArg runes h.1, h.2⟩
  | .nil, t, h => ⟨t, h, rfl, rfl⟩
  | .bool _, t, h => ⟨t, h, rfl, rfl⟩
  | .uint64 _, t, h => ⟨t, h, rfl, rfl⟩
  | .string _, t, h => ⟨t, h, rfl, rfl⟩
  | .time _, t, h => ⟨t, h, rfl, rfl⟩
  | .foreign _, t, h => ⟨t, h, rfl, rfl⟩
  | .unsupported, t, h => ⟨t, h, rfl, rfl⟩

theorem treeList_plainZeros : ∀ (xs : List Value) {ts : List Json}, treeList xs = some ts →
    ∃ ts', treeList (plainZerosList xs) = some ts' ∧ List.Forall₂ Json.Alike ts ts'
  | [], ts, h => by
    cases h
    exact ⟨[], rfl, .nil⟩
  | x :: xs, ts, h => by
    obtain ⟨t, ts, ht, hts, rfl⟩ := optCons_eq_some.mp h
    obtain ⟨t', ht', halike⟩ := tree_plainZeros x ht
    obtain ⟨ts', hts', hall⟩ := treeList_plainZeros xs hts
    exact ⟨t' :: ts', optCons_eq_some.mpr ⟨t', ts', ht', hts', rfl⟩, .cons halike hall⟩

theorem treeMembers_plainZeros : ∀ (ms : List (Bytes × Value)) {qs : List (Bytes × Json)},
    treeMembers ms = some qs → ∃ qs', treeMembers (plainZerosMembers ms) = some qs' ∧
      List.Forall₂ (fun q q' => q.1 = q'.1 ∧ Json.Alike q.2 q'.2) qs qs'
  | [], qs, h => by
    cases h
    exact ⟨[], rfl, .nil⟩
  | (k, x) :: ms, qs, h => by
    obtain ⟨q, qs, hq, hqs, rfl⟩ := optCons_eq_some.mp h
    obtain ⟨t, ht, rfl⟩ := Option.map_eq_some_iff.mp hq
    obtain ⟨t', ht', halike⟩ := tree_plainZeros x ht
    obtain ⟨qs', hqs', hall⟩ := treeMembers_plainZeros ms hqs
    refine ⟨(k, t') :: qs', optCons_eq_some.mpr ⟨(k, t'), qs', ?_, hqs', rfl⟩,
      .cons ⟨rfl, halike⟩ hall⟩
    rw [ht']
    rfl

end

end Value

/-- Values that differ in the sign of zeros only have the same normal form. -/
theorem Reads.congr {v v' w : Value} (h : Reads v w) {j j' : Json} (hv : decode j = some v)
    (hv' : decode j' = some v') (heq : v'.plainZeros = v.plainZeros) : Reads v' w := by
  obtain ⟨u, ⟨t, htree, hdec, hdepth⟩, rfl⟩ := h
  obtain ⟨t₁, htree₁, hdec₁, -⟩ := tree_of_decode j v hv
  obtain ⟨t', htree', hdec', -⟩ := tree_of_decode j' v' hv'
  obtain rfl : t₁ = t := Option.some.inj (htree₁.symm.trans htree)
  obtain rfl : v = u := Option.some.inj (hdec₁.symm.trans hdec)
  -- the two trees are as deep as the one without signs
  obtain ⟨p, hp, hlike, -⟩ := v.tree_plainZeros htree
  obtain ⟨p', hp', hlike', -⟩ := v'.tree_plainZeros htree'
  obtain rfl : p' = p := Option.some.inj (hp'.symm.trans (heq ▸ hp))
  exact ⟨v', ⟨t', htree', hdec', by omega⟩, heq⟩

namespace JsonValue

mutual

/-- The dynamic value that a JSON value is read as, with its zeros unsigned. A number out of range
stands for zero. -/
def plain : JsonValue → Value
  | .null => .nil
  | .bool b => .bool b
  | .num d => .float64 ((Float64.ofRat? d.toRat).getD .minusZero).plainZero
  | .str s => .string (utf8 s)
  | .arr xs => .slice (plainList xs)
  | .obj ms => .map (plainMembers ms)

def plainList : List JsonValue → List Value
  | [] => []
  | x :: xs => plain x :: plainList xs

def plainMembers : List (Bytes × JsonValue) → List (Bytes × Value)
  | [] => []
  | (k, x) :: ms => (k, plain x) :: plainMembers ms

end

theorem plainList_eq : ∀ xs, plainList xs = xs.map plain
  | [] => rfl
  | x :: xs => by rw [plainList, plainList_eq xs, List.map_cons]

theorem plainMembers_eq : ∀ ms, plainMembers ms = ms.map fun m => (m.1, m.2.plain)
  | [] => rfl
  | (k, x) :: ms => by rw [plainMembers, plainMembers_eq ms, List.map_cons]

end JsonValue

/-- What a text is read as is a matter of its value, up to the sign of zeros. -/
theorem plain_value (j : Json) : ∀ {v : Value}, decode j = some v →
    j.value.plain = v.plainZeros := by
  induction j using Json.ind with
  | null => rintro v ⟨⟩; rfl
  | bool b => rintro v ⟨⟩; rfl
  | num d =>
    intro v h
    obtain ⟨x, hx, rfl⟩ := Option.map_eq_some_iff.mp h
    rw [value, JsonValue.plain, hx]
    rfl
  | negZero =>
    rintro v ⟨⟩
    have hread := Float64.ofRat?_shortest .minusZero
    rw [shortest_minusZero] at hread
    rw [value, JsonValue.plain, hread]
    rfl
  | str s => rintro v ⟨⟩; rfl
  | arr xs ih =>
    intro v h
    rw [decode, decodeList_eq, Option.map_eq_some_iff] at h
    obtain ⟨ys, hys, rfl⟩ := h
    rw [traverse_eq_some] at hys
    have hlist : (xs.map value).map JsonValue.plain = ys.map Value.plainZeros := by
      rw [List.map_map, ← List.forall₂_eq_eq_eq, List.forall₂_map_left_iff,
        List.forall₂_map_right_iff]
      exact forall₂_imp_mem hys fun x hx y hxy => ih x hx hxy
    rw [value, JsonValue.plain, JsonValue.plainList_eq, valueList_eq, hlist, Value.plainZeros,
      Value.plainZerosList_eq]
  | obj ms ih =>
    intro v h
    rw [decode, decodeMembers_eq, Option.map_eq_some_iff] at h
    obtain ⟨l, hl, rfl⟩ := h
    rw [traverse_eq_some] at hl
    have hread : List.Forall₂ (fun (y : Bytes × JsonValue) (p : Bytes × Value) => y.1 = p.1 ∧
        y.2.plain = p.2.plainZeros) (valueMembers ms) l := by
      rw [valueMembers_eq, List.forall₂_map_left_iff]
      refine forall₂_imp_mem hl fun m hm p hmp => ?_
      obtain ⟨v, hv, rfl⟩ := Option.map_eq_some_iff.mp hmp
      exact ⟨rfl, ih m hm hv⟩
    have hmap : (mapOf (valueMembers ms)).map (fun m => (m.1, m.2.plain))
        = (mapOf l).map fun m => (m.1, m.2.plainZeros) := by
      rw [← List.forall₂_eq_eq_eq, List.forall₂_map_left_iff, List.forall₂_map_right_iff]
      exact (forall₂_mapOf (R := fun y p => y.plain = p.plainZeros) hread).imp
        fun _ _ h => Prod.ext h.1 h.2
    rw [value, JsonValue.plain, JsonValue.plainMembers_eq, hmap, Value.plainZeros,
      Value.plainZerosMembers_eq]

/-- **Two texts are read as the same value exactly if they have the same value after rounding**, up
to the sign of zeros. -/
theorem plainZeros_eq_iff {j j' : Json} {v v' : Value} (h : decode j = some v)
    (h' : decode j' = some v') :
    v.plainZeros = v'.plainZeros ↔ j.value.rounded = j'.value.rounded := by
  obtain ⟨t, htree, hdec, -⟩ := tree_of_decode j v h
  obtain ⟨t', htree', hdec', -⟩ := tree_of_decode j' v' h'
  rw [← value_of_tree j h htree, ← value_of_tree j' h' htree']
  constructor
  · intro heq
    obtain ⟨u, hu, -, hvalue⟩ := v.tree_plainZeros htree
    obtain ⟨u', hu', -, hvalue'⟩ := v'.tree_plainZeros htree'
    rw [heq, hu', Option.some.injEq] at hu
    rw [hvalue, hvalue', hu]
  · intro heq
    rw [← plain_value t hdec, heq, plain_value t' hdec']

end Infra
