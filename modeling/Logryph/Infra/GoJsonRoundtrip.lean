import Logryph.Infra.GoJson

/-!
# Writing and reading dynamic values

* `tree_of_decode` — a value that was read is written as a tree that reads as it again, and that
  is nested no deeper than the one it came from
* `canonicalTree_of_decode` — the same for the canonical tree, up to the sign of zeros
* `normalForm` — what a written value is read as, with its zeros unsigned
* `normalForm_map` — a map is normalised member by member
* `canonical_injective` — the canonical text determines the value, up to the sign of zeros
-/

namespace Infra

/-! ## Escapes -/

theorem escapeOk_goEscape : Json.EscapeOk goEscape := by
  refine Json.escapeOk_escapeWith fun c rest hq hb h => ?_
  split
  · next hc =>
    have hlt : c.toNat < 0xD800 := by
      rcases hc with rfl | rfl | rfl | hc | hc
      · decide
      · decide
      · decide
      · omega
      · omega
    rw [Json.readChar_unicodeEscape hlt, Char.ofNat_toNat]
  · exact Json.readChar_self hq hb h rest

theorem escapeOk_canonicalEscape : Json.EscapeOk canonicalEscape :=
  Json.escapeOk_escapeWith fun _ rest hq hb h => Json.readChar_self hq hb h rest

open Json.Scan in
theorem scanOk_canonicalEscape : Json.ScanOk canonicalEscape := by
  intro c d
  -- a byte that is neither a quote nor a backslash stays inside the string
  have hplain : ∀ bs : Bytes, (∀ b ∈ bs, b ≠ 0x22 ∧ b ≠ 0x5C) →
      run (str d) bs = some (str d) := by
    intro bs
    induction bs with
    | nil => exact fun _ => rfl
    | cons b bs ih =>
      intro h
      obtain ⟨h1, h2⟩ := h b List.mem_cons_self
      rw [run_cons]
      simp only [step, h1, h2, if_false, Option.bind_some]
      exact ih fun b hb => h b (List.mem_cons_of_mem _ hb)
  unfold canonicalEscape Json.escapeWith
  split
  · rfl
  split
  · rfl
  split
  · rfl
  split
  · rfl
  split
  · rfl
  split
  · rfl
  split
  · rfl
  split
  · next hlt =>
    have hall : ∀ n ∈ List.range 0x20,
        run (str 0) (utf8 (Json.unicodeEscape n)) = some (str 0) := by decide +kernel
    have := run_up d (hall c.toNat (List.mem_range.mpr hlt))
    rwa [up, Nat.zero_add] at this
  · next hq hb _ _ _ _ _ _ =>
    refine hplain _ fun b hb' => ?_
    rw [utf8_cons, utf8_nil, List.append_nil] at hb'
    by_cases hlt : c.toNat < 0x80
    · rw [utf8EncodeChar_ascii hlt, List.mem_singleton] at hb'
      have hne : ∀ n < 0x80, c.toNat ≠ n → b ≠ UInt8.ofNat n := by
        rintro n hn hcn rfl
        have := congrArg UInt8.toNat hb'
        simp only [UInt8.toNat_ofNat'] at this
        omega
      have hnat : ∀ c' : Char, c ≠ c' → c.toNat ≠ c'.toNat :=
        fun c' h h' => h (Char.toNat_inj.mp h')
      exact ⟨hne 0x22 (by omega) (hnat '"' hq), hne 0x5C (by omega) (hnat '\\' hb)⟩
    · have hge := utf8EncodeChar_high (Nat.not_lt.mp hlt) b hb'
      constructor
      · rintro rfl
        exact absurd hge (by decide)
      · rintro rfl
        exact absurd hge (by decide)

/-! ## Depth -/

namespace Json

theorem depth_le_depthList : ∀ {xs : List Json} {x : Json}, x ∈ xs → x.depth ≤ depthList xs
  | y :: ys, x, h => by
    rw [depthList]
    rcases List.mem_cons.mp h with rfl | h
    · exact Nat.le_max_left _ _
    · exact (depth_le_depthList h).trans (Nat.le_max_right _ _)

theorem depthList_le {n : Nat} : ∀ {xs : List Json}, (∀ x ∈ xs, x.depth ≤ n) → depthList xs ≤ n
  | [], _ => Nat.zero_le _
  | x :: _, h => Nat.max_le.mpr
    ⟨h x List.mem_cons_self, depthList_le fun y hy => h y (List.mem_cons_of_mem _ hy)⟩

theorem depth_le_depthMembers : ∀ {ms : List (List Char × Json)} {m : List Char × Json},
    m ∈ ms → m.2.depth ≤ depthMembers ms
  | (k, x) :: ms, m, h => by
    rw [depthMembers]
    rcases List.mem_cons.mp h with rfl | h
    · exact Nat.le_max_left _ _
    · exact (depth_le_depthMembers h).trans (Nat.le_max_right _ _)

theorem depthMembers_le {n : Nat} : ∀ {ms : List (List Char × Json)},
    (∀ m ∈ ms, m.2.depth ≤ n) → depthMembers ms ≤ n
  | [], _ => Nat.zero_le _
  | (k, x) :: _, h => Nat.max_le.mpr
    ⟨h (k, x) List.mem_cons_self, depthMembers_le fun m hm => h m (List.mem_cons_of_mem _ hm)⟩

end Json

/-! ## Values that were read -/

section

open Json

/-- The members of a map that was read, each with what it was read from. -/
theorem exists_member_of_decode {ms : List (List Char × Json)} {l : List (Bytes × Value)}
    (h : decodeMembers ms = some l) {p : Bytes × Value} (hp : p ∈ mapOf l) :
    ∃ m ∈ ms, p.1 = utf8 m.1 ∧ decode m.2 = some p.2 := by
  rw [decodeMembers_eq, traverse_eq_some] at h
  obtain ⟨m, hm, hmp⟩ := mem_of_forall₂_right h (mem_of_mem_mapOf hp)
  rw [Option.map_eq_some_iff] at hmp
  obtain ⟨v, hv, rfl⟩ := hmp
  exact ⟨m, hm, rfl, hv⟩

theorem forall₂_treeMembers {ms : List (Bytes × Value)} {qs : List (Bytes × Json)} :
    Value.treeMembers ms = some qs ↔
      List.Forall₂ (fun m q => m.1 = q.1 ∧ m.2.tree = some q.2) ms qs := by
  have hpair : (fun (m : Bytes × Value) (q : Bytes × Json) => (m.2.tree).map (m.1, ·) = some q)
      = fun m q => m.1 = q.1 ∧ m.2.tree = some q.2 := by
    funext m q
    rw [Option.map_eq_some_iff, eq_iff_iff]
    constructor
    · rintro ⟨x, hx, rfl⟩
      exact ⟨rfl, hx⟩
    · rintro ⟨hkey, hx⟩
      exact ⟨q.2, hx, by rw [hkey]⟩
  rw [Value.treeMembers_eq, traverse_eq_some, hpair]

/-- Members that read as the entries of a sorted map. -/
theorem decodeMembers_of_forall₂ {ms : List (List Char × Json)} {l : List (Bytes × Value)}
    (h : List.Forall₂ (fun m p => utf8 m.1 = p.1 ∧ decode m.2 = some p.2) ms l) :
    decodeMembers ms = some l := by
  rw [decodeMembers_eq, traverse_eq_some]
  refine h.imp fun m p hmp => ?_
  rw [hmp.2, Option.map_some, hmp.1]

/-- **A number is written as what reads back to it.** -/
theorem decode_json (x : Float64) : decode x.json = some (.float64 x) := by
  unfold Float64.json
  split
  · next h => rw [decode, Float64.eq_minusZero h]
  · next h =>
    rw [decode, Float64.ofRat?_shortest, Float64.plainZero_of_not (Bool.not_eq_true _ ▸ h)]
    rfl

/-- A number has no depth. -/
theorem depth_json (x : Float64) : x.json.depth = 0 := by
  unfold Float64.json
  split <;> rfl

/-- **A value that was read can be written**, as a tree that reads as the same value and is no
deeper than the one the value came from. -/
theorem tree_of_decode (j : Json) : ∀ v, decode j = some v →
    ∃ j', v.tree = some j' ∧ decode j' = some v ∧ j'.depth ≤ j.depth := by
  induction j using Json.ind with
  | null => rintro v h; cases h; exact ⟨_, rfl, rfl, Nat.le_refl _⟩
  | bool b => rintro v h; cases h; exact ⟨_, rfl, rfl, Nat.le_refl _⟩
  | num d =>
    intro v h
    rw [decode, Option.map_eq_some_iff] at h
    obtain ⟨x, -, rfl⟩ := h
    exact ⟨x.json, rfl, decode_json x, (depth_json x).le⟩
  | negZero =>
    intro v h
    cases h
    exact ⟨.negZero, rfl, rfl, Nat.le_refl _⟩
  | str s =>
    rintro v h
    cases h
    refine ⟨.str s, ?_, rfl, Nat.le_refl _⟩
    rw [Value.tree, runes_utf8]
  | arr xs ih =>
    intro v h
    rw [decode, Option.map_eq_some_iff] at h
    obtain ⟨ys, hys, rfl⟩ := h
    rw [decodeList_eq, traverse_eq_some] at hys
    have hex : ∀ y ∈ ys, ∃ j', y.tree = some j' ∧ decode j' = some y ∧
        j'.depth ≤ depthList xs := by
      intro y hy
      obtain ⟨x, hx, hxy⟩ := mem_of_forall₂_right hys hy
      obtain ⟨j', h1, h2, h3⟩ := ih x hx y hxy
      exact ⟨j', h1, h2, h3.trans (depth_le_depthList hx)⟩
    obtain ⟨js, hjs⟩ := exists_forall₂ hex
    refine ⟨.arr js, ?_, ?_, ?_⟩
    · rw [Value.tree, Value.treeList_eq, traverse_eq_some.mpr (hjs.imp fun _ _ h => h.1)]
      rfl
    · rw [decode, decodeList_eq, traverse_eq_some.mpr (hjs.flip.imp fun _ _ h => h.2.1)]
      rfl
    · refine Nat.add_le_add_left (depthList_le fun j' hj' => ?_) 1
      obtain ⟨y, -, h⟩ := mem_of_forall₂_right hjs hj'
      exact h.2.2
  | obj ms ih =>
    intro v h
    rw [decode, Option.map_eq_some_iff] at h
    obtain ⟨l, hl, rfl⟩ := h
    have hex : ∀ p ∈ mapOf l, ∃ q : Bytes × Json, (p.1 = q.1 ∧ p.2.tree = some q.2) ∧
        (utf8 (runes q.1) = p.1 ∧ decode q.2 = some p.2) ∧ q.2.depth ≤ depthMembers ms := by
      intro p hp
      obtain ⟨m, hm, hk, hv⟩ := exists_member_of_decode hl hp
      obtain ⟨j', h1, h2, h3⟩ := ih m hm p.2 hv
      refine ⟨(p.1, j'), ⟨rfl, h1⟩, ⟨?_, h2⟩, h3.trans (depth_le_depthMembers hm)⟩
      rw [hk, runes_utf8]
    obtain ⟨qs, hqs⟩ := exists_forall₂ hex
    have hsorted : SortedKeys qs := sortedKeys_of_forall₂ (hqs.imp fun _ _ h => h.1.1)
      (sortedKeys_mapOf l)
    refine ⟨.obj (qs.map fun m => (runes m.1, m.2)), ?_, ?_, ?_⟩
    · rw [Value.tree, forall₂_treeMembers.mpr (hqs.imp fun _ _ h => h.1), Option.map_some,
        mapOf_of_sorted hsorted]
    · have : decodeMembers (qs.map fun m => (runes m.1, m.2)) = some (mapOf l) := by
        refine decodeMembers_of_forall₂ ?_
        rw [List.forall₂_map_left_iff]
        exact hqs.flip.imp fun _ _ h => h.2.1
      rw [decode, this, Option.map_some, mapOf_of_sorted (sortedKeys_mapOf l)]
    · refine Nat.add_le_add_left (depthMembers_le fun m hm => ?_) 1
      obtain ⟨q, hq, rfl⟩ := List.mem_map.mp hm
      obtain ⟨p, -, h⟩ := mem_of_forall₂_right hqs hq
      exact h.2.2

/-- **A value that was read has a canonical tree**, and that reads as the same value, up to the sign
of zeros. -/
theorem canonicalTree_of_decode (j : Json) : ∀ v, decode j = some v →
    ∃ j', v.canonicalTree = some j' ∧ decode j' = some v.plainZeros := by
  induction j using Json.ind with
  | null => rintro v h; cases h; exact ⟨_, rfl, rfl⟩
  | bool b => rintro v h; cases h; exact ⟨_, rfl, rfl⟩
  | num d =>
    intro v h
    rw [decode, Option.map_eq_some_iff] at h
    obtain ⟨x, -, rfl⟩ := h
    refine ⟨.num x.shortest, rfl, ?_⟩
    rw [decode, Float64.ofRat?_shortest]
    rfl
  | negZero =>
    intro v h
    cases h
    refine ⟨.num Float64.minusZero.shortest, rfl, ?_⟩
    rw [decode, Float64.ofRat?_shortest]
    rfl
  | str s =>
    rintro v h
    cases h
    refine ⟨.str s, ?_, rfl⟩
    rw [Value.canonicalTree, runes_utf8]
  | arr xs ih =>
    intro v h
    rw [decode, Option.map_eq_some_iff] at h
    obtain ⟨ys, hys, rfl⟩ := h
    rw [decodeList_eq, traverse_eq_some] at hys
    have hex : ∀ y ∈ ys, ∃ j', y.canonicalTree = some j' ∧ decode j' = some y.plainZeros := by
      intro y hy
      obtain ⟨x, hx, hxy⟩ := mem_of_forall₂_right hys hy
      exact ih x hx y hxy
    obtain ⟨js, hjs⟩ := exists_forall₂ hex
    refine ⟨.arr js, ?_, ?_⟩
    · rw [Value.canonicalTree, Value.canonicalList_eq,
        traverse_eq_some.mpr (hjs.imp fun _ _ h => h.1)]
      rfl
    · have hread : List.Forall₂ (fun x y => decode x = some y) js (ys.map Value.plainZeros) := by
        rw [List.forall₂_map_right_iff]
        exact hjs.flip.imp fun _ _ h => h.2
      rw [decode, decodeList_eq, traverse_eq_some.mpr hread, Value.plainZeros,
        Value.plainZerosList_eq]
      rfl
  | obj ms ih =>
    intro v h
    rw [decode, Option.map_eq_some_iff] at h
    obtain ⟨l, hl, rfl⟩ := h
    have hex : ∀ p ∈ mapOf l, ∃ q : List Char × Json,
        (runes p.1 = q.1 ∧ p.2.canonicalTree = some q.2) ∧
          utf8 q.1 = p.1 ∧ decode q.2 = some p.2.plainZeros := by
      intro p hp
      obtain ⟨m, hm, hk, hv⟩ := exists_member_of_decode hl hp
      obtain ⟨j', h1, h2⟩ := ih m hm p.2 hv
      refine ⟨(runes p.1, j'), ⟨rfl, h1⟩, ?_, h2⟩
      rw [hk, runes_utf8]
    obtain ⟨qs, hqs⟩ := exists_forall₂ hex
    have hread : List.Forall₂ (fun q p => utf8 q.1 = p.1 ∧ decode q.2 = some p.2) qs
        ((mapOf l).map fun p => (p.1, p.2.plainZeros)) := by
      rw [List.forall₂_map_right_iff]
      exact hqs.flip.imp fun _ _ h => h.2
    -- sorting permutes the members, and reading forgets their order
    obtain ⟨l', hl', hperm⟩ := List.perm_comp_forall₂
      (List.perm_insertionSort (fun a b => utf16 a.1 ≤ utf16 b.1) qs) hread
    refine ⟨.obj (sortMembers qs), ?_, ?_⟩
    · have : Value.canonicalMembers (mapOf l) = some qs := by
        rw [Value.canonicalMembers_eq, traverse_eq_some]
        refine hqs.imp fun p q h => ?_
        rw [h.1.2, Option.map_some, h.1.1]
      rw [Value.canonicalTree, this]
      rfl
    · rw [decode, sortMembers, decodeMembers_of_forall₂ hl', Option.map_some,
        mapOf_of_perm (sortedKeys_map _ (sortedKeys_mapOf l)) hperm, Value.plainZeros,
        Value.plainZerosMembers_eq]

end

/-! ## Texts -/

theorem readText_eq_some {bs : Bytes} {j : Json} :
    readText bs = some j ↔ Json.parse (runes bs) = some j ∧ j.depth ≤ maxDepth := by
  unfold readText
  cases Json.parse (runes bs) with
  | none => simp
  | some j' =>
    dsimp only
    split
    · next h =>
      rw [Option.some.injEq]
      exact ⟨fun heq => ⟨heq, heq ▸ h⟩, And.left⟩
    · next h =>
      refine iff_of_false nofun ?_
      rintro ⟨heq, hle⟩
      rw [Option.some.inj heq] at h
      exact h hle

/-- A written text is read as the tree it was written from, unless that is too deep. -/
theorem readText_render (j : Json) : readText (utf8 (Json.render goEscape j))
    = if j.depth ≤ maxDepth then some j else none := by
  unfold readText
  rw [runes_utf8, Json.parse_render escapeOk_goEscape]

/-- What a written value is read as. -/
def roundTrip (v : Value) : Option Value := (marshal v).bind unmarshal

theorem roundTrip_eq_some {v w : Value} : roundTrip v = some w ↔
    ∃ j, v.tree = some j ∧ j.depth ≤ maxDepth ∧ j.decode = some w := by
  unfold roundTrip marshal unmarshal
  cases v.tree with
  | none => simp
  | some j =>
    rw [Option.map_some, Option.bind_some, readText_render]
    split
    · next h => simp [h]
    · next h => simp [h]

/-- The value that the canonical text stands for: what a written value is read as, with every `-0`
as `0`. -/
def normalForm (v : Value) : Option Value := (roundTrip v).map Value.plainZeros

theorem normalForm_eq_some {v w : Value} : normalForm v = some w ↔
    ∃ u, roundTrip v = some u ∧ u.plainZeros = w :=
  Option.map_eq_some_iff

/-- A map is read as a map. -/
theorem exists_map_of_roundTrip {ms : List (Bytes × Value)} {w : Value}
    (h : roundTrip (.map ms) = some w) : ∃ ws, w = .map ws := by
  obtain ⟨j, htree, -, hdec⟩ := roundTrip_eq_some.mp h
  rw [Value.tree, Option.map_eq_some_iff] at htree
  obtain ⟨l, -, rfl⟩ := htree
  rw [Json.decode, Option.map_eq_some_iff] at hdec
  obtain ⟨l', -, rfl⟩ := hdec
  exact ⟨_, rfl⟩

/-! ## Maps, member by member -/

/-- A value that is read as another one inside a map. -/
def ReadsAs (v w : Value) : Prop :=
  ∃ j, v.tree = some j ∧ j.decode = some w ∧ j.depth < maxDepth

/-- The same for the normal forms, which have no sign on a zero. -/
def Reads (v w : Value) : Prop := ∃ u, ReadsAs v u ∧ u.plainZeros = w

theorem ReadsAs.reads {v w : Value} (h : ReadsAs v w) : Reads v w.plainZeros := ⟨w, h, rfl⟩

/-- What is read reads as itself. -/
theorem ReadsAs.self {v w : Value} (h : ReadsAs v w) : ReadsAs w w := by
  obtain ⟨j, -, hdec, hdepth⟩ := h
  obtain ⟨j', htree, hdec', hle⟩ := tree_of_decode j w hdec
  exact ⟨j', htree, hdec', hle.trans_lt hdepth⟩

theorem ReadsAs.unique {v w w' : Value} (h : ReadsAs v w) (h' : ReadsAs v w') : w = w' := by
  obtain ⟨j, htree, hdec, -⟩ := h
  obtain ⟨j', htree', hdec', -⟩ := h'
  rw [htree, Option.some.injEq] at htree'
  rw [← htree', hdec, Option.some.injEq] at hdec'
  exact hdec'

theorem Reads.unique {v w w' : Value} (h : Reads v w) (h' : Reads v w') : w = w' := by
  obtain ⟨u, hu, rfl⟩ := h
  obtain ⟨u', hu', rfl⟩ := h'
  rw [hu.unique hu']

/-- A map can be read if its members can, and are not nested too deep. -/
theorem exists_readsAs_map {ms : List (Bytes × Value)} {n : Nat} (hn : n + 1 < maxDepth)
    (h : ∀ m ∈ ms, ∃ j w, m.2.tree = some j ∧ j.decode = some w ∧ j.depth ≤ n) :
    ∃ w, ReadsAs (.map ms) w := by
  have hex : ∀ m ∈ ms, ∃ q : Bytes × Json, (m.1 = q.1 ∧ m.2.tree = some q.2) ∧
      (∃ w, q.2.decode = some w) ∧ q.2.depth ≤ n := by
    intro m hm
    obtain ⟨j, w, htree, hdec, hle⟩ := h m hm
    exact ⟨(m.1, j), ⟨rfl, htree⟩, ⟨w, hdec⟩, hle⟩
  obtain ⟨qs, hqs⟩ := exists_forall₂ hex
  have hmem : ∀ q ∈ mapOf qs, (∃ w, q.2.decode = some w) ∧ q.2.depth ≤ n := by
    intro q hq
    obtain ⟨m, -, hm⟩ := mem_of_forall₂_right hqs (mem_of_mem_mapOf hq)
    exact hm.2
  have hdec : ∀ q ∈ (mapOf qs).map fun m => (runes m.1, m.2),
      ∃ p : Bytes × Value, utf8 q.1 = p.1 ∧ Json.decode q.2 = some p.2 := by
    intro q hq
    obtain ⟨m, hm, rfl⟩ := List.mem_map.mp hq
    obtain ⟨⟨w, hw⟩, -⟩ := hmem m hm
    exact ⟨(_, w), rfl, hw⟩
  obtain ⟨ws, hws⟩ := exists_forall₂ hdec
  refine ⟨.map (mapOf ws), .obj ((mapOf qs).map fun m => (runes m.1, m.2)), ?_, ?_, ?_⟩
  · rw [Value.tree, forall₂_treeMembers.mpr (hqs.imp fun _ _ h => h.1), Option.map_some]
  · rw [Json.decode, decodeMembers_of_forall₂ hws, Option.map_some]
  · rw [Json.depth]
    have : Json.depthMembers ((mapOf qs).map fun m => (runes m.1, m.2)) ≤ n := by
      refine Json.depthMembers_le fun q hq => ?_
      obtain ⟨m, hm, rfl⟩ := List.mem_map.mp hq
      exact (hmem m hm).2
    omega

theorem exists_reads_map {ms : List (Bytes × Value)} {n : Nat} (hn : n + 1 < maxDepth)
    (h : ∀ m ∈ ms, ∃ j w, m.2.tree = some j ∧ j.decode = some w ∧ j.depth ≤ n) :
    ∃ w, Reads (.map ms) w := by
  obtain ⟨w, hw⟩ := exists_readsAs_map hn h
  exact ⟨_, hw.reads⟩

/-- A map is written and read member by member. -/
theorem roundTrip_map {ms : List (Bytes × Value)} (hs : SortedKeys ms)
    (hk : ∀ m ∈ ms, ValidUtf8 m.1) {w : Value} : roundTrip (.map ms) = some w ↔
      ∃ ws, w = .map ws ∧ List.Forall₂ (fun m p => m.1 = p.1 ∧ ReadsAs m.2 p.2) ms ws := by
  rw [roundTrip_eq_some]
  constructor
  · rintro ⟨j, htree, hdepth, hdec⟩
    rw [Value.tree, Option.map_eq_some_iff] at htree
    obtain ⟨qs, hqs, rfl⟩ := htree
    have hq := forall₂_treeMembers.mp hqs
    have hsorted : SortedKeys qs := sortedKeys_of_forall₂ (hq.imp fun _ _ h => h.1) hs
    rw [mapOf_of_sorted hsorted] at hdepth hdec
    rw [Json.decode, Option.map_eq_some_iff] at hdec
    obtain ⟨ws, hws, rfl⟩ := hdec
    rw [Json.decodeMembers_eq, traverse_eq_some, List.forall₂_map_left_iff] at hws
    have hall : List.Forall₂ (fun m p => m.1 = p.1 ∧ ReadsAs m.2 p.2) ms ws := by
      refine forall₂_trans hq hws fun m hm q hqs p hmq hqp => ?_
      rw [Option.map_eq_some_iff] at hqp
      obtain ⟨x, hx, rfl⟩ := hqp
      have hvalid : utf8 (runes m.1) = m.1 := hk m hm
      have hmem : (runes q.1, q.2) ∈ qs.map fun m => (runes m.1, m.2) :=
        List.mem_map.mpr ⟨q, hqs, rfl⟩
      have hlt : q.2.depth ≤ _ := Json.depth_le_depthMembers hmem
      rw [Json.depth] at hdepth
      exact ⟨by rw [← hmq.1, hvalid], q.2, hmq.2, hx, by omega⟩
    rw [mapOf_of_sorted (sortedKeys_of_forall₂ (hall.imp fun _ _ h => h.1) hs)]
    exact ⟨ws, rfl, hall⟩
  · rintro ⟨ws, rfl, hws⟩
    obtain ⟨qs, hq, hqw⟩ := exists_forall₂_between
      (R := fun (m : Bytes × Value) (q : Bytes × Json) => m.1 = q.1 ∧ m.2.tree = some q.2)
      (S := fun q (p : Bytes × Value) =>
        q.1 = p.1 ∧ q.2.decode = some p.2 ∧ q.2.depth < maxDepth)
      (hws.imp fun m p h => by
        obtain ⟨hkey, j, h1, h2, h3⟩ := h
        exact ⟨(m.1, j), ⟨rfl, h1⟩, hkey, h2, h3⟩)
    have hsorted : SortedKeys qs := sortedKeys_of_forall₂ (hq.imp fun _ _ h => h.1) hs
    have hdec : Json.decodeMembers (qs.map fun m => (runes m.1, m.2)) = some ws := by
      refine decodeMembers_of_forall₂ ?_
      rw [List.forall₂_map_left_iff]
      refine forall₂_imp_mem hqw fun q hmem p hqp => ?_
      obtain ⟨m, hm, hmq⟩ := mem_of_forall₂_right hq hmem
      have hvalid : utf8 (runes q.1) = q.1 := hmq.1 ▸ hk m hm
      exact ⟨hvalid.trans hqp.1, hqp.2.1⟩
    refine ⟨.obj (qs.map fun m => (runes m.1, m.2)), ?_, ?_, ?_⟩
    · rw [Value.tree, forall₂_treeMembers.mpr hq, Option.map_some, mapOf_of_sorted hsorted]
    · rw [Json.depth]
      have : Json.depthMembers (qs.map fun m => (runes m.1, m.2)) ≤ maxDepth - 1 := by
        refine Json.depthMembers_le fun m hm => ?_
        obtain ⟨q, hq, rfl⟩ := List.mem_map.mp hm
        obtain ⟨p, -, -, -, hlt⟩ := mem_of_forall₂_right hqw.flip hq
        exact Nat.le_sub_one_of_lt hlt
      have : 0 < maxDepth := by decide
      omega
    · rw [Json.decode, hdec, Option.map_some, mapOf_of_sorted
        (sortedKeys_of_forall₂ (hqw.imp fun _ _ h => h.1) hsorted)]

/-- **A map is normalised member by member.** -/
theorem normalForm_map {ms : List (Bytes × Value)} (hs : SortedKeys ms)
    (hk : ∀ m ∈ ms, ValidUtf8 m.1) {w : Value} : normalForm (.map ms) = some w ↔
      ∃ ws, w = .map ws ∧ List.Forall₂ (fun m p => m.1 = p.1 ∧ Reads m.2 p.2) ms ws := by
  simp only [normalForm_eq_some, roundTrip_map hs hk]
  constructor
  · rintro ⟨_, ⟨us, rfl, hus⟩, rfl⟩
    refine ⟨us.map fun m => (m.1, m.2.plainZeros), ?_, ?_⟩
    · rw [Value.plainZeros, Value.plainZerosMembers_eq]
    · rw [List.forall₂_map_right_iff]
      exact hus.imp fun _ _ h => ⟨h.1, h.2.reads⟩
  · rintro ⟨ws, rfl, hws⟩
    -- what the members are read as, before the zeros lose their signs
    obtain ⟨us, hus, huws⟩ := exists_forall₂_between
      (R := fun (m u : Bytes × Value) => m.1 = u.1 ∧ ReadsAs m.2 u.2)
      (S := fun (u p : Bytes × Value) => (u.1, u.2.plainZeros) = p)
      (hws.imp fun m p h => by
        obtain ⟨hkey, u, hu, hplain⟩ := h
        exact ⟨(m.1, u), ⟨rfl, hu⟩, Prod.ext hkey hplain⟩)
    refine ⟨.map us, ⟨us, rfl, hus⟩, ?_⟩
    have hmap : us.map (fun m => (m.1, m.2.plainZeros)) = ws := by
      rw [← List.forall₂_eq_eq_eq, List.forall₂_map_left_iff]
      exact huws
    rw [Value.plainZeros, Value.plainZerosMembers_eq, hmap]

/-! ## Canonical texts -/

/-- **The canonical text determines the value**, up to the sign of its zeros. -/
theorem canonical_injective {j j' : Json} {v v' : Value} (h : j.decode = some v)
    (h' : j'.decode = some v') (heq : canonical v = canonical v') :
    v.plainZeros = v'.plainZeros := by
  obtain ⟨c, hc, hdec⟩ := canonicalTree_of_decode j v h
  obtain ⟨c', hc', hdec'⟩ := canonicalTree_of_decode j' v' h'
  rw [canonical, canonical, hc, hc', Option.map_some, Option.map_some, Option.some.injEq] at heq
  have := Json.render_injective escapeOk_canonicalEscape (utf8_injective heq)
  rw [this, hdec', Option.some.injEq] at hdec
  exact hdec.symm

/-- A value that was read has a canonical text. -/
theorem canonical_isSome {j : Json} {v : Value} (h : j.decode = some v) :
    ∃ bs, canonical v = some bs := by
  obtain ⟨c, hc, -⟩ := canonicalTree_of_decode j v h
  exact ⟨_, by rw [canonical, hc]; rfl⟩

open Json.Scan in
/-- The canonical text of a map frames itself. -/
theorem framed_canonical {ms : List (Bytes × Value)} {bs : Bytes}
    (h : canonical (.map ms) = some bs) : Json.Framed bs := by
  rw [canonical, Option.map_eq_some_iff] at h
  obtain ⟨j, hj, rfl⟩ := h
  rw [Value.canonicalTree, Option.map_eq_some_iff] at hj
  obtain ⟨l, -, rfl⟩ := hj
  have hscan := scanOk_canonicalEscape
  have hbrace : ∀ cs, utf8 ('{' :: cs) = 0x7B :: utf8 cs := by
    intro cs
    rw [utf8_cons, utf8EncodeChar_ascii (by decide)]
    rfl
  rcases sortMembers l with _ | ⟨⟨k, x⟩, ms⟩
  · exact ⟨utf8 ['}'], hbrace _, rfl⟩
  · refine ⟨_, hbrace _, ?_⟩
    rw [utf8_append, run_append, Json.run_renderStr hscan k 0, Option.bind_some,
      Json.run_out_cons (by decide)]
    show run (out 1) _ = _
    rw [utf8_append, run_append, Json.run_render hscan x 0]
    exact Json.run_renderMembers hscan ms 0

end Infra
