import Logryph.Infra.GoJsonRoundtrip
import Logryph.Infra.History

/-!
# Reading JSON into a struct

`json.Unmarshal` with a struct as its target. A member goes to the field whose name it matches
without regard to case, later members overwrite earlier ones, and members that match no field are
skipped. A `null` leaves a string as it is and clears a map; an object is read into the map that is
already there.

* `unmarshalStruct` — for a function that sets a field by its name
* `setFields_inv` — what every assignment preserves holds after all of them
* `Object.Shallow.readsAs` — a map that was read is written and read back as itself
* `setFields_field` — a field holds what the members that match it make of it
* `eq_of_lastText`, `foldlM_intoMap` — which is the last string, or the entries that nothing
  overwrites or clears
-/

namespace Infra

namespace Json

/-- Simple folding, as far as it leads to ASCII: two letters outside of it do. -/
def foldChar (c : Char) : Char :=
  if c.toNat = 0x17F then 's' else if c.toNat = 0x212A then 'k' else c.toLower

/-- The name under which a member is looked up. -/
def foldName (name : List Char) : Bytes := utf8 (name.map foldChar)

/-- A value in the place of a string. -/
def intoString (old : Bytes) : Json → Option Bytes
  | .null => some old
  | .str s => some (utf8 s)
  | _ => none

/-- A value in the place of a map. -/
def intoMap (old : Object) : Json → Option Object
  | .null => some none
  | .obj ms => (decodeMembers ms).map fun l =>
    some (l.foldl (fun m p => m.insert p.1 p.2) (old.getD SortedMap.empty))
  | _ => none

/-- The members of an object, one after the other. -/
def setFields {σ : Type} (set : Bytes → Json → σ → Option σ) :
    List (List Char × Json) → σ → Option σ
  | [], r => some r
  | (name, x) :: ms, r =>
    match set (foldName name) x r with
    | none => none
    | some r => setFields set ms r

end Json

/-- `json.Unmarshal` into a struct that is `zero` before. -/
def unmarshalStruct {σ : Type} (set : Bytes → Json → σ → Option σ) (zero : σ) (bs : Bytes) :
    Option σ :=
  match readText bs with
  | some .null => some zero
  | some (.obj ms) => Json.setFields set ms zero
  | _ => none

open Json

/-- What is read into a struct: `null`, or the members of an object. -/
theorem unmarshalStruct_eq_some {σ : Type} {set : Bytes → Json → σ → Option σ} {zero r : σ}
    {bs : Bytes} : unmarshalStruct set zero bs = some r ↔
      readText bs = some .null ∧ zero = r ∨
        ∃ ms, readText bs = some (.obj ms) ∧ setFields set ms zero = some r := by
  unfold unmarshalStruct
  split
  · next h => simp [h]
  · next ms h => simp [h]
  · next hnull hobj =>
    refine iff_of_false (by simp) ?_
    rintro (⟨h, -⟩ | ⟨ms, h, -⟩)
    · exact hnull h
    · exact hobj ms h

/-! ## Invariants -/

/-- What every assignment preserves holds after all of them. -/
theorem setFields_inv {σ : Type} {set : Bytes → Json → σ → Option σ} {P : σ → Prop} :
    ∀ {ms : List (List Char × Json)} {r r' : σ}, setFields set ms r = some r' →
      (∀ m ∈ ms, ∀ name r r', P r → set name m.2 r = some r' → P r') → P r → P r'
  | [], r, r', h, _, hr => by
    cases h
    exact hr
  | (name, x) :: ms, r, r', h, hset, hr => by
    rw [setFields] at h
    split at h
    · cases h
    · next r₁ h₁ =>
      have hr₁ : P r₁ := hset (name, x) List.mem_cons_self _ r r₁ hr h₁
      exact setFields_inv h (fun m hm => hset m (List.mem_cons_of_mem _ hm)) hr₁

/-- The invariant rule for a struct: an assignment sees a value that is nested less deep than a
text can be. -/
theorem unmarshalStruct_inv {σ : Type} {set : Bytes → Json → σ → Option σ} {P : σ → Prop}
    {zero r : σ} {bs : Bytes} (h : unmarshalStruct set zero bs = some r)
    (hset : ∀ name x r r', x.depth < maxDepth → P r → set name x r = some r' → P r')
    (hzero : P zero) : P r := by
  unfold unmarshalStruct readText at h
  split at h
  · cases h
    exact hzero
  · next ms hms =>
    have hdepth : (Json.obj ms).depth ≤ maxDepth := by
      split at hms
      · split at hms
        · cases hms
          assumption
        · cases hms
      · cases hms
    refine setFields_inv h (fun m hm name r r' hr hs => hset name m.2 r r' ?_ hr hs) hzero
    have := depth_le_depthMembers hm
    rw [Json.depth] at hdepth
    omega
  · cases h

/-! ## Maps -/

/-- The values of the map were read from texts that are nested at most `n` deep. -/
def Object.Shallow (n : Nat) (o : Object) : Prop :=
  ∀ m, o = some m → ∀ p ∈ m.entries,
    (∃ k, p.1 = utf8 k) ∧ ∃ j : Json, j.decode = some p.2 ∧ j.depth ≤ n

theorem Object.shallow_none (n : Nat) : Object.Shallow n none := by
  intro m hm
  cases hm

theorem Object.shallow_foldl {n : Nat} : ∀ {l : List (Bytes × Value)} {m : SortedMap Bytes Value},
    (∀ p ∈ l, (∃ k, p.1 = utf8 k) ∧ ∃ j : Json, j.decode = some p.2 ∧ j.depth ≤ n) →
    Object.Shallow n (some m) →
    Object.Shallow n (some (l.foldl (fun m p => m.insert p.1 p.2) m))
  | [], _, _, hm => hm
  | q :: l, m, hl, hm => by
    rw [List.foldl_cons]
    refine Object.shallow_foldl (fun p hp => hl p (List.mem_cons_of_mem _ hp)) ?_
    intro m' hm' p hp
    cases hm'
    rcases mem_mapInsert hp with rfl | hp
    · exact hl q List.mem_cons_self
    · exact hm m rfl p hp

theorem Object.shallow_intoMap {n : Nat} {old o : Object} {x : Json} (h : intoMap old x = some o)
    (hdepth : x.depth ≤ n + 1) (hold : old.Shallow n) : o.Shallow n := by
  cases x with
  | null =>
    cases h
    exact Object.shallow_none n
  | obj ms =>
    rw [intoMap, Option.map_eq_some_iff] at h
    obtain ⟨l, hl, rfl⟩ := h
    rw [decodeMembers_eq, traverse_eq_some] at hl
    refine Object.shallow_foldl (fun p hp => ?_) ?_
    · obtain ⟨q, hq, hqp⟩ := mem_of_forall₂_right hl hp
      rw [Option.map_eq_some_iff] at hqp
      obtain ⟨v, hv, rfl⟩ := hqp
      have := depth_le_depthMembers hq
      rw [Json.depth] at hdepth
      exact ⟨⟨q.1, rfl⟩, q.2, hv, by omega⟩
    · cases old with
      | none =>
        intro m hm p hp
        cases hm
        cases hp
      | some m => exact hold
  | bool b => cases h
  | num d => cases h
  | negZero => cases h
  | str s => cases h
  | arr xs => cases h

/-- **A map that was read is written and read back as itself.** -/
theorem Object.Shallow.readsAs {n : Nat} {o : Object} (h : o.Shallow n) (hn : n + 1 < maxDepth) :
    ReadsAs o.value o.value := by
  cases o with
  | none => exact ⟨.null, rfl, rfl, show 0 < maxDepth by decide⟩
  | some m =>
    have hself : ∀ p ∈ m.entries, ∃ j : Json, p.2.tree = some j ∧ j.decode = some p.2 ∧
        j.depth ≤ n := by
      intro p hp
      obtain ⟨-, j, hdec, hle⟩ := h m rfl p hp
      obtain ⟨j', htree, hdec', hle'⟩ := tree_of_decode j p.2 hdec
      exact ⟨j', htree, hdec', hle'.trans hle⟩
    obtain ⟨w, hw⟩ := exists_readsAs_map hn fun p hp =>
      have ⟨j, htree, hdec, hle⟩ := hself p hp
      ⟨j, p.2, htree, hdec, hle⟩
    -- member by member, the map is read as what stands in it
    have hvalid : ∀ p ∈ m.entries, ValidUtf8 p.1 := by
      intro p hp
      obtain ⟨⟨k, hk⟩, -⟩ := h m rfl p hp
      rw [hk]
      exact validUtf8_utf8 k
    have hnf : roundTrip (.map m.entries) = some w := by
      obtain ⟨j, htree, hdec, hlt⟩ := hw
      exact roundTrip_eq_some.mpr ⟨j, htree, hlt.le, hdec⟩
    obtain ⟨ws, hws, hall⟩ := (roundTrip_map m.sorted hvalid).mp hnf
    have heq : m.entries = ws := by
      refine List.forall₂_eq_eq_eq ▸ forall₂_imp_mem hall fun p hp q hpq => ?_
      obtain ⟨j, htree, hdec, hle⟩ := hself p hp
      have hreads : ReadsAs p.2 p.2 := ⟨j, htree, hdec, by omega⟩
      exact Prod.ext hpq.1 (hreads.unique hpq.2)
    show ReadsAs (.map m.entries) (.map m.entries)
    rw [hws, ← heq] at hw
    exact hw

/-! ## One field

The members that match a field act on it one after the other, and nothing else does. -/

namespace Json

/-- The values that are read into a field, in their order. -/
def variants (field : Bytes) (ms : List (List Char × Json)) : List Json :=
  (ms.filter fun m => foldName m.1 = field).map Prod.snd

theorem mem_variants {field : Bytes} {ms : List (List Char × Json)} {x : Json} :
    x ∈ variants field ms ↔ ∃ name, (name, x) ∈ ms ∧ foldName name = field := by
  simp [variants]

/-- **A field holds what its members make of it**, one after the other. -/
theorem setFields_field {σ τ : Type} {set : Bytes → Json → σ → Option σ} {field : Bytes}
    {g : σ → τ} {into : τ → Json → Option τ}
    (hfield : ∀ x r r', set field x r = some r' → into (g r) x = some (g r'))
    (hother : ∀ name x r r', name ≠ field → set name x r = some r' → g r' = g r) :
    ∀ {ms : List (List Char × Json)} {r r' : σ}, setFields set ms r = some r' →
      (variants field ms).foldlM into (g r) = some (g r')
  | [], r, r', h => by
    cases h
    rfl
  | (name, x) :: ms, r, r', h => by
    rw [setFields] at h
    split at h
    · cases h
    · next r₁ h₁ =>
      have ih := setFields_field hfield hother h
      by_cases hname : foldName name = field
      · have hvariants : variants field ((name, x) :: ms) = x :: variants field ms := by
          simp [variants, hname]
        rw [hname] at h₁
        rw [hvariants, List.foldlM_cons, hfield x r r₁ h₁]
        exact ih
      · have hvariants : variants field ((name, x) :: ms) = variants field ms := by
          simp [variants, hname]
        rw [hvariants, ← hother _ x r r₁ hname h₁]
        exact ih

theorem foldlM_concat {τ : Type} {into : τ → Json → Option τ} {xs : List Json} {x : Json}
    {a b : τ} : (xs ++ [x]).foldlM into a = some b ↔
      ∃ c, xs.foldlM into a = some c ∧ into c x = some b := by
  simp [List.foldlM_append, Option.bind_eq_some_iff]

/-- Every value was accepted. -/
theorem exists_into_of_mem {τ : Type} {into : τ → Json → Option τ} {x : Json} :
    ∀ {xs : List Json} {a b : τ}, xs.foldlM into a = some b → x ∈ xs → ∃ c d, into c x = some d
  | y :: xs, a, b, h, hx => by
    rw [List.foldlM_cons] at h
    obtain ⟨c, hy, h⟩ := Option.bind_eq_some_iff.mp h
    rcases List.mem_cons.mp hx with rfl | hx
    · exact ⟨a, c, hy⟩
    · exact exists_into_of_mem h hx

/-- The last string of the values, with nothing but `null` after it. -/
def LastText (xs : List Json) (cs : List Char) : Prop :=
  ∃ before after, xs = before ++ .str cs :: after ∧ ∀ y ∈ after, y = .null

theorem foldlM_intoString_null : ∀ {xs : List Json} {old : Bytes}, (∀ y ∈ xs, y = .null) →
    xs.foldlM intoString old = some old
  | [], _, _ => rfl
  | x :: xs, old, h => by
    obtain rfl := h x List.mem_cons_self
    rw [List.foldlM_cons]
    exact foldlM_intoString_null fun y hy => h y (List.mem_cons_of_mem _ hy)

/-- A string field holds the last string. -/
theorem eq_of_lastText {xs : List Json} {cs : List Char} {old s : Bytes} (hlast : LastText xs cs)
    (h : xs.foldlM intoString old = some s) : s = utf8 cs := by
  obtain ⟨before, after, rfl, hnull⟩ := hlast
  rw [List.foldlM_append] at h
  obtain ⟨s₁, -, h⟩ := Option.bind_eq_some_iff.mp h
  rw [List.foldlM_cons] at h
  have hrest : after.foldlM intoString (utf8 cs) = some s := h
  rw [foldlM_intoString_null hnull, Option.some.injEq] at hrest
  exact hrest.symm

/-- A string field that has changed was given a string. -/
theorem exists_lastText {xs : List Json} {old : Bytes} : ∀ {s : Bytes},
    xs.foldlM intoString old = some s → s ≠ old → ∃ cs, LastText xs cs := by
  induction xs using List.reverseRecOn with
  | nil =>
    intro s h hne
    cases h
    exact absurd rfl hne
  | append_singleton xs x ih =>
    intro s h hne
    obtain ⟨s₁, hs₁, hx⟩ := foldlM_concat.mp h
    cases x with
    | null =>
      cases hx
      obtain ⟨cs, before, after, rfl, hnull⟩ := ih hs₁ hne
      refine ⟨cs, before, after ++ [.null], by simp, fun y hy => ?_⟩
      rcases List.mem_append.mp hy with hy | hy
      · exact hnull y hy
      · exact List.mem_singleton.mp hy
    | str cs => exact ⟨cs, xs, [], rfl, fun y hy => absurd hy List.not_mem_nil⟩
    | bool b => cases hx
    | num d => cases hx
    | negZero => cases hx
    | arr xs => cases hx
    | obj ms => cases hx

/-- An entry of an object that is read into a map, which no later object has and no later `null`
clears. -/
def LastEntry (xs : List Json) (k : Bytes) (v : Value) : Prop :=
  ∃ before ps after l, xs = before ++ .obj ps :: after ∧ decodeMembers ps = some l ∧
    IsLatest l k v ∧ .null ∉ after ∧ ∀ ps', .obj ps' ∈ after → ∀ x name, (name, x) ∈ ps' →
      utf8 name ≠ k

theorem lastEntry_concat {xs : List Json} {x : Json} {k : Bytes} {v : Value} :
    LastEntry (xs ++ [x]) k v ↔
      (∃ ps l, x = .obj ps ∧ decodeMembers ps = some l ∧ IsLatest l k v) ∨
      x ≠ .null ∧ (∀ ps, x = .obj ps → ∀ y name, (name, y) ∈ ps → utf8 name ≠ k) ∧
        LastEntry xs k v := by
  constructor
  · rintro ⟨before, ps, after, l, h, hl, hlatest, hnull, hother⟩
    rcases List.eq_nil_or_concat after with rfl | ⟨after, y, rfl⟩
    · obtain ⟨-, heq⟩ := List.append_inj' h rfl
      cases heq
      exact .inl ⟨ps, l, rfl, hl, hlatest⟩
    · rw [List.concat_eq_append] at h hnull hother
      rw [← List.cons_append, ← List.append_assoc] at h
      obtain ⟨rfl, heq⟩ := List.append_inj' h rfl
      cases heq
      refine .inr ⟨?_, ?_, before, ps, after, l, rfl, hl, hlatest, ?_, ?_⟩
      · rintro rfl
        exact hnull (by simp)
      · rintro ps' rfl
        exact hother ps' (by simp)
      · exact fun hmem => hnull (by simp [hmem])
      · exact fun ps' hmem => hother ps' (by simp [hmem])
  · rintro (⟨ps, l, rfl, hl, hlatest⟩ |
      ⟨hne, hkey, before, ps, after, l, rfl, hl, hlatest, hnull, hother⟩)
    · exact ⟨xs, ps, [], l, rfl, hl, hlatest, List.not_mem_nil,
        fun ps' hmem => absurd hmem List.not_mem_nil⟩
    · refine ⟨before, ps, after ++ [x], l, by simp, hl, hlatest, ?_, ?_⟩
      · intro hmem
        rcases List.mem_append.mp hmem with hmem | hmem
        · exact hnull hmem
        · exact hne (List.mem_singleton.mp hmem).symm
      · intro ps' hmem
        rcases List.mem_append.mp hmem with hmem | hmem
        · exact hother ps' hmem
        · exact hkey ps' (List.mem_singleton.mp hmem).symm

/-- The names of an object are those of the map that is read from it. -/
theorem isSome_mapGet_decodeMembers {ps : List (List Char × Json)} {l : List (Bytes × Value)}
    (h : decodeMembers ps = some l) (k : Bytes) :
    (mapGet k (mapOf l)).isSome ↔ ∃ name, utf8 name = k ∧ ∃ x, (name, x) ∈ ps := by
  rw [Option.isSome_iff_exists]
  simp only [mapGet_mapOf_iff, exists_isLatest]
  rw [decodeMembers_eq, traverse_eq_some] at h
  constructor
  · rintro ⟨v, hv⟩
    obtain ⟨⟨name, x⟩, hm, hmp⟩ := mem_of_forall₂_right h hv
    obtain ⟨w, -, heq⟩ := Option.map_eq_some_iff.mp hmp
    cases heq
    exact ⟨name, rfl, x, hm⟩
  · rintro ⟨name, rfl, x, hx⟩
    obtain ⟨p, hp, hmp⟩ := mem_of_forall₂_right h.flip hx
    obtain ⟨w, -, rfl⟩ := Option.map_eq_some_iff.mp hmp
    exact ⟨w, hp⟩

/-- One more value in the place of a map. -/
theorem intoMap_spec {old o : Object} {x : Json} (h : intoMap old x = some o) (k : Bytes)
    (v : Value) : (o.bind fun m => m.get? k) = some v ↔
      (∃ ps l, x = .obj ps ∧ decodeMembers ps = some l ∧ IsLatest l k v) ∨
      x ≠ .null ∧ (∀ ps, x = .obj ps → ∀ y name, (name, y) ∈ ps → utf8 name ≠ k) ∧
        (old.bind fun m => m.get? k) = some v := by
  cases x with
  | null =>
    cases h
    simp
  | obj ps =>
    rw [intoMap, Option.map_eq_some_iff] at h
    obtain ⟨l, hl, rfl⟩ := h
    have hbase : (old.getD SortedMap.empty).get? k = old.bind fun m => m.get? k := by
      cases old <;> rfl
    have hentry : (∃ ps' l', Json.obj ps = .obj ps' ∧ decodeMembers ps' = some l' ∧
        IsLatest l' k v) ↔ mapGet k (mapOf l) = some v := by
      simp [hl, mapGet_mapOf_iff]
    have hkey : (∀ ps', Json.obj ps = .obj ps' → ∀ y name, (name, y) ∈ ps' → utf8 name ≠ k) ↔
        mapGet k (mapOf l) = none := by
      rw [← Option.not_isSome_iff_eq_none, isSome_mapGet_decodeMembers hl]
      constructor
      · rintro h ⟨name, hname, x, hx⟩
        exact h ps rfl x name hx hname
      · rintro h ps' heq x name hx hname
        cases heq
        exact h ⟨name, hname, x, hx⟩
    rw [Option.bind_some, get?_foldl_insert, hbase, hentry, hkey]
    cases mapGet k (mapOf l) <;> simp
  | bool b => cases h
  | num d => cases h
  | negZero => cases h
  | arr xs => cases h
  | str cs => cases h

/-- **A map field has the entries that nothing overwrites or clears**, and is nil unless an object
was read last. -/
theorem foldlM_intoMap {xs : List Json} : ∀ {o : Object}, xs.foldlM intoMap none = some o →
    (o.isSome ↔ ∃ before ps, xs = before ++ [.obj ps]) ∧
      ∀ k v, (o.bind fun m => m.get? k) = some v ↔ LastEntry xs k v := by
  induction xs using List.reverseRecOn with
  | nil =>
    intro o h
    cases h
    simp [LastEntry]
  | append_singleton xs x ih =>
    intro o h
    obtain ⟨old, hold, hx⟩ := foldlM_concat.mp h
    refine ⟨?_, fun k v => ?_⟩
    · cases x with
      | null =>
        cases hx
        simp
      | obj ps =>
        obtain ⟨l, -, rfl⟩ := Option.map_eq_some_iff.mp hx
        simp
      | bool b => cases hx
      | num d => cases hx
      | negZero => cases hx
      | arr xs => cases hx
      | str cs => cases hx
    · rw [intoMap_spec hx, lastEntry_concat, (ih hold).2]

end Json

end Infra
