import Logryph.Assert
import Mathlib.Data.Nat.ModEq

/-!
# The ring buffer

`ring.Buffer`: a fixed array with the index of the oldest item, the index of the next free slot and
a count. Every operation holds the lock from start to end, so it is one step.

* `Buffer.Holds` — the array holds a list of items, oldest first
* `Buffer.push_ok`, `Buffer.pop_ok` — the operations on that list; the range assertions never trip
-/

namespace Logryph

open Infra

/-- `ring.Buffer`. -/
structure Buffer (α : Type) where
  data : List α
  capacity : Nat
  head : Nat
  tail : Nat
  count : Nat

namespace Buffer

variable {α : Type}

/-- `ring.ErrBufferFull`. -/
def errBufferFull : Fault := .error (lit "ring buffer is full")

/-- `ring.ErrBufferEmpty`. -/
def errBufferEmpty : Fault := .error (lit "ring buffer is empty")

/-- `ring.New`. The slots start with the zero value of the item type. -/
def new (strict : Bool) (zero : α) (capacity : Int) : Except Fault (Buffer α) := do
  check strict (0 < capacity) (lit "capacity must be positive")
  .ok ⟨List.replicate capacity.toNat zero, capacity.toNat, 0, 0, 0⟩

/-- `Push`. -/
def push (strict : Bool) (b : Buffer α) (item : α) : Except Fault Unit × Buffer α :=
  if b.count = b.capacity then (.error errBufferFull, b)
  else
    match inRange strict b.tail 0 (b.capacity - 1) (lit "tail index") with
    | .error f => (.error f, b)
    | .ok () =>
      (.ok (), { b with
        data := b.data.set b.tail item
        tail := (b.tail + 1) % b.capacity
        count := b.count + 1 })

/-- `Pop`. The slot keeps its item. -/
def pop (strict : Bool) (b : Buffer α) : Except Fault α × Buffer α :=
  if b.count = 0 then (.error errBufferEmpty, b)
  else
    match inRange strict b.head 0 (b.capacity - 1) (lit "head index") with
    | .error f => (.error f, b)
    | .ok () =>
      match b.data[b.head]? with
      | none => (.error (.panic (lit "index out of range")), b)
      | some item =>
        (.ok item, { b with head := (b.head + 1) % b.capacity, count := b.count - 1 })

def isFull (b : Buffer α) : Bool := b.count = b.capacity

def isEmpty (b : Buffer α) : Bool := b.count = 0

def len (b : Buffer α) : Nat := b.count

def cap (b : Buffer α) : Nat := b.capacity

/-! ## The items -/

/-- The buffer holds the items `q`, oldest first. -/
structure Holds (b : Buffer α) (q : List α) : Prop where
  pos : 0 < b.capacity
  data_length : b.data.length = b.capacity
  head_lt : b.head < b.capacity
  tail_eq : b.tail = (b.head + b.count) % b.capacity
  count_eq : b.count = q.length
  length_le : q.length ≤ b.capacity
  get : ∀ i x, q[i]? = some x → b.data[(b.head + i) % b.capacity]? = some x

theorem holds_new {strict : Bool} {zero : α} {capacity : Int} {b : Buffer α}
    (h : new strict zero capacity = .ok b) : b.Holds [] ∧ (b.capacity : Int) = capacity := by
  rw [new, bind_eq_ok] at h
  obtain ⟨u, hpos, hb⟩ := h
  rw [check_eq_ok, decide_eq_true_eq] at hpos
  cases hb
  have hcap : 0 < capacity.toNat := by omega
  refine ⟨⟨hcap, List.length_replicate, hcap, ?_, rfl, Nat.zero_le _, ?_⟩, ?_⟩
  · exact (Nat.mod_eq_of_lt hcap).symm
  · intro i x hx
    cases hx
  · show (capacity.toNat : Int) = capacity
    omega

namespace Holds

variable {b : Buffer α} {q : List α}

theorem tail_lt (h : b.Holds q) : b.tail < b.capacity := by
  rw [h.tail_eq]
  exact Nat.mod_lt _ h.pos

theorem isEmpty_iff (h : b.Holds q) : b.isEmpty = true ↔ q = [] := by
  rw [isEmpty, decide_eq_true_eq, h.count_eq, List.length_eq_zero_iff]

theorem isFull_iff (h : b.Holds q) : b.isFull = true ↔ q.length = b.capacity := by
  rw [isFull, decide_eq_true_eq, h.count_eq]

end Holds

/-- Two slots that are less than a round apart are different. -/
theorem slot_ne {head cap i j : Nat} (hij : i < j) (hj : j < cap) :
    (head + i) % cap ≠ (head + j) % cap := by
  intro heq
  have hmod : i ≡ j [MOD cap] := Nat.ModEq.add_left_cancel' head heq
  rw [Nat.ModEq, Nat.mod_eq_of_lt (hij.trans hj), Nat.mod_eq_of_lt hj] at hmod
  omega

/-- **`Push` adds the item at the end**, if there is room. -/
theorem push_ok (strict : Bool) {b : Buffer α} {q : List α} (h : b.Holds q)
    (hroom : q.length < b.capacity) (item : α) : ∃ b', b.push strict item = (.ok (), b') ∧
      b'.Holds (q ++ [item]) ∧ b'.capacity = b.capacity := by
  have htail := h.tail_lt
  have hne : b.count ≠ b.capacity := by
    rw [h.count_eq]
    omega
  unfold push
  rw [if_neg hne, inRange_eq_ok (by omega) (by omega)]
  refine ⟨_, rfl, ⟨h.pos, ?_, h.head_lt, ?_, ?_, ?_, ?_⟩, rfl⟩
  · rw [List.length_set]
    exact h.data_length
  · show (b.tail + 1) % b.capacity = (b.head + (b.count + 1)) % b.capacity
    rw [h.tail_eq, Nat.mod_add_mod, Nat.add_assoc]
  · simp [h.count_eq]
  · simp
    omega
  · intro i x hx
    show (b.data.set b.tail item)[(b.head + i) % b.capacity]? = some x
    -- the new item stands at the tail, and no older one does
    rcases lt_trichotomy i q.length with hi | hi | hi
    · rw [List.getElem?_append_left hi] at hx
      rw [List.getElem?_set_ne, h.get i x hx]
      rw [h.tail_eq, h.count_eq]
      exact (slot_ne hi hroom).symm
    · subst hi
      rw [List.getElem?_concat_length] at hx
      rw [← h.count_eq, ← h.tail_eq, List.getElem?_set_self (by rw [h.data_length]; exact htail)]
      exact hx
    · rw [List.getElem?_eq_none (by simp; omega)] at hx
      cases hx

/-- A full buffer refuses the item. -/
theorem push_full (strict : Bool) {b : Buffer α} {q : List α} (h : b.Holds q)
    (hfull : q.length = b.capacity) (item : α) :
    b.push strict item = (.error errBufferFull, b) := by
  unfold push
  rw [if_pos (by rw [h.count_eq, hfull])]

/-- **`Pop` takes the oldest item.** -/
theorem pop_ok (strict : Bool) {b : Buffer α} {item : α} {q : List α} (h : b.Holds (item :: q)) :
    ∃ b', b.pop strict = (.ok item, b') ∧ b'.Holds q ∧ b'.capacity = b.capacity := by
  have hhead := h.head_lt
  have hcount := h.count_eq
  have hle := h.length_le
  rw [List.length_cons] at hcount hle
  have hget : b.data[b.head]? = some item := by
    have := h.get 0 item rfl
    rwa [Nat.add_zero, Nat.mod_eq_of_lt hhead] at this
  unfold pop
  rw [if_neg (by omega), inRange_eq_ok (by omega) (by omega)]
  dsimp only
  rw [hget]
  refine ⟨_, rfl, ⟨h.pos, h.data_length, Nat.mod_lt _ h.pos, ?_, ?_, ?_, ?_⟩, rfl⟩
  · show b.tail = ((b.head + 1) % b.capacity + (b.count - 1)) % b.capacity
    rw [h.tail_eq, Nat.mod_add_mod]
    congr 1
    omega
  · show b.count - 1 = q.length
    omega
  · show q.length ≤ b.capacity
    omega
  · intro i x hx
    show b.data[((b.head + 1) % b.capacity + i) % b.capacity]? = some x
    rw [Nat.mod_add_mod, Nat.add_assoc, Nat.add_comm 1 i]
    exact h.get (i + 1) x hx

/-- An empty buffer has nothing to give. -/
theorem pop_empty (strict : Bool) {b : Buffer α} (h : b.Holds []) :
    b.pop strict = (.error errBufferEmpty, b) := by
  have hcount : b.count = 0 := h.count_eq
  unfold pop
  rw [if_pos hcount]

end Buffer

end Logryph
