import Logryph.Infra.Transition
import Logryph.Ring

/-!
# The ring buffer is a queue

What `ring.Buffer` is for: a queue of a bounded number of items, of which the oldest leaves first.
The queue knows nothing of indices and slots.

* `BoundedQueue` — the queue, with its bound
* `Buffer.exec_queue` — one operation: the buffer answers as the queue does, and holds its items
* `Buffer.refines_queue` — so does every sequence of operations on a new buffer
-/

namespace Logryph

open Infra

variable {α : Type}

/-- The operations of a buffer. -/
inductive BufferOp (α : Type) where
  | push (item : α)
  | pop
  | isFull
  | isEmpty
  | len
  | cap

/-- What an operation returns. -/
inductive BufferResult (α : Type) where
  | push (err : Except Fault Unit)
  | pop (item : Except Fault α)
  | isFull (full : Bool)
  | isEmpty (empty : Bool)
  | len (n : Nat)
  | cap (n : Nat)

/-- An operation on the buffer. -/
def Buffer.exec (strict : Bool) (b : Buffer α) : BufferOp α → BufferResult α × Buffer α
  | .push item => (.push (b.push strict item).1, (b.push strict item).2)
  | .pop => (.pop (b.pop strict).1, (b.pop strict).2)
  | .isFull => (.isFull b.isFull, b)
  | .isEmpty => (.isEmpty b.isEmpty, b)
  | .len => (.len b.len, b)
  | .cap => (.cap b.cap, b)

/-! ## The queue -/

/-- A queue of at most `c` items, the oldest first. -/
structure BoundedQueue (α : Type) (c : Nat) where
  items : List α
  length_le : items.length ≤ c

namespace BoundedQueue

variable {c : Nat}

def empty : BoundedQueue α c := ⟨[], Nat.zero_le c⟩

/-- An item joins at the end, if there is room. -/
def push (q : BoundedQueue α c) (item : α) : Except Fault Unit × BoundedQueue α c :=
  if h : q.items.length < c then
    (.ok (), ⟨q.items ++ [item], by rw [List.length_append]; exact h⟩)
  else (.error Buffer.errBufferFull, q)

/-- The oldest item leaves, if there is one. -/
def pop (q : BoundedQueue α c) : Except Fault α × BoundedQueue α c :=
  match q.items, q.length_le with
  | [], _ => (.error Buffer.errBufferEmpty, q)
  | item :: items, h => (.ok item, ⟨items, (Nat.le_succ _).trans h⟩)

def exec (q : BoundedQueue α c) : BufferOp α → BufferResult α × BoundedQueue α c
  | .push item => (.push (q.push item).1, (q.push item).2)
  | .pop => (.pop q.pop.1, q.pop.2)
  | .isFull => (.isFull (q.items.length = c), q)
  | .isEmpty => (.isEmpty q.items.isEmpty, q)
  | .len => (.len q.items.length, q)
  | .cap => (.cap c, q)

end BoundedQueue

namespace Buffer

variable (strict : Bool) {c : Nat} {b : Buffer α} {q : BoundedQueue α c}

/-- The buffer has the capacity of the queue, and its items. -/
structure Represents (b : Buffer α) (q : BoundedQueue α c) : Prop where
  holds : b.Holds q.items
  capacity : b.capacity = c

namespace Represents

theorem push (h : b.Represents q) (item : α) :
    (b.push strict item).1 = (q.push item).1 ∧
      (b.push strict item).2.Represents (q.push item).2 := by
  unfold BoundedQueue.push
  by_cases hroom : q.items.length < c
  · obtain ⟨b', hpush, hholds, hcap⟩ :=
      push_ok strict h.holds (h.capacity.symm ▸ hroom) item
    rw [dif_pos hroom, hpush]
    exact ⟨rfl, hholds, hcap.trans h.capacity⟩
  · have hfull : q.items.length = b.capacity := by
      rw [h.capacity]
      exact Nat.le_antisymm q.length_le (Nat.not_lt.mp hroom)
    rw [dif_neg hroom, push_full strict h.holds hfull item]
    exact ⟨rfl, h⟩

theorem pop (h : b.Represents q) :
    (b.pop strict).1 = q.pop.1 ∧ (b.pop strict).2.Represents q.pop.2 := by
  obtain ⟨items, hlen⟩ := q
  obtain ⟨hholds, hcap⟩ := h
  cases items with
  | nil =>
    rw [pop_empty strict hholds]
    exact ⟨rfl, hholds, hcap⟩
  | cons item items =>
    obtain ⟨b', hpop, hholds', hcap'⟩ := pop_ok strict hholds
    rw [hpop]
    exact ⟨rfl, hholds', hcap'.trans hcap⟩

/-- The assertions of `Push` and `Pop` hold, whether or not they are reached. -/
theorem inRange (h : b.Represents q) :
    Logryph.inRange strict b.tail 0 (b.capacity - 1) (lit "tail index") = .ok () ∧
      Logryph.inRange strict b.head 0 (b.capacity - 1) (lit "head index") = .ok () := by
  have htail := h.holds.tail_lt
  have hhead := h.holds.head_lt
  exact ⟨inRange_eq_ok (by omega) (by omega), inRange_eq_ok (by omega) (by omega)⟩

end Represents

/-- **One operation.** -/
theorem exec_queue (op : BufferOp α) (h : b.Represents q) :
    (b.exec strict op).1 = (q.exec op).1 ∧ (b.exec strict op).2.Represents (q.exec op).2 := by
  cases op with
  | push item =>
    obtain ⟨hresult, hnext⟩ := h.push strict item
    exact ⟨congrArg BufferResult.push hresult, hnext⟩
  | pop =>
    obtain ⟨hresult, hnext⟩ := h.pop strict
    exact ⟨congrArg BufferResult.pop hresult, hnext⟩
  | isFull =>
    refine ⟨congrArg BufferResult.isFull (Bool.eq_iff_iff.mpr ?_), h⟩
    rw [h.holds.isFull_iff, h.capacity, decide_eq_true_eq]
  | isEmpty =>
    refine ⟨congrArg BufferResult.isEmpty (Bool.eq_iff_iff.mpr ?_), h⟩
    rw [h.holds.isEmpty_iff, List.isEmpty_iff]
  | len => exact ⟨congrArg BufferResult.len h.holds.count_eq, h⟩
  | cap => exact ⟨congrArg BufferResult.cap h.capacity, h⟩

/-- A new buffer is an empty queue. -/
theorem exists_new (zero : α) (hc : 0 < c) :
    ∃ b : Buffer α, new strict zero c = .ok b ∧ b.Represents (.empty : BoundedQueue α c) := by
  have hok : new strict zero (c : Int) = .ok ⟨List.replicate c zero, c, 0, 0, 0⟩ := by
    have hpos : decide ((0 : Int) < c) = true := by simpa using hc
    simp only [new, hpos, check_true]
    rfl
  exact ⟨_, hok, (holds_new hok).1, rfl⟩

/-- **The ring buffer refines a bounded queue.** A new buffer answers every sequence of operations
as the queue does. After each of them it holds the items of the queue, the two range assertions
hold, and the tail is as many slots after the head as there are items. -/
theorem refines_queue (zero : α) (hc : 0 < c) (ops : List (BufferOp α)) :
    ∃ b : Buffer α, new strict zero c = .ok b ∧
      (answers (exec strict) b ops).1 =
        (answers BoundedQueue.exec (.empty : BoundedQueue α c) ops).1 ∧
      ∀ done, done <+: ops →
        let b' := (answers (exec strict) b done).2
        b'.Holds (answers BoundedQueue.exec (.empty : BoundedQueue α c) done).2.items ∧
        inRange strict b'.tail 0 (b'.capacity - 1) (lit "tail index") = .ok () ∧
        inRange strict b'.head 0 (b'.capacity - 1) (lit "head index") = .ok () ∧
        b'.capacity = c ∧ b'.count ≤ c ∧ b'.tail = (b'.head + b'.count) % c := by
  obtain ⟨b, hnew, hempty⟩ := exists_new strict zero hc
  have hsim := fun ops : List (BufferOp α) =>
    answers_simulation (Represents (c := c)) (exec_queue strict) ops hempty
  refine ⟨b, hnew, (hsim ops).1, fun done _ => ?_⟩
  have hdone := (hsim done).2
  obtain ⟨htail, hhead⟩ := hdone.inRange strict
  refine ⟨hdone.holds, htail, hhead, hdone.capacity, ?_, ?_⟩
  · rw [hdone.holds.count_eq]
    exact BoundedQueue.length_le _
  · rw [← hdone.capacity]
    exact hdone.holds.tail_eq

/-- Two slots: the third item is refused, and the tail goes round. -/
theorem refines_queue_two : ∃ b : Buffer Nat, new true 0 2 = .ok b ∧
    (answers (exec true) b [.push 1, .push 2, .push 3, .pop, .push 4, .len, .pop, .pop, .pop]).1 =
      [.push (.ok ()), .push (.ok ()), .push (.error errBufferFull), .pop (.ok 1), .push (.ok ()),
        .len 2, .pop (.ok 2), .pop (.ok 4), .pop (.error errBufferEmpty)] := by
  obtain ⟨b, hnew, hanswers, -⟩ := refines_queue true 0 (show 0 < 2 by decide)
    [.push 1, .push 2, .push 3, .pop, .push 4, .len, .pop, .pop, .pop]
  exact ⟨b, hnew, hanswers⟩

end Buffer

end Logryph
