import Logryph.Infra.Bytes

/-!
# Byte buffers in memory

`bytes.Buffer` on a heap of byte arrays. A slice of a buffer is the array of the buffer, so what
is written to the buffer later is seen through the slice, until the buffer grows and moves to an
array of its own.

* `readFrom_contents` — `ReadFrom` appends what it reads
* `Moves` — what filling a buffer leaves alone: all arrays but its own
-/

namespace Infra

/-- Byte arrays by address. What can be reached is never freed. -/
structure Heap where
  arrays : List Bytes

namespace Heap

/-- The slice of an array up to a length. -/
def read (h : Heap) (addr len : Nat) : Bytes := ((h.arrays[addr]?).getD []).take len

/-- A new array, at the next address. -/
def alloc (h : Heap) (bytes : Bytes) : Heap := ⟨h.arrays ++ [bytes]⟩

/-- Overwrites a part of an array. -/
def write (h : Heap) (addr off : Nat) (bytes : Bytes) : Heap :=
  ⟨h.arrays.modify addr fun old => old.take off ++ bytes ++ old.drop (off + bytes.length)⟩

end Heap

/-- `bytes.Buffer`, with nothing read off its front. -/
structure GoBuffer where
  addr : Nat
  cap : Nat
  len : Nat

/-- `bytes.MinRead`. -/
def minRead : Nat := 512

namespace GoBuffer

/-- What is in the buffer. -/
def contents (h : Heap) (b : GoBuffer) : Bytes := h.read b.addr b.len

/-- `grow(MinRead)`: the array is kept while there is room. A new one is at least twice as large;
the allocator rounds its size up by some `slack`. -/
def grow (slack : Nat → Nat) (h : Heap) (b : GoBuffer) : Heap × GoBuffer :=
  if b.len + minRead ≤ b.cap then (h, b)
  else
    let c := max (b.len + minRead) (2 * b.cap)
    let cap := c + slack c
    (h.alloc (b.contents h ++ List.replicate (cap - b.len) 0), ⟨h.arrays.length, cap, b.len⟩)

/-- The loop of `ReadFrom`. A read gives at most the next of the `sizes`, and no more than there is
room for. The end of the data comes with the last bytes, or `eofAlone` in a read of its own. -/
def readLoop (slack : Nat → Nat) (eofAlone : Bool) :
    Nat → List Nat → Bytes → Heap → GoBuffer → Heap × GoBuffer
  | 0, _, _, h, b => (h, b)
  | n + 1, sizes, data, h, b =>
    let (h, b) := grow slack h b
    if data.isEmpty then (h, b)
    else
      let m := min (max 1 (sizes.headD data.length)) (b.cap - b.len)
      let h := h.write b.addr b.len (data.take m)
      let b := { b with len := b.len + (data.take m).length }
      if (data.drop m).isEmpty && !eofAlone then (h, b)
      else readLoop slack eofAlone n sizes.tail (data.drop m) h b

/-- `ReadFrom`. -/
def readFrom (slack : Nat → Nat) (eofAlone : Bool) (sizes : List Nat) (data : Bytes) (h : Heap)
    (b : GoBuffer) : Heap × GoBuffer :=
  readLoop slack eofAlone (data.length + 1) sizes data h b

/-- The buffer has an array of its capacity. -/
structure Wf (h : Heap) (b : GoBuffer) : Prop where
  array : ∃ array, h.arrays[b.addr]? = some array ∧ array.length = b.cap
  len_le : b.len ≤ b.cap

theorem Wf.addr_lt {h : Heap} {b : GoBuffer} (hb : b.Wf h) : b.addr < h.arrays.length := by
  obtain ⟨array, harray, -⟩ := hb.array
  exact (List.getElem?_eq_some_iff.mp harray).1

theorem Wf.length_contents {h : Heap} {b : GoBuffer} (hb : b.Wf h) :
    (b.contents h).length = b.len := by
  obtain ⟨array, harray, hlen⟩ := hb.array
  rw [contents, Heap.read, harray, Option.getD_some, List.length_take, hlen]
  exact Nat.min_eq_left hb.len_le

/-! ## What is left alone -/

/-- Filling a buffer changes its own array and adds new ones; the buffer ends up in one of
these. No array changes its size. -/
structure Moves (h : Heap) (b : GoBuffer) (h' : Heap) (b' : GoBuffer) : Prop where
  wf : b'.Wf h'
  length_le : h.arrays.length ≤ h'.arrays.length
  same : ∀ a < h.arrays.length, a ≠ b.addr → h'.arrays[a]? = h.arrays[a]?
  size : ∀ a < h.arrays.length, (h'.arrays[a]?).map List.length = (h.arrays[a]?).map List.length
  addr : b'.addr = b.addr ∨ h.arrays.length ≤ b'.addr

theorem Moves.trans {h₁ h₂ h₃ : Heap} {b₁ b₂ b₃ : GoBuffer} (h : Moves h₁ b₁ h₂ b₂)
    (h' : Moves h₂ b₂ h₃ b₃) : Moves h₁ b₁ h₃ b₃ where
  wf := h'.wf
  length_le := h.length_le.trans h'.length_le
  same := by
    intro a ha hne
    have hne' : a ≠ b₂.addr := by
      rcases h.addr with haddr | haddr
      · rw [haddr]
        exact hne
      · omega
    rw [h'.same a (ha.trans_le h.length_le) hne', h.same a ha hne]
  size := fun a ha => by rw [h'.size a (ha.trans_le h.length_le), h.size a ha]
  addr := by
    have := h.length_le
    rcases h'.addr with haddr | haddr
    · rw [haddr]
      exact h.addr
    · exact Or.inr (by omega)

/-- A slice of another array is as it was. -/
theorem Moves.read_eq {h h' : Heap} {b b' : GoBuffer} (hm : Moves h b h' b') {addr : Nat}
    (hlt : addr < h.arrays.length) (hne : addr ≠ b.addr) (len : Nat) :
    h'.read addr len = h.read addr len := by
  rw [Heap.read, Heap.read, hm.same addr hlt hne]

/-- Every other buffer still has an array of its capacity. -/
theorem Moves.wf_of_wf {h h' : Heap} {b b' b₀ : GoBuffer} (hm : Moves h b h' b') (hb : b₀.Wf h) :
    b₀.Wf h' := by
  refine ⟨?_, hb.len_le⟩
  obtain ⟨array, harray, hlen⟩ := hb.array
  have hsize := hm.size b₀.addr hb.addr_lt
  rw [harray, Option.map_some, Option.map_eq_some_iff] at hsize
  obtain ⟨array', harray', hlen'⟩ := hsize
  exact ⟨array', harray', hlen'.trans hlen⟩

/-! ## ReadFrom -/

theorem grow_spec (slack : Nat → Nat) {h : Heap} {b : GoBuffer} (hb : b.Wf h) :
    Moves h b (grow slack h b).1 (grow slack h b).2 ∧
      (grow slack h b).2.contents (grow slack h b).1 = b.contents h ∧
      (grow slack h b).2.len = b.len ∧ b.len + minRead ≤ (grow slack h b).2.cap := by
  unfold grow
  split
  · next hroom =>
    exact ⟨⟨hb, Nat.le_refl _, fun _ _ _ => rfl, fun _ _ => rfl, Or.inl rfl⟩, rfl, rfl, hroom⟩
  · dsimp only
    generalize hc : max (b.len + minRead) (2 * b.cap) = c
    have hle : b.len + minRead ≤ c := by
      rw [← hc]
      exact Nat.le_max_left _ _
    have hnew : (h.alloc (b.contents h ++ List.replicate (c + slack c - b.len) 0)).arrays[
        h.arrays.length]? = some (b.contents h ++ List.replicate (c + slack c - b.len) 0) :=
      List.getElem?_concat_length
    refine ⟨⟨⟨⟨_, hnew, ?_⟩, ?_⟩, ?_, ?_, ?_, Or.inr (Nat.le_refl _)⟩, ?_, rfl, ?_⟩
    · rw [List.length_append, List.length_replicate, hb.length_contents]
      show b.len + (c + slack c - b.len) = c + slack c
      omega
    · show b.len ≤ c + slack c
      omega
    · simp [Heap.alloc]
    · intro a ha _
      exact List.getElem?_append_left ha
    · intro a ha
      rw [Heap.alloc, List.getElem?_append_left ha]
    · rw [contents, Heap.read, hnew, Option.getD_some]
      exact List.take_left' hb.length_contents
    · show b.len + minRead ≤ c + slack c
      omega

/-- Bytes are appended where there is room. -/
theorem write_spec {h : Heap} {b : GoBuffer} (hb : b.Wf h) (bytes : Bytes)
    (hroom : b.len + bytes.length ≤ b.cap) :
    Moves h b (h.write b.addr b.len bytes) { b with len := b.len + bytes.length } ∧
      contents (h.write b.addr b.len bytes) { b with len := b.len + bytes.length }
        = b.contents h ++ bytes := by
  obtain ⟨array, harray, hlen⟩ := hb.array
  have hwrite : (h.write b.addr b.len bytes).arrays[b.addr]?
      = some (array.take b.len ++ bytes ++ array.drop (b.len + bytes.length)) := by
    rw [Heap.write, List.getElem?_modify_eq, harray]
    rfl
  have hlen' : (array.take b.len ++ bytes ++ array.drop (b.len + bytes.length)).length
      = array.length := by
    simp only [List.length_append, List.length_take, List.length_drop]
    omega
  have hother : ∀ a, a ≠ b.addr → (h.write b.addr b.len bytes).arrays[a]? = h.arrays[a]? := by
    intro a hne
    exact List.getElem?_modify_ne _ _ hne.symm
  refine ⟨⟨⟨⟨_, hwrite, hlen'.trans hlen⟩, hroom⟩, ?_, fun a _ => hother a, ?_, Or.inl rfl⟩, ?_⟩
  · simp [Heap.write]
  · intro a _
    by_cases ha : a = b.addr
    · rw [ha, hwrite, harray, Option.map_some, Option.map_some, hlen']
    · rw [hother a ha]
  · rw [contents, Heap.read, hwrite, Option.getD_some, contents, Heap.read, harray,
      Option.getD_some]
    refine List.take_left' ?_
    rw [List.length_append, List.length_take, hlen, Nat.min_eq_left hb.len_le]

theorem readLoop_spec (slack : Nat → Nat) (eofAlone : Bool) : ∀ (n : Nat) (sizes : List Nat)
    (data : Bytes) (h : Heap) (b : GoBuffer), b.Wf h → data.length < n →
    Moves h b (readLoop slack eofAlone n sizes data h b).1
        (readLoop slack eofAlone n sizes data h b).2 ∧
      (readLoop slack eofAlone n sizes data h b).2.contents
          (readLoop slack eofAlone n sizes data h b).1 = b.contents h ++ data
  | n + 1, sizes, data, h, b, hb, hn => by
    obtain ⟨hgrow, hcont, hlen, hcap⟩ := grow_spec slack hb
    rw [readLoop]
    generalize grow slack h b = grown at hgrow hcont hlen hcap
    obtain ⟨h₁, b₁⟩ := grown
    dsimp only at hgrow hcont hlen hcap ⊢
    split
    · next hdata =>
      rw [List.isEmpty_iff.mp hdata, List.append_nil]
      exact ⟨hgrow, hcont⟩
    · next hdata =>
      generalize hm : min (max 1 (sizes.headD data.length)) (b₁.cap - b₁.len) = m
      -- a read makes progress, because growing has made room
      have hpos : 0 < m := by
        rw [← hm, minRead] at *
        omega
      have hne : 0 < data.length := by
        rw [List.isEmpty_iff] at hdata
        exact List.length_pos_iff.mpr hdata
      have htake : (data.take m).length = min m data.length := List.length_take
      obtain ⟨hwrite, hcont'⟩ := write_spec hgrow.wf (data.take m) (by
        have := hgrow.wf.len_le
        omega)
      split
      · next hend =>
        rw [Bool.and_eq_true, List.isEmpty_iff, List.drop_eq_nil_iff] at hend
        refine ⟨hgrow.trans hwrite, ?_⟩
        rw [hcont', hcont, List.take_of_length_le hend.1]
      · obtain ⟨hrest, hcont''⟩ := readLoop_spec slack eofAlone n sizes.tail (data.drop m) _ _
          hwrite.wf (by rw [List.length_drop]; omega)
        refine ⟨(hgrow.trans hwrite).trans hrest, ?_⟩
        rw [hcont'', hcont', hcont, List.append_assoc, List.take_append_drop]

/-- **`ReadFrom` appends what it reads**, in pieces of any size. -/
theorem readFrom_contents (slack : Nat → Nat) (eofAlone : Bool) (sizes : List Nat) (data : Bytes)
    {h : Heap} {b : GoBuffer} (hb : b.Wf h) :
    Moves h b (readFrom slack eofAlone sizes data h b).1
        (readFrom slack eofAlone sizes data h b).2 ∧
      (readFrom slack eofAlone sizes data h b).2.contents
          (readFrom slack eofAlone sizes data h b).1 = b.contents h ++ data :=
  readLoop_spec slack eofAlone _ sizes data h b hb (Nat.lt_succ_self _)

end GoBuffer

end Infra
