import Logryph.Infra.Forest
import Logryph.Ledger

/-!
# The trace of a task

`logyctl trace` prints the events of a task as a tree. `buildTree` sorts the events by their
parents, and `printTraceTree` walks the tree with a stack of frames, which it fills from the last
sibling on.
Each of its loops has a bound, and the stack has one too.

* `buildTree_eq` — the roots and the children of every id, in the order of the events
* `traceLoop_eq_walk` — the loop is a walk with a stack, in which no bound is met
* `traceTree_preorder` — the lines are those of the recursive definition
* `traceOutput_preorder` — so is the text that is written
* `Traceable.visited_iff` — the events that are printed
-/

namespace Logryph

open Infra

def maxEvents : Nat := 100000
def maxTraceNodes : Nat := 100000
def maxChildren : Nat := 10000

variable (strict : Bool)

/-! ## Building the tree -/

/-- One round of the loop of `buildTree`. -/
def addToTree (t : List Event × SortedMap Bytes (List Event)) (e : Event) :
    List Event × SortedMap Bytes (List Event) :=
  if e.parentID = [] then (t.1 ++ [e], t.2)
  else (t.1, t.2.insert e.parentID ((t.2.get? e.parentID).getD [] ++ [e]))

/-- `buildTree`: the roots, and the children of each id. -/
def buildTree (events : List Event) :
    Except Fault (List Event × SortedMap Bytes (List Event)) := do
  if ← quietCheck strict (events.length ≤ maxEvents)
      (lit "events exceed max: " ++ natText events.length) then
    .ok ((events.take maxEvents).foldl addToTree ([], SortedMap.empty))
  else .ok ([], SortedMap.empty)

/-! ## Printing it -/

/-- `traceFrame`. Its prefix is the indentation of the line. -/
structure TraceFrame where
  node : Event
  indent : Bytes
  isLast : Bool

/-- What is printed for a frame: the event, with what stands before it. -/
structure TraceLine where
  event : Event
  indent : Bytes
  marker : Bytes

def TraceFrame.line (f : TraceFrame) : TraceLine where
  event := f.node
  indent := f.indent
  marker := if f.isLast then lit "`-- " else lit "|-- "

/-- The indentation of the children. -/
def TraceFrame.newIndent (f : TraceFrame) : Bytes :=
  f.indent ++ if f.isLast then lit "    " else lit "|   "

/-- The status icon. -/
def statusSym (e : Event) : Bytes :=
  if e.riskLevel = lit "critical" then lit "[!!]"
  else if e.wasBlocked then lit "[X]"
  else if e.eventType = lit "tool_response" then lit "[x]"
  else lit "[ ]"

/-- The text of a line. How the time since the start is printed is a parameter. -/
def TraceLine.text (delta : Time → Bytes) (l : TraceLine) : Bytes :=
  l.indent ++ l.marker ++ statusSym l.event ++ lit " " ++ l.event.method ++
    List.replicate (15 - (runes l.event.method).length) 0x20 ++ lit " [" ++ l.event.id.take 6 ++
    lit "] (+" ++ delta l.event.timestamp ++ lit ")\n"

/-- The frames of siblings, in the order in which the loops come to them: the last one first. -/
def framesDown (indent : Bytes) (es : List Event) : List TraceFrame :=
  (es.zipIdx.map fun p => ⟨p.1, indent, p.2 + 1 = es.length⟩).reverse

/-- The state of the walk. The top of the stack is its first element. `dropped` is a record of the
frames that were left out because the stack was full, which the program itself does not keep. -/
structure TraceState where
  stack : List TraceFrame := []
  lines : List TraceLine := []
  dropped : Nat := 0

/-- The loop over the roots looks at the size of the stack after each push. -/
def pushRoots : List TraceFrame → List TraceFrame → List TraceFrame × Nat
  | [], stack => (stack, 0)
  | f :: fs, stack =>
    if maxTraceNodes ≤ (f :: stack).length then (f :: stack, fs.length)
    else pushRoots fs (f :: stack)

/-- The loop over the children looks at it before each push. -/
def pushChildren : List TraceFrame → List TraceFrame → List TraceFrame × Nat
  | [], stack => (stack, 0)
  | f :: fs, stack =>
    if maxTraceNodes ≤ stack.length then (stack, (f :: fs).length)
    else pushChildren fs (f :: stack)

/-- What is done for a frame that was taken from the stack. -/
def printFrame (childrenMap : SortedMap Bytes (List Event)) (frame : TraceFrame) (st : TraceState) :
    Except Fault TraceState :=
  -- the line has the first six bytes of the id, and a shorter one cannot be sliced
  if frame.node.id.length < 6 then
    .error (.panic (lit "runtime error: slice bounds out of range [:6] with length " ++
      natText frame.node.id.length))
  else do
    let children := (childrenMap.get? frame.node.id).getD []
    let lines := st.lines ++ [frame.line]
    if ← quietCheck strict (children.length ≤ maxChildren)
        (lit "children exceed max for node=" ++ frame.node.id ++ lit ": " ++
          natText children.length) then
      let pushed := pushChildren ((framesDown frame.newIndent children).take maxChildren) st.stack
      .ok { stack := pushed.1, lines, dropped := st.dropped + pushed.2 }
    else .ok { st with lines }

/-- The main loop of `printTraceTree`, for a number of rounds. -/
def traceLoop (childrenMap : SortedMap Bytes (List Event)) : Nat → TraceState →
    Except Fault TraceState
  | 0, st => .ok st
  | n + 1, st =>
    match st.stack with
    | [] => .ok st
    | frame :: stack => do
      traceLoop childrenMap n (← printFrame strict childrenMap frame { st with stack })

/-- `printTraceTree`. -/
def printTraceTree (roots : List Event) (childrenMap : SortedMap Bytes (List Event)) :
    Except Fault TraceState := do
  if ← quietCheck strict (roots.length ≤ maxTraceNodes)
      (lit "roots exceed max: " ++ natText roots.length) then
    let pushed := pushRoots ((framesDown [] roots).take maxTraceNodes) []
    traceLoop strict childrenMap maxTraceNodes { stack := pushed.1, dropped := pushed.2 }
  else .ok {}

/-- The events of a task: `buildTree`, then `printTraceTree`. -/
def traceTree (events : List Event) : Except Fault TraceState := do
  let (roots, childrenMap) ← buildTree strict events
  printTraceTree strict roots childrenMap

/-- What is written. -/
def traceOutput (delta : Time → Bytes) (events : List Event) : Except Fault Bytes := do
  let st ← traceTree strict events
  .ok (st.lines.flatMap (TraceLine.text delta))

/-! ## The recursive definition -/

/-- The frames of siblings. -/
def siblings (indent : Bytes) : List Event → List TraceFrame
  | [] => []
  | e :: es => ⟨e, indent, es.isEmpty⟩ :: siblings indent es

/-- The events without a parent. -/
def rootFrames (events : List Event) : List TraceFrame :=
  siblings [] (events.filter fun e => e.parentID = [])

/-- The events whose parent is the one of the frame. -/
def childFrames (events : List Event) (f : TraceFrame) : List TraceFrame :=
  siblings f.newIndent (events.filter fun e => e.parentID = f.node.id)

/-- **The lines of the recursive definition**: each root, then the events below it. -/
def PreorderLines (events : List Event) (lines : List TraceLine) : Prop :=
  ∃ frames, DepthFirst (childFrames events) (rootFrames events) frames ∧
    lines = frames.map TraceFrame.line

theorem PreorderLines.unique {events : List Event} {lines lines' : List TraceLine}
    (h : PreorderLines events lines) (h' : PreorderLines events lines') : lines = lines' := by
  obtain ⟨frames, hframes, rfl⟩ := h
  obtain ⟨frames', hframes', rfl⟩ := h'
  rw [hframes.unique hframes']

theorem siblings_map_node (indent : Bytes) : ∀ es : List Event,
    (siblings indent es).map TraceFrame.node = es
  | [] => rfl
  | e :: es => by rw [siblings, List.map_cons, siblings_map_node indent es]

theorem framesDown_eq (indent : Bytes) (es : List Event) :
    framesDown indent es = (siblings indent es).reverse := by
  have hfrom : ∀ (es : List Event) (n : Nat),
      ((es.zipIdx n).map fun p => (⟨p.1, indent, p.2 + 1 = n + es.length⟩ : TraceFrame))
        = siblings indent es := by
    intro es
    induction es with
    | nil => exact fun n => rfl
    | cons e es ih =>
      intro n
      rw [List.zipIdx_cons, List.map_cons, siblings, ← ih (n + 1)]
      have hlast : decide (n + 1 = n + (es.length + 1)) = es.isEmpty := by
        cases es with
        | nil => simp
        | cons e' es => simp
      simp only [List.length_cons, Nat.add_assoc, Nat.add_comm 1, hlast]
  rw [framesDown, ← hfrom es 0]
  simp only [Nat.zero_add]

/-! ## The loops -/

/-- The fold of `buildTree`, for an event more. -/
theorem foldl_addToTree (events : List Event) (roots : List Event)
    (m : SortedMap Bytes (List Event)) :
    (events.foldl addToTree (roots, m)).1 = roots ++ events.filter (fun e => e.parentID = []) ∧
      ∀ id, id ≠ [] → (((events.foldl addToTree (roots, m)).2.get? id).getD [])
        = (m.get? id).getD [] ++ events.filter fun e => e.parentID = id := by
  induction events generalizing roots m with
  | nil => simp
  | cons e events ih =>
    rw [List.foldl_cons, addToTree]
    by_cases hroot : e.parentID = []
    · rw [if_pos hroot]
      obtain ⟨hroots, hchildren⟩ := ih (roots ++ [e]) m
      refine ⟨by rw [hroots]; simp [hroot], fun id hid => ?_⟩
      rw [hchildren id hid, List.filter_cons_of_neg (by simpa [hroot] using hid.symm)]
    · rw [if_neg hroot]
      obtain ⟨hroots, hchildren⟩ :=
        ih roots (m.insert e.parentID ((m.get? e.parentID).getD [] ++ [e]))
      refine ⟨by rw [hroots]; simp [hroot], fun id hid => ?_⟩
      rw [hchildren id hid, SortedMap.get?_insert]
      by_cases hparent : e.parentID = id
      · rw [if_pos hparent.symm, List.filter_cons_of_pos (by simpa using hparent), hparent]
        simp
      · rw [if_neg (Ne.symm hparent), List.filter_cons_of_neg (by simpa using hparent)]

/-- **The tree that is built**: the roots and the children of every id, in the events' order. -/
theorem buildTree_eq {events : List Event} (hlen : events.length ≤ maxEvents) :
    ∃ childrenMap, buildTree strict events
        = .ok (events.filter (fun e => e.parentID = []), childrenMap) ∧
      ∀ id, id ≠ [] → (childrenMap.get? id).getD [] = events.filter fun e => e.parentID = id := by
  obtain ⟨hroots, hchildren⟩ := foldl_addToTree events [] SortedMap.empty
  refine ⟨(events.foldl addToTree ([], SortedMap.empty)).2, ?_, fun id hid => ?_⟩
  · rw [List.nil_append] at hroots
    rw [buildTree, decide_eq_true hlen, quietCheck_true, List.take_of_length_le hlen, ← hroots]
    rfl
  · rw [hchildren id hid]
    rfl

/-- With room for all of them, the frames are pushed one after the other. -/
theorem pushRoots_eq : ∀ {fs stack : List TraceFrame}, fs.length + stack.length ≤ maxTraceNodes →
    pushRoots fs stack = (fs.reverse ++ stack, 0)
  | [], _, _ => rfl
  | f :: fs, stack, h => by
    rw [List.length_cons] at h
    rw [pushRoots]
    split
    · next hfull =>
      -- the stack is full after the last root only
      have hnil : fs = [] := by
        rw [List.length_cons] at hfull
        exact List.length_eq_zero_iff.mp (by omega)
      rw [hnil]
      rfl
    · rw [pushRoots_eq (by rw [List.length_cons]; omega), List.reverse_cons, List.append_assoc]
      rfl

theorem pushChildren_eq : ∀ {fs stack : List TraceFrame},
    fs.length + stack.length ≤ maxTraceNodes → pushChildren fs stack = (fs.reverse ++ stack, 0)
  | [], _, _ => rfl
  | f :: fs, stack, h => by
    rw [List.length_cons] at h
    rw [pushChildren, if_neg (by omega), pushChildren_eq (by rw [List.length_cons]; omega),
      List.reverse_cons, List.append_assoc]
    rfl

variable {strict}

/-- A round of the loop: the line of the frame is printed, and its children are put on top. -/
theorem printFrame_eq {events : List Event} {childrenMap : SortedMap Bytes (List Event)}
    {frame : TraceFrame} {st : TraceState} (hid : 6 ≤ frame.node.id.length)
    (hmap : (childrenMap.get? frame.node.id).getD []
      = events.filter fun e => e.parentID = frame.node.id)
    (hchildren : (events.filter fun e => e.parentID = frame.node.id).length ≤ maxChildren)
    (hroom : (childFrames events frame).length + st.stack.length ≤ maxTraceNodes) :
    printFrame strict childrenMap frame st = .ok { st with
      stack := childFrames events frame ++ st.stack, lines := st.lines ++ [frame.line] } := by
  have hframes : framesDown frame.newIndent (events.filter fun e => e.parentID = frame.node.id)
      = (childFrames events frame).reverse := framesDown_eq _ _
  have hcount : (childFrames events frame).length
      = (events.filter fun e => e.parentID = frame.node.id).length := by
    rw [childFrames, ← List.length_map TraceFrame.node, siblings_map_node]
  have hpush := @pushChildren_eq (childFrames events frame).reverse st.stack (by simpa using hroom)
  unfold printFrame
  rw [if_neg (by omega)]
  dsimp only
  rw [hmap, decide_eq_true hchildren, quietCheck_true, hframes,
    List.take_of_length_le (by rw [List.length_reverse, hcount]; exact hchildren), hpush,
    List.reverse_reverse]
  rfl

/-- The parent of an event, if it has one. -/
def parentOf (e : Event) : Option Bytes := if e.parentID = [] then none else some e.parentID

theorem rootFrames_map_node (events : List Event) :
    (rootFrames events).map TraceFrame.node = events.filter fun e => parentOf e = none := by
  rw [rootFrames, siblings_map_node]
  refine List.filter_congr fun e _ => ?_
  by_cases h : e.parentID = []
  · simp [parentOf, h]
  · simp [parentOf, h]

theorem childFrames_map_node {events : List Event} {f : TraceFrame} (hid : f.node.id ≠ []) :
    (childFrames events f).map TraceFrame.node
      = events.filter fun e => parentOf e = some f.node.id := by
  rw [childFrames, siblings_map_node]
  refine List.filter_congr fun e _ => ?_
  by_cases h : e.parentID = []
  · simp [parentOf, h, hid.symm]
  · simp [parentOf, h]

/-- Events within the bounds of the program, with different ids that can be printed. Their parents
may be missing, and may form cycles. -/
structure Traceable (events : List Event) : Prop where
  length_le : events.length ≤ maxEvents
  ids_nodup : (events.map Event.id).Nodup
  id_le : ∀ e ∈ events, 6 ≤ e.id.length
  children_le : ∀ e ∈ events, (events.filter fun c => c.parentID = e.id).length ≤ maxChildren

theorem Traceable.id_ne {events : List Event} (h : Traceable events) {e : Event} (he : e ∈ events) :
    e.id ≠ [] := by
  have hle := h.id_le e he
  exact List.ne_nil_of_length_pos (by omega)

/-- **The loop is a walk with a stack.** Everything that was visited or stands on the stack is a
different event, so no bound is met. -/
theorem traceLoop_eq_walk {events : List Event} (h : Traceable events)
    {childrenMap : SortedMap Bytes (List Event)}
    (hmap : ∀ id, id ≠ [] →
      (childrenMap.get? id).getD [] = events.filter fun e => e.parentID = id) :
    ∀ {n : Nat} {v s : List TraceFrame},
      Explored events Event.id parentOf TraceFrame.node v s →
      traceLoop strict childrenMap n { stack := s, lines := v.map TraceFrame.line }
        = .ok { stack := (walk (childFrames events) n v s).2,
                lines := (walk (childFrames events) n v s).1.map TraceFrame.line }
  | 0, _, _, _ => rfl
  | _ + 1, _, [], _ => rfl
  | n + 1, v, f :: s, hexplored => by
    have hmem : f.node ∈ events := ((hexplored.mem_iff f.node).mp (by simp)).1
    have hnext : Explored events Event.id parentOf TraceFrame.node (v ++ [f])
        (childFrames events f ++ s) :=
      hexplored.step h.ids_nodup fun _ => childFrames_map_node (h.id_ne hmem)
    have hroom : (childFrames events f).length + s.length ≤ maxTraceNodes := by
      have hle := hnext.length_le
      have hmax : events.length ≤ maxTraceNodes := h.length_le
      rw [List.length_append, List.length_append] at hle
      omega
    have hprint := @printFrame_eq strict events childrenMap f
      { stack := s, lines := v.map TraceFrame.line } (h.id_le _ hmem) (hmap _ (h.id_ne hmem))
      (h.children_le _ hmem) hroom
    rw [traceLoop, walk]
    dsimp only
    rw [hprint, ← traceLoop_eq_walk h hmap hnext, List.map_append]
    rfl

/-- The frames that the program visits. -/
def visitedFrames (events : List Event) : List TraceFrame :=
  (walk (childFrames events) maxTraceNodes [] (rootFrames events)).1

section

variable {events : List Event} (h : Traceable events)

include h

/-- The walk ends within its bound. -/
theorem Traceable.walk_ends :
    (walk (childFrames events) maxTraceNodes [] (rootFrames events)).2 = [] :=
  Infra.walk_ends h.ids_nodup (fun _ hf => childFrames_map_node (h.id_ne hf))
    (rootFrames_map_node events) h.length_le

/-- **What is printed** for the tree of the events. -/
theorem printTraceTree_eq (strict : Bool) {childrenMap : SortedMap Bytes (List Event)}
    (hmap : ∀ id, id ≠ [] →
      (childrenMap.get? id).getD [] = events.filter fun e => e.parentID = id) :
    printTraceTree strict (events.filter fun e => e.parentID = []) childrenMap
      = .ok { lines := (visitedFrames events).map TraceFrame.line } := by
  have hmax : events.length ≤ maxTraceNodes := h.length_le
  have hroots : (rootFrames events).length = (events.filter fun e => e.parentID = []).length := by
    rw [rootFrames, ← List.length_map TraceFrame.node, siblings_map_node]
  have hcount : (events.filter fun e => e.parentID = []).length ≤ maxTraceNodes :=
    (List.length_filter_le _ _).trans hmax
  have hpush : pushRoots ((framesDown [] (events.filter fun e => e.parentID = [])).take
      maxTraceNodes) [] = (rootFrames events, 0) := by
    have hdown : framesDown [] (events.filter fun e => e.parentID = [])
        = (rootFrames events).reverse := framesDown_eq _ _
    rw [hdown, List.take_of_length_le (by rw [List.length_reverse, hroots]; exact hcount),
      pushRoots_eq (by simpa [hroots] using hcount), List.reverse_reverse, List.append_nil]
  have hstart : Explored events Event.id parentOf TraceFrame.node [] (rootFrames events) :=
    Explored.start (List.Nodup.of_map Event.id h.ids_nodup) (rootFrames_map_node events)
  have hloop := @traceLoop_eq_walk strict events h childrenMap hmap maxTraceNodes [] _ hstart
  rw [h.walk_ends] at hloop
  rw [printTraceTree, decide_eq_true hcount, quietCheck_true]
  dsimp only [bind, Except.bind]
  rw [hpush]
  exact hloop

theorem traceTree_eq (strict : Bool) :
    traceTree strict events = .ok { lines := (visitedFrames events).map TraceFrame.line } := by
  obtain ⟨childrenMap, hbuild, hmap⟩ := buildTree_eq strict h.length_le
  rw [traceTree, hbuild]
  exact printTraceTree_eq h strict hmap

/-- An event is printed exactly if its parents lead to a root, and never twice. -/
theorem Traceable.visited_iff :
    ((visitedFrames events).map TraceFrame.node).Nodup ∧
      ∀ e, e ∈ (visitedFrames events).map TraceFrame.node ↔ Rooted events Event.id parentOf e :=
  mem_walk_iff h.ids_nodup (fun _ hf => childFrames_map_node (h.id_ne hf))
    (rootFrames_map_node events) h.length_le

/-- The walk with a stack goes through the events in the order of the recursive definition. -/
theorem Traceable.preorder :
    PreorderLines events ((visitedFrames events).map TraceFrame.line) := by
  obtain ⟨frames, hvisited, hframes⟩ := depthFirst_of_walk h.walk_ends
  rw [List.nil_append] at hvisited
  rw [visitedFrames, hvisited]
  exact ⟨frames, hframes, rfl⟩

/-- What is written is the text of these lines, one after the other. -/
theorem traceOutput_preorder (strict : Bool) (delta : Time → Bytes) :
    ∃ lines, PreorderLines events lines ∧
      traceOutput strict delta events = .ok (lines.flatMap (TraceLine.text delta)) := by
  refine ⟨_, h.preorder, ?_⟩
  rw [traceOutput, traceTree_eq h]
  rfl

end

/-- **The iterative printer is a preorder walk.** The lines are those of the recursive definition,
which are determined. The loop ends with an empty stack within its bound, and no frame is
dropped. -/
theorem traceTree_preorder (strict : Bool) {events : List Event} (h : Traceable events) :
    ∃ st, traceTree strict events = .ok st ∧ PreorderLines events st.lines ∧
      (∀ lines, PreorderLines events lines → lines = st.lines) ∧ st.stack = [] ∧
      st.dropped = 0 := by
  exact ⟨{ lines := (visitedFrames events).map TraceFrame.line }, traceTree_eq h strict, h.preorder,
    fun lines hlines => hlines.unique h.preorder, rfl, rfl⟩

/-- An event with an id and a parent. -/
def traceEvent (id parentID : String) : Event := { id := lit id, parentID := lit parentID }

/-- Two roots, two events below the first one, and three that no root leads to: one whose parent is
missing, and two that are the parents of each other. -/
def sampleEvents : List Event :=
  [traceEvent "call-a" "", traceEvent "call-b" "call-a", traceEvent "lost-1" "gone-1",
    traceEvent "loop-x" "loop-y", traceEvent "loop-y" "loop-x", traceEvent "call-c" "call-b",
    traceEvent "call-d" "call-a", traceEvent "call-e" ""]

theorem traceable_sampleEvents : Traceable sampleEvents where
  length_le := by decide
  ids_nodup := by decide
  id_le := by decide
  children_le := by decide

theorem traceTree_preorder_sample : ∃ st, traceTree true sampleEvents = .ok st ∧
    PreorderLines sampleEvents st.lines ∧ st.stack = [] ∧ st.dropped = 0 := by
  obtain ⟨st, hst, hlines, -, hstack, hdropped⟩ := traceTree_preorder true traceable_sampleEvents
  exact ⟨st, hst, hlines, hstack, hdropped⟩

example : (traceTree true sampleEvents).toOption.map
      (fun st => st.lines.map fun l => l.indent ++ l.marker ++ l.event.id)
    = some [lit "|-- call-a", lit "|   |-- call-b", lit "|   |   `-- call-c", lit "|   `-- call-d",
      lit "`-- call-e"] := by
  decide +kernel

end Logryph
