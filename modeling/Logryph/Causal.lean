import Logryph.AppendLog
import Logryph.Intake
import Logryph.Outcome

/-!
# The parents of tool calls

The map in which a request finds its parent says nothing about what has become of the parent's
event: it may not be pushed yet, it may have been dropped, and it may fail to be stored.

* `Memory.Causal.hasParent` — the parent of an event in hand is stored
* `causal_links` — if a parent is loaded only after its event was pushed, and an event that fails to
  be stored is the parent of none on its way, then the parent of every row is a row of the same task
  before it
* `parent_missing` — otherwise the parent of a row can be missing
-/

namespace Logryph

open Infra

/-! ## Links between events -/

/-- How an event refers to its parent. -/
structure CausalLink where
  id : Bytes
  parentID : Bytes
  taskID : Bytes

def Event.causalLink (e : Event) : CausalLink := ⟨e.id, e.parentID, e.taskID⟩

def EventRow.causalLink (row : EventRow) : CausalLink := ⟨row.id, row.parentID, row.taskID⟩

namespace CausalLink

def ParentOf (x y : CausalLink) : Prop := x.id = y.parentID ∧ x.taskID = y.taskID

/-- There is no parent, or it is in the list. -/
def HasParent (l : List CausalLink) (x : CausalLink) : Prop :=
  Grounded (fun x => x.parentID = []) ParentOf l x

theorem HasParent.mono {l l' : List CausalLink} {x : CausalLink} (h : HasParent l x)
    (hsub : l ⊆ l') : HasParent l' x :=
  @Grounded.mono CausalLink (fun x => x.parentID = []) ParentOf l l' x h hsub

/-- The parent of `y` is not `x`. -/
def Independent (x y : CausalLink) : Prop :=
  y.parentID = [] ∨ ¬(x.id = y.parentID ∧ x.taskID = y.taskID)

instance (x y : CausalLink) : Decidable (Independent x y) :=
  inferInstanceAs (Decidable (_ ∨ ¬(_ ∧ _)))

/-- The parents stand before their children. -/
def Ordered (l : List CausalLink) : Prop := AllGrounded (fun x => x.parentID = []) ParentOf l

end CausalLink

theorem Numbered.causalLink {e e' : Event} (h : Numbered e e') : e'.causalLink = e.causalLink := by
  obtain ⟨_, _, _, _, _, rfl⟩ := h
  rfl

theorem causalLink_encodeEvent {e : Event} {row : EventRow} (h : encodeEvent e = .ok row) :
    row.causalLink = e.causalLink := by
  obtain ⟨_, _, -, -, rfl⟩ := encodeEvent_eq_ok h
  rfl

/-- An event that was stored has a row. -/
theorem exists_row_of_stored {items : List Item} {blocks : List (List EventRow)}
    (h : List.Forall₂ Item.Rows items blocks) : ∀ item ∈ items, item.stored = true →
      ∃ row ∈ blocks.flatten, row.causalLink = item.event.causalLink := by
  induction h with
  | nil => exact List.forall_mem_nil _
  | @cons first block items blocks hrows hrest ih =>
    intro item hitem hstored
    rw [List.flatten_cons]
    rcases List.mem_cons.mp hitem with rfl | hitem
    · have hown : ∀ row, StoredAs item.event row → row ∈ block →
          ∃ row ∈ block ++ blocks.flatten, row.causalLink = item.event.causalLink := by
        rintro row ⟨e, hsame, henc⟩ hmem
        exact ⟨row, List.mem_append_left _ hmem,
          (causalLink_encodeEvent henc).trans hsame.causalLink⟩
      cases hrows with
      | failed stored => cases hstored.symm.trans stored
      | stored stored completed own => exact hown _ own List.mem_cons_self
      | completed stored completed own after => exact hown _ own List.mem_cons_self
    · obtain ⟨row, hrow, hlink⟩ := ih item hitem hstored
      exact ⟨row, List.mem_append_right _ hrow, hlink⟩

/-! ## The pool and the completion events -/

/-- A completion event has no parent. -/
def Target.Orphan (e : Event) : Target → Prop
  | main => True
  | completion _ => e.parentID = []

theorem Target.Orphan.numbered {e e' : Event} {target : Target} (h : target.Orphan e)
    (h' : Numbered e e') : target.Orphan e' := by
  cases target with
  | main => trivial
  | completion main => exact (congrArg CausalLink.parentID h'.causalLink).trans h

def ProcessPc.Orphan : ProcessPc → Prop
  | stats target e => target.Orphan e
  | last target e => target.Orphan e
  | store target e => target.Orphan e
  | _ => True

/-- The pool is clean, and no completion event has a parent. -/
def Tidy (x : ProcessPc × State) : Prop := (∀ e ∈ x.2.pool, Clean e) ∧ x.1.Orphan

section

variable (c : Crypto) (strict : Bool) {s : State}

theorem tidy_completed {main : Event} {x : Except Fault Unit × State}
    (h : ∀ e ∈ x.2.pool, Clean e) : Tidy (completed main x) := by
  rcases x with ⟨f | u, s⟩ <;> exact ⟨h, trivial⟩

theorem tidy_persistFailed (h : ∀ e ∈ s.pool, Clean e) (target : Target) (e : Event) (f : Fault) :
    Tidy (persistFailed strict s target e f) := by
  unfold persistFailed
  split
  · exact ⟨h, trivial⟩
  · exact ⟨h, trivial⟩
  · split
    · exact ⟨h, trivial⟩
    · exact tidy_completed (x := s.putEvent strict e) (clean_putEvent h e)

theorem tidy_persistDone (h : ∀ e ∈ s.pool, Clean e) (e : Event) (target : Target) :
    Tidy (persistDone strict s e target) := by
  unfold persistDone
  split
  · split <;> exact ⟨h, trivial⟩
  · exact tidy_completed (x := s.putEvent strict e) (clean_putEvent h e)

/-- Every step of a `ProcessEvent` keeps the pool clean, so that a completion event starts without
a parent. -/
theorem Tidy.processStep {pc : ProcessPc} (h : Tidy (pc, s)) (env : Worker.HandleEnv) :
    Tidy (processStep c strict env s pc) := by
  obtain ⟨h, hpc⟩ := h
  cases pc with
  | stats target e =>
    rw [Logryph.processStep]
    split
    · exact tidy_persistFailed strict h target e _
    · exact ⟨h, Target.Orphan.numbered hpc ⟨_, _, _, _, _, rfl⟩⟩
  | last target e =>
    rw [Logryph.processStep]
    split
    · exact tidy_persistFailed strict h target e _
    · split
      · exact tidy_persistFailed strict h target e _
      · next e₁ hlink =>
        have hlinked : Numbered e e₁ := ⟨_, _, _, _, _, linkEvent_fields strict hlink⟩
        split
        · exact tidy_persistFailed strict h target e₁ _
        · next e₂ hsign =>
          obtain ⟨hash, -, rfl⟩ := hashAndSignEvent_eq_ok c strict hsign
          exact ⟨h, Target.Orphan.numbered hpc (hlinked.trans ⟨_, _, _, _, _, rfl⟩)⟩
  | store target e =>
    rw [Logryph.processStep]
    rcases storeEvent strict (env.faultsFor target).storeEvent s.db e with ⟨f | u, db⟩
    · exact tidy_persistFailed strict (s := { s with db }) h target e f
    · exact tidy_persistDone strict (s := { s with db }) h e target
  | track e =>
    obtain ⟨hget, hrest⟩ := clean_getEvent h env.completion.pick
    rw [Logryph.processStep]
    dsimp only
    split
    · refine ⟨hrest, ?_⟩
      show (getEvent env.completion.pick s.pool).1.parentID = []
      rw [hget.1]
    · split <;> exact ⟨h, trivial⟩
  | ended result => exact ⟨h, trivial⟩

end

/-! ## The pipeline -/

/-- The event that the loop gives up: `ProcessEvent` has ended, and the event was not stored. -/
def LoopPc.givesUp : LoopPc → Option Event
  | process _ item (.ended _) => if item.stored then none else some item.event
  | _ => none

/-- The events that were pushed and not given up, in the order in which they were pushed. -/
def Memory.kept (m : Memory) (pc : LoopPc) (q : List Event) : List CausalLink :=
  ((m.handled.filter Item.stored ++ pc.inHand).map Item.event ++ q).map Event.causalLink

theorem Memory.kept_concat (m : Memory) (pc : LoopPc) (q : List Event) (e : Event) :
    m.kept pc (q ++ [e]) = m.kept pc q ++ [e.causalLink] := by
  simp [Memory.kept]

/-- The event has no parent, or its parent was pushed and not given up. -/
def Memory.Follows (m : Memory) (pc : LoopPc) (q : List Event) (e : Event) : Prop :=
  CausalLink.HasParent (m.kept pc q) e.causalLink

/-- The events that were kept are in order, and so are the rows. -/
structure Memory.Causal (m : Memory) (pc : LoopPc) (q : List Event) : Prop where
  clean : ∀ e ∈ m.worker.state.pool, Clean e
  orphan : ∀ x ∈ pc.processing, x.Orphan
  kept : CausalLink.Ordered (m.kept pc q)
  rows : CausalLink.Ordered (m.worker.state.core.rows.map EventRow.causalLink)

section

variable {c : Crypto} {strict : Bool} {env : Worker.HandleEnv} {m m' : Memory} {q q' : List Event}
  {genesis : EventRow} {signer : Signer} {runID : Bytes}

/-- The event in hand has its parent in the store. -/
theorem Memory.Causal.hasParent {j : Nat} {item : Item} {target : Target} {e : Event}
    (h : m.Causal (.process j item (.store target e)) q)
    (hlogs : m.Logs genesis (.process j item (.store target e)) q) :
    CausalLink.HasParent (m.worker.state.core.rows.map EventRow.causalLink) e.causalLink := by
  cases target with
  | completion main => exact Or.inl (h.orphan _ rfl)
  | main =>
    obtain ⟨-, ⟨done, hand, hrows, hdone, -⟩, -, -, hsame⟩ := hlogs
    -- the parent was pushed before the event, so the loop has dealt with it already
    have hparent := h.kept (((m.handled.filter Item.stored).map Item.event).map Event.causalLink)
      item.event.causalLink (q.map Event.causalLink) (by simp [Memory.kept, LoopPc.inHand])
    rw [hsame.causalLink]
    rcases hparent with hroot | ⟨x, hx, hof⟩
    · exact Or.inl hroot
    · rw [List.map_map, List.mem_map] at hx
      obtain ⟨parent, hmem, rfl⟩ := hx
      obtain ⟨hmem, hstored⟩ := List.mem_filter.mp hmem
      obtain ⟨row, hrow, hlink⟩ := exists_row_of_stored hdone parent hmem hstored
      refine Or.inr ⟨row.causalLink, List.mem_map_of_mem ?_, hlink ▸ hof⟩
      rw [hrows]
      exact List.mem_cons_of_mem _ (List.mem_append_left _ hrow)

/-- A step of the loop keeps all events, unless it gives one up. -/
theorem LoopStep.kept {pc pc' : LoopPc} (h : LoopStep c strict env m q pc m' pc' q') :
    m'.kept pc' q' = m.kept pc q ∨
      ∃ l x, pc.givesUp = some x ∧ m.kept pc q = l ++ x.causalLink :: q.map Event.causalLink ∧
        m'.kept pc' q' = l ++ q.map Event.causalLink := by
  cases h with
  | take first =>
    subst first
    exact Or.inl (by simp [Memory.kept, LoopPc.inHand])
  | process going => exact Or.inl (by simp [Memory.kept, LoopPc.inHand, Item.event_note])
  | @finish j item result isUnhealthy latency =>
    by_cases hstored : item.stored = true
    · exact Or.inl (by simp [Memory.kept, LoopPc.inHand, hstored])
    · refine Or.inr ⟨((m.handled.filter Item.stored).map Item.event).map Event.causalLink,
        item.event, if_neg hstored, ?_, ?_⟩
      · simp [Memory.kept, LoopPc.inHand]
      · simp [Memory.kept, LoopPc.inHand, hstored]
  | _ => exact Or.inl rfl

theorem ConsumerStep.kept {pc pc' : ConsumerPc} (h : ConsumerStep c strict env m q pc m' pc' q') :
    m'.kept pc'.loop q' = m.kept pc.loop q ∨
      ∃ l x, pc.loop.givesUp = some x ∧
        m.kept pc.loop q = l ++ x.causalLink :: q.map Event.causalLink ∧
        m'.kept pc'.loop q' = l ++ q.map Event.causalLink := by
  cases h with
  | stop before => rcases before with ⟨i, rfl⟩ | ⟨i, rfl⟩ <;> exact Or.inl rfl
  | loop step going => exact step.kept
  | leave step => exact step.kept
  | _ => exact Or.inl rfl

/-- **A step of the loop** adds rows after their parents. -/
theorem LoopStep.causal {pc pc' : LoopPc} (h : LoopStep c strict env m q pc m' pc' q')
    (hinv : RunInv c strict signer runID m.worker.state.core)
    (hfresh : ∀ x ∈ pc.processing, Fresh c strict m.worker.state.core x)
    (hlogs : m.Logs genesis pc q) (hm : m.Causal pc q)
    (hkept : CausalLink.Ordered (m'.kept pc' q')) : m'.Causal pc' q' := by
  cases h with
  | take first =>
    refine ⟨hm.clean, fun x hx => ?_, hkept, hm.rows⟩
    cases hx
    trivial
  | @process j item pc going =>
    obtain ⟨hclean, horphan⟩ := Tidy.processStep c strict ⟨hm.clean, hm.orphan pc rfl⟩ env
    have hpc : Fresh c strict m.worker.state.core pc := hfresh pc rfl
    obtain ⟨hstep, hsigner, hrun, -⟩ := processStep_spec c strict hinv hpc env
    obtain ⟨-, hadded⟩ := hstep.runInv c strict hinv hpc hsigner hrun
    refine ⟨hclean, fun x hx => ?_, hkept, ?_⟩
    · cases hx
      exact horphan
    · rcases hadded with ⟨-, hsame⟩ | ⟨-, target, e, row, rfl, henc, happend⟩
      · dsimp only
        rw [hsame]
        exact hm.rows
      · dsimp only
        rw [happend, List.map_append, List.map_singleton, causalLink_encodeEvent henc]
        exact hm.rows.concat (hm.hasParent hlogs)
  | @finish j item result isUnhealthy latency =>
    exact ⟨clean_putEvent hm.clean item.event, fun x hx => (by cases hx), hkept, hm.rows⟩
  | _ => exact ⟨hm.clean, fun x hx => (by cases hx), hkept, hm.rows⟩

theorem ConsumerStep.causal {pc pc' : ConsumerPc} (h : ConsumerStep c strict env m q pc m' pc' q')
    (hinv : RunInv c strict signer runID m.worker.state.core)
    (hfresh : ∀ x ∈ pc.processing, Fresh c strict m.worker.state.core x)
    (hlogs : m.Logs genesis pc.loop q) (hm : m.Causal pc.loop q)
    (hkept : CausalLink.Ordered (m'.kept pc'.loop q')) : m'.Causal pc'.loop q' := by
  cases h with
  | loop step going => exact step.causal hinv hfresh hlogs hm hkept
  | leave step => exact step.causal hinv hfresh hlogs hm hkept
  | _ => exact ⟨hm.clean, fun x hx => (by cases hx), hkept, hm.rows⟩

/-- The `Submit` may still push its event. -/
def SubmitPc.mayPush : SubmitPc → Bool
  | closing => true
  | pc => pc.admitted

/-- `Submit` pushes an event after its parent. -/
theorem SubmitStep.causal {e : Event} {pc pc' : SubmitPc} {loop : LoopPc}
    (h : SubmitStep m e q pc m' pc' q') (hparent : pc.mayPush = true → m.Follows loop q e)
    (hm : m.Causal loop q) :
    m'.Causal loop q' ∧ m.kept loop q ⊆ m'.kept loop q' ∧
      (pc'.mayPush = true → pc.mayPush = true) := by
  cases h with
  | push room =>
    refine ⟨⟨hm.clean, hm.orphan, ?_, hm.rows⟩, ?_, fun hpc => (by cases hpc)⟩
    · rw [Memory.kept_concat]
      exact hm.kept.concat (hparent rfl)
    · rw [Memory.kept_concat]
      exact List.subset_append_left _ _
  | enter running after =>
    exact ⟨⟨hm.clean, hm.orphan, hm.kept, hm.rows⟩, List.Subset.refl _, fun _ => rfl⟩
  | goOn before push after =>
    refine ⟨⟨hm.clean, hm.orphan, hm.kept, hm.rows⟩, List.Subset.refl _, fun _ => ?_⟩
    cases pc <;> first | rfl | exact before
  | _ =>
    exact ⟨⟨hm.clean, hm.orphan, hm.kept, hm.rows⟩, List.Subset.refl _, fun hpc => (by cases hpc)⟩

end

/-- The event that an action hands to `Submit`. -/
def Pipeline.Action.handsIn : Pipeline.Action → Option Event
  | submit e => some e
  | tick e => e
  | _ => none

namespace Pipeline

variable (c : Crypto) (strict : Bool)

/-- The events in the buffer. -/
def waiting (p : Pipeline) : List Event := p.memory.pushed.drop p.popped.length

/-- The events that some `Submit` may still push. -/
def entering (p : Pipeline) : List Event :=
  (p.submits.filter fun s => s.pc.mayPush).map Submitting.event

/-- The invariant of the pipeline. -/
structure Causal (signer : Signer) (runID : Bytes) (genesis : EventRow) (p : Pipeline)
    (q : List Event) : Prop where
  refines : p.Refines c strict signer runID genesis q
  memory : p.memory.Causal p.consumer.loop q
  submits : ∀ e ∈ p.entering, p.memory.Follows p.consumer.loop q e

variable {signer : Signer} {runID : Bytes} {genesis : EventRow}

theorem Refines.waiting {p : Pipeline} {q : List Event}
    (h : p.Refines c strict signer runID genesis q) : p.waiting = q := by
  rw [Pipeline.waiting, h.logs.pushed]
  exact List.drop_left' (List.length_map _)

/-- The event that a step gives up. -/
def givesUp (p : Pipeline) : Action → Option Event
  | .consume _ => p.consumer.loop.givesUp
  | _ => none

/-- A step does not give up the parent of the event. -/
def Spares (p : Pipeline) (a : Action) (e : Event) : Prop :=
  ∀ x ∈ p.givesUp a, CausalLink.Independent x.causalLink e.causalLink

/-- **The step lemma of the pipeline.** -/
theorem Causal.step {p p' : Pipeline} {a : Action} {q q' : List Event}
    (h : p.Causal c strict signer runID genesis q) (hbefore : a.isShutdown = false)
    (hnew : ∀ e ∈ a.handsIn, p.memory.Follows p.consumer.loop q e)
    (hspares : ∀ e ∈ q ++ p.entering, p.Spares a e)
    (hstep : Step c strict p q a p' q') (hholds : p'.memory.worker.ringBuffer.Holds q') :
    p'.Causal c strict signer runID genesis q' ∧
      ∀ e, p.Spares a e → p.memory.Follows p.consumer.loop q e →
        p'.memory.Follows p'.consumer.loop q' e := by
  have hrefines := h.refines.step c strict hbefore hstep hholds
  rw [List.forall_mem_append] at hspares
  cases hstep with
  | @submit event =>
    refine ⟨⟨hrefines, h.memory, ?_⟩, fun _ _ he => he⟩
    rw [entering, List.filter_append, List.map_append]
    exact List.forall_mem_append.mpr ⟨h.submits, List.forall_mem_singleton.mpr (hnew event rfl)⟩
  | @next i event anchor pc pc' memory q' call step =>
    have hevent : pc.mayPush = true → p.memory.Follows p.consumer.loop q event := fun hpc =>
      h.submits event (List.mem_map_of_mem
        (List.mem_filter.mpr ⟨List.mem_of_getElem? call, hpc⟩))
    obtain ⟨hmemory, hsub, hback⟩ := step.causal hevent h.memory
    refine ⟨⟨hrefines, hmemory, fun e he => ?_⟩, fun _ _ he => he.mono hsub⟩
    obtain ⟨s, hs, rfl⟩ := List.mem_map.mp he
    obtain ⟨hs, hpc⟩ := List.mem_filter.mp hs
    rcases List.mem_or_eq_of_mem_set hs with hs | rfl
    · exact (h.submits _ (List.mem_map_of_mem (List.mem_filter.mpr ⟨hs, hpc⟩))).mono hsub
    · exact (hevent (hback hpc)).mono hsub
  | @consume env pc pc' memory q' before step =>
    subst before
    -- the events that are kept, and those that refer to them
    have hordered : CausalLink.Ordered (memory.kept pc'.loop q') := by
      rcases step.kept with hsame | ⟨l, x, hx, hkept, hkept'⟩
      · rw [hsame]
        exact h.memory.kept
      · have hold := h.memory.kept
        rw [hkept] at hold
        rw [hkept']
        refine hold.remove fun y hy => ?_
        obtain ⟨e, he, rfl⟩ := List.mem_map.mp hy
        exact hspares.1 e he x hx
    have hfollows : ∀ e, p.Spares (.consume env) e → p.memory.Follows p.consumer.loop q e →
        memory.Follows pc'.loop q' e := by
      intro e hspare he
      rcases step.kept with hsame | ⟨l, x, hx, hkept, hkept'⟩
      · rw [Memory.Follows, hsame]
        exact he
      · rw [Memory.Follows, hkept] at he
        rw [Memory.Follows, hkept']
        exact he.remove (hspare x hx)
    have hmemory := step.causal h.refines.linked.chain h.refines.linked.consumer h.refines.logs
      h.memory hordered
    exact ⟨⟨hrefines, hmemory, fun e he => hfollows e (hspares.2 e he) (h.submits e he)⟩, hfollows⟩
  | @tick i event running free =>
    refine ⟨⟨hrefines, h.memory, ?_⟩, fun _ _ he => he⟩
    rw [entering, List.filter_append, List.map_append]
    refine List.forall_mem_append.mpr ⟨h.submits, ?_⟩
    cases event with
    | none => exact List.forall_mem_nil _
    | some event => exact List.forall_mem_singleton.mpr (hnew event rfl)
  | quit free => exact ⟨⟨hrefines, h.memory, h.submits⟩, fun _ _ he => he⟩
  | shutdown before step => cases hbefore

end Pipeline

/-! ## The requests -/

theorem Pipeline.Causal.takeEvent {c : Crypto} {strict : Bool} {signer : Signer} {runID : Bytes}
    {genesis : EventRow} {p : Pipeline} {q : List Event}
    (h : p.Causal c strict signer runID genesis q) (pick : Option Nat) :
    (p.takeEvent pick).2.Causal c strict signer runID genesis q ∧ Clean (p.takeEvent pick).1 := by
  obtain ⟨hget, hrest⟩ := clean_getEvent h.memory.clean pick
  obtain ⟨⟨hlinked, hidle, hlogs⟩, hmemory, hsubmits⟩ := h
  exact ⟨⟨⟨⟨hlinked.holds, hlinked.chain, hlinked.consumer, hlinked.shutdown⟩, hidle,
    hlogs.pushed, hlogs.rows, hlogs.handles⟩,
    ⟨hrest, hmemory.orphan, hmemory.kept, hmemory.rows⟩, hsubmits⟩, hget⟩

/-- The tool call has not come to its `Submit`. -/
def ToolCallPc.inProgress : ToolCallPc → Bool
  | submitted => false
  | _ => true

namespace Intake

variable (c : Crypto) (strict : Bool)

/-- The events of the tool calls that have not come to their `Submit`. -/
def entering (t : Intake) : List Event :=
  (t.calls.filter fun call => call.pc.inProgress).map ToolCall.event

/-- Every event on its way to the store, apart from the one in hand. -/
def pending (t : Intake) : List Event :=
  t.pipeline.waiting ++ t.pipeline.entering ++ t.entering

/-- A parent is loaded when it was pushed and not given up, and an event is given up when it is not
the parent of one on its way. -/
def inOrder (t : Intake) : Action → Bool
  | .go i =>
    match t.calls[i]? with
    | some ⟨event, .load⟩ =>
      match t.lastEventByTask.get? event.taskID with
      | none => true
      | some id => id = [] ||
          (t.pipeline.memory.kept t.pipeline.consumer.loop t.pipeline.waiting).any fun x =>
            x.id = id && x.taskID = event.taskID
    | _ => true
  | .consume _ => t.pipeline.consumer.loop.givesUp.all fun x =>
      t.pending.all fun e => CausalLink.Independent x.causalLink e.causalLink
  | _ => true

/-- The invariant. -/
structure Causal (signer : Signer) (runID : Bytes) (genesis : EventRow) (t : Intake)
    (q : List Event) : Prop where
  pipeline : t.pipeline.Causal c strict signer runID genesis q
  calls : ∀ e ∈ t.entering, t.pipeline.memory.Follows t.pipeline.consumer.loop q e

variable {signer : Signer} {runID : Bytes} {genesis : EventRow}

/-- A step of the pipeline keeps the invariant. -/
theorem Causal.lift {t t' : Intake} {a : Pipeline.Action} {q : List Event}
    (h : t.Causal c strict signer runID genesis q) (hbefore : a.isShutdown = false)
    (hnew : ∀ e ∈ a.handsIn, t.pipeline.memory.Follows t.pipeline.consumer.loop q e)
    (hspares : ∀ e ∈ t.pending, t.pipeline.Spares a e) (hstep : t.lift c strict a = some t') :
    ∃ q', t'.Causal c strict signer runID genesis q' := by
  rw [Intake.lift, Option.map_eq_some_iff] at hstep
  obtain ⟨p, hp, rfl⟩ := hstep
  rw [pending, h.pipeline.refines.waiting, List.forall_mem_append] at hspares
  obtain ⟨q', hcases, hholds, -⟩ :=
    Pipeline.step_cases c strict h.pipeline.refines.linked.holds hp
  obtain ⟨hcausal, hfollows⟩ := h.pipeline.step c strict hbefore hnew hspares.1 hcases hholds
  exact ⟨q', hcausal, fun e he => hfollows e (hspares.2 e he) (h.calls e he)⟩

/-- So does an event without a parent that is handed to it. -/
theorem Causal.hand {t t' : Intake} {env : MessageEnv} {a : Event → Pipeline.Action}
    {q : List Event} (h : t.Causal c strict signer runID genesis q)
    (ha : ∀ e, (a e).isShutdown = false ∧ ∀ p : Pipeline, p.givesUp (a e) = none)
    (hnew : ∀ e, Clean e → ∀ e' ∈ (a e).handsIn, e'.parentID = [])
    (hstep : t.hand c strict env a = some t') :
    ∃ q', t'.Causal c strict signer runID genesis q' := by
  obtain ⟨hp, hclean⟩ := h.pipeline.takeEvent env.pick
  have ht : Causal c strict signer runID genesis
      { t with pipeline := (t.pipeline.takeEvent env.pick).2 } q := ⟨hp, h.calls⟩
  refine ht.lift c strict (ha _).1 (fun e he => Or.inl (hnew _ hclean e he)) ?_ hstep
  intro e _ x hx
  rw [(ha _).2] at hx
  cases hx

/-- A step of a tool call keeps the invariant. -/
theorem Causal.goOn {t t' : Intake} {i : Nat} {call : ToolCall} {q : List Event}
    (h : t.Causal c strict signer runID genesis q) (hok : t.inOrder (.go i) = true)
    (hcall : t.calls[i]? = some call) (hstep : t.goOn c strict i call = some t') :
    ∃ q', t'.Causal c strict signer runID genesis q' := by
  obtain ⟨event, pc⟩ := call
  have hevent : pc.inProgress = true →
      t.pipeline.memory.Follows t.pipeline.consumer.loop q event := fun hpc =>
    h.calls event (List.mem_map_of_mem (List.mem_filter.mpr ⟨List.mem_of_getElem? hcall, hpc⟩))
  -- the calls after one of them has changed
  have hset : ∀ {call : ToolCall},
      (call.pc.inProgress = true →
        t.pipeline.memory.Follows t.pipeline.consumer.loop q call.event) →
      ∀ e ∈ ((t.calls.set i call).filter fun call => call.pc.inProgress).map ToolCall.event,
        t.pipeline.memory.Follows t.pipeline.consumer.loop q e := by
    intro call hfollows e he
    obtain ⟨x, hx, rfl⟩ := List.mem_map.mp he
    obtain ⟨hx, hpc⟩ := List.mem_filter.mp hx
    rcases List.mem_or_eq_of_mem_set hx with hx | rfl
    · exact h.calls _ (List.mem_map_of_mem (List.mem_filter.mpr ⟨hx, hpc⟩))
    · exact hfollows hpc
  cases pc with
  | load =>
    cases hstep
    refine ⟨q, h.pipeline, hset fun _ => ?_⟩
    rw [inOrder, hcall, h.pipeline.refines.waiting] at hok
    dsimp only at hok ⊢
    cases hlast : t.lastEventByTask.get? event.taskID with
    | none => exact hevent rfl
    | some id =>
      rw [hlast] at hok
      dsimp only at hok
      rw [Bool.or_eq_true, decide_eq_true_eq, List.any_eq_true] at hok
      rcases hok with hnil | ⟨x, hx, hparent⟩
      · exact Or.inl hnil
      · rw [Bool.and_eq_true, decide_eq_true_eq, decide_eq_true_eq] at hparent
        exact Or.inr ⟨x, hx, hparent⟩
  | store =>
    cases hstep
    exact ⟨q, h.pipeline, hset fun _ => hevent rfl⟩
  | submit =>
    have ht : Causal c strict signer runID genesis
        { t with calls := t.calls.set i ⟨event, .submitted⟩ } q :=
      ⟨h.pipeline, hset fun hpc => (by cases hpc)⟩
    refine ht.lift c strict rfl (fun e he => ?_) (fun _ _ x hx => (by cases hx)) hstep
    cases he
    exact hevent rfl
  | submitted => cases hstep

/-- **The step lemma.** -/
theorem Causal.step {t t' : Intake} {a : Action} {q : List Event}
    (h : t.Causal c strict signer runID genesis q) (hok : t.inOrder a = true)
    (hstep : t.step c strict a = some t') : ∃ q', t'.Causal c strict signer runID genesis q' := by
  cases a with
  | request env taskID req rule =>
    cases hstep
    obtain ⟨hp, hclean⟩ := h.pipeline.takeEvent env.pick
    refine ⟨q, hp, ?_⟩
    rw [entering, List.filter_append, List.map_append]
    refine List.forall_mem_append.mpr ⟨h.calls, fun e he => Or.inl ?_⟩
    obtain ⟨call, hmem, rfl⟩ := List.mem_map.mp he
    cases List.mem_singleton.mp (List.mem_filter.mp hmem).1
    show (t.pipeline.takeEvent env.pick).1.parentID = []
    rw [hclean.1]
  | go i =>
    rw [Intake.step, Option.bind_eq_some_iff] at hstep
    obtain ⟨call, hcall, hgo⟩ := hstep
    exact h.goOn c strict hok hcall hgo
  | response env resp =>
    rw [Intake.step] at hstep
    split at hstep
    · refine h.hand c strict (fun e => ⟨rfl, fun p => rfl⟩) ?_ hstep
      intro e hclean e' he
      cases he
      exact show e.parentID = [] by rw [hclean.1]
    · cases hstep
      exact ⟨q, h⟩
  | tick anchor =>
    cases anchor with
    | none =>
      exact h.lift c strict rfl (fun _ he => (by cases he)) (fun _ _ x hx => (by cases hx)) hstep
    | some x =>
      obtain ⟨env, anchor⟩ := x
      rw [Intake.step] at hstep
      refine h.hand c strict (fun e => ⟨rfl, fun p => rfl⟩) ?_ hstep
      intro e hclean e' he
      cases he
      exact show e.parentID = [] by rw [hclean.1]
  | next i =>
    exact h.lift c strict rfl (fun _ he => (by cases he)) (fun _ _ x hx => (by cases hx)) hstep
  | consume env =>
    refine h.lift c strict rfl (fun e he => (by cases he)) (fun e he x hx => ?_) hstep
    have hx : t.pipeline.consumer.loop.givesUp = some x := hx
    rw [inOrder, hx, Option.all_some, List.all_eq_true] at hok
    exact of_decide_eq_true (hok e he)
  | quit =>
    exact h.lift c strict rfl (fun _ he => (by cases he)) (fun _ _ x hx => (by cases hx)) hstep

end Intake

/-- The store after the genesis event has one row, which belongs to the run. -/
theorem row_of_genesis (c : Crypto) (strict : Bool) {env : GenesisEnv} {signer : Signer}
    {pool : List Event} {agentName runID : Bytes} {s : State}
    (hgen : createGenesisBlock c strict env (initialState signer pool) agentName = (.ok runID, s)) :
    ∃ row, s.db.events = [row] ∧ row.runID = runID ∧
      row.parentID = (getEvent env.pick pool).1.parentID := by
  obtain ⟨e, db, ⟨-, hparent⟩, hevents, hstep, hlen, -⟩ :=
    createGenesisBlock_eq_ok c strict hgen rfl
  have hempty : db.events = [] := hevents
  show ∃ row, (newEventProcessor s runID).core.db.events = [row] ∧ _
  generalize (newEventProcessor s runID).core = core at hstep hlen
  cases hstep with
  | unstored h =>
    rw [Core.rows, DB.rowsOf, hempty] at hlen
    cases hlen
  | @stored e' row db' h henc hadd =>
    obtain ⟨-, hadded, -⟩ := DB.addEvent_eq_some hadd
    obtain ⟨_, _, -, -, hencoded⟩ := encodeEvent_eq_ok henc
    refine ⟨row, by rw [hadded, hempty]; rfl, ?_, ?_⟩
    · rw [hencoded]
      show e'.runID = runID
      rw [h.fields]
    · rw [hencoded]
      show e'.parentID = _
      rw [h.fields]
      exact hparent

/-- The genesis event has no parent. -/
theorem parentID_of_genesis (c : Crypto) (strict : Bool) {env : GenesisEnv} {signer : Signer}
    {pool : List Event} (hpool : ∀ e ∈ pool, Clean e) {agentName runID : Bytes} {s : State}
    (hgen : createGenesisBlock c strict env (initialState signer pool) agentName = (.ok runID, s)) :
    ∀ row ∈ s.db.rowsOf runID, row.parentID = [] := by
  obtain ⟨genesis, hevents, -, hparent⟩ := row_of_genesis c strict hgen
  have hclean : (getEvent env.pick pool).1.parentID = [] := by
    rw [(clean_getEvent hpool env.pick).1.1]
  intro row hrow
  have hmem : row ∈ s.db.events := (List.mem_filter.mp hrow).1
  rw [hevents, List.mem_singleton] at hmem
  rw [hmem]
  exact hparent.trans hclean

namespace Intake

variable (c : Crypto) (strict : Bool) {signer : Signer} {runID : Bytes}

/-- A system that was just started. -/
def initial (ringBuffer : Buffer Event) (state : State) (mode : BackpressureMode) : Intake :=
  { pipeline := .initial ringBuffer state mode }

theorem causal_initial {env : GenesisEnv} {pool : List Event} (hpool : ∀ e ∈ pool, Clean e)
    {agentName : Bytes} {s : State}
    (hgen : createGenesisBlock c strict env (initialState signer pool) agentName = (.ok runID, s))
    {zero : Event} {capacity : Int} {ringBuffer : Buffer Event}
    (hnew : Buffer.new strict zero capacity = .ok ringBuffer) (mode : BackpressureMode) :
    ∃ genesis, (initial ringBuffer (newEventProcessor s runID) mode).Causal c strict signer runID
      genesis [] := by
  obtain ⟨genesis, hrow, hrefines⟩ := Pipeline.refines_initial c strict hgen hnew mode
  have hpool' : ∀ e ∈ s.pool, Clean e := by
    have h := clean_createGenesisBlock c strict (s := initialState signer pool) hpool env agentName
    rw [hgen] at h
    exact h
  have hparent := parentID_of_genesis c strict hpool hgen
  rw [hrow, List.forall_mem_singleton] at hparent
  refine ⟨genesis, ⟨hrefines, ⟨hpool', fun x hx => (by cases hx), .nil, ?_⟩,
    List.forall_mem_nil _⟩, List.forall_mem_nil _⟩
  show CausalLink.Ordered ((s.db.rowsOf runID).map EventRow.causalLink)
  rw [hrow]
  exact AllGrounded.nil.concat (Or.inl hparent)

/-- The parent of a row is a row of the same task before it. -/
theorem Causal.parent_before {genesis : EventRow} {t : Intake} {q : List Event}
    (h : t.Causal c strict signer runID genesis q) :
    ∀ row ∈ t.pipeline.rows runID, row.parentID ≠ [] →
      ∃ parent ∈ t.pipeline.rows runID, parent.id = row.parentID ∧
        parent.taskID = row.taskID ∧ parent.seqIndex < row.seqIndex := by
  have hchain := h.pipeline.refines.linked.chain
  have hordered := h.pipeline.memory.rows
  have hlog := hchain.isLog
  rw [hchain.rows_eq] at hordered hlog
  rw [Pipeline.rows, DB.orderedRows_of_isLog hlog]
  intro row hrow hne
  obtain ⟨l₁, l₂, hsplit⟩ := List.append_of_mem hrow
  rw [hsplit] at hordered hlog
  rcases hordered (l₁.map EventRow.causalLink) row.causalLink (l₂.map EventRow.causalLink)
    (by simp) with hroot | ⟨x, hx, hid, htask⟩
  · exact absurd hroot hne
  · obtain ⟨parent, hparent, rfl⟩ := List.mem_map.mp hx
    refine ⟨parent, ?_, hid, htask, ?_⟩
    · rw [hsplit]
      exact List.mem_append_left _ hparent
    · exact (List.pairwise_append.mp hlog.pairwise_num).2.2 parent hparent row List.mem_cons_self

/-- **Causal links are closed and ordered**, in any interleaving in which a parent is loaded only
after its event was pushed, and not when its event has failed to be stored, and in which an event
that fails to be stored is not the parent of one on its way: the parent of a row is a row of the
same run and task with a smaller number. -/
theorem causal_links {env : GenesisEnv} {pool : List Event} (hpool : ∀ e ∈ pool, Clean e)
    {agentName : Bytes} {s : State}
    (hgen : createGenesisBlock c strict env (initialState signer pool) agentName = (.ok runID, s))
    {zero : Event} {capacity : Int} {ringBuffer : Buffer Event}
    (hnew : Buffer.new strict zero capacity = .ok ringBuffer) (mode : BackpressureMode)
    {actions : List Action} {t : Intake}
    (hok : along (step c strict) inOrder (initial ringBuffer (newEventProcessor s runID) mode)
      actions = true)
    (hrun : runSteps (step c strict) (initial ringBuffer (newEventProcessor s runID) mode) actions
      = some t) :
    ∀ row ∈ t.pipeline.rows runID, row.parentID ≠ [] →
      ∃ parent ∈ t.pipeline.rows runID, parent.id = row.parentID ∧
        parent.taskID = row.taskID ∧ parent.seqIndex < row.seqIndex := by
  obtain ⟨genesis, hinit⟩ := causal_initial c strict hpool hgen hnew mode
  obtain ⟨q, hinv⟩ := runSteps_inv (fun t => ∃ q, Causal c strict signer runID genesis t q)
    (fun ⟨q, hq⟩ ha hstep => hq.step c strict ha hstep) ⟨[], hinit⟩ hok hrun
  exact hinv.parent_before

/-- What SHA-256 gives for two calls of a task, and for the second one alone. -/
def causalHashes : List (Bytes × Bytes) := [
  (lits [
    "a2b888155809cf5b89ce1f2a451e1274ddcc36001c398633e29fd9c1253c4fd3\x7b\"actor\":\"\",",
    "\"event_type\":\"tool_call\",\"id\":\"evt-1\",\"method\":\"tools/call\",",
    "\"params\":\x7b\"task_id\":\"task-1\"\x7d,\"parent_id\":\"\",\"policy_id\":\"\",",
    "\"response\":null,\"risk_level\":\"\",\"run_id\":\"run-1\",\"seq_index\":1,",
    "\"task_id\":\"task-1\",\"task_state\":\"\",\"timestamp\":\"2026-01-15T09:30:00Z\"\x7d"],
    hexText "59901c916124ad5a3bcf49be80549a6c38d5ff70685c185e8509336b48a5bcfe"),
  (lits [
    "59901c916124ad5a3bcf49be80549a6c38d5ff70685c185e8509336b48a5bcfe\x7b\"actor\":\"\",",
    "\"event_type\":\"tool_call\",\"id\":\"evt-2\",\"method\":\"tools/call\",",
    "\"params\":\x7b\"task_id\":\"task-1\"\x7d,\"parent_id\":\"evt-1\",\"policy_id\":\"\",",
    "\"response\":null,\"risk_level\":\"\",\"run_id\":\"run-1\",\"seq_index\":2,",
    "\"task_id\":\"task-1\",\"task_state\":\"\",\"timestamp\":\"2026-01-15T09:30:00Z\"\x7d"],
    hexText "afd2f100ddb7495ab79edfafd48873ceed3c8ffa704c9c548759fd1e0ea709d3"),
  (lits [
    "a2b888155809cf5b89ce1f2a451e1274ddcc36001c398633e29fd9c1253c4fd3\x7b\"actor\":\"\",",
    "\"event_type\":\"tool_call\",\"id\":\"evt-2\",\"method\":\"tools/call\",",
    "\"params\":\x7b\"task_id\":\"task-1\"\x7d,\"parent_id\":\"evt-1\",\"policy_id\":\"\",",
    "\"response\":null,\"risk_level\":\"\",\"run_id\":\"run-1\",\"seq_index\":1,",
    "\"task_id\":\"task-1\",\"task_state\":\"\",\"timestamp\":\"2026-01-15T09:30:00Z\"\x7d"],
    hexText "25b1931da1ac6cc0f1275be6ac4d214a5fe889417cd3cbc5779fe4d2066ab887")]

/-- What Ed25519 gives for those. -/
def causalSignatures : List ((Bytes × Bytes) × Bytes) := [
  ((recordedKey, lit "59901c916124ad5a3bcf49be80549a6c38d5ff70685c185e8509336b48a5bcfe"),
    hexText "959ec733ce5a8cb4fa9356ee1583b30330c59bc2a9366b8df626310a8858800b" ++
      hexText "75ffdc989080a6df34a73da16730b773122dabceb52848696edaaf0927d31f0d"),
  ((recordedKey, lit "afd2f100ddb7495ab79edfafd48873ceed3c8ffa704c9c548759fd1e0ea709d3"),
    hexText "c68b5bf6c68e8c210cc0d99dd8dc05fa6fb7b8fcc77adcedf458513f40ab34f3" ++
      hexText "9500150431a67aa0aa7a61a60c5f64675579159598ced0bfc3f71dc6e334e10a"),
  ((recordedKey, lit "25b1931da1ac6cc0f1275be6ac4d214a5fe889417cd3cbc5779fe4d2066ab887"),
    hexText "121945b3e474a4ace588e85d34cb12d073917d0827a37b964dee7947068066a1" ++
      hexText "2f93e3f69433c59afe21e76cb9e2f41a82cefb19d2f3d8a6bcfc10a080644400")]

/-- The primitives, as far as the runs below use them. -/
def causalCrypto : Crypto :=
  .ofTables (recordedHashes ++ causalHashes) (recordedSignatures ++ causalSignatures)
    [(recordedSigner.publicKey, recordedKey)]

/-- The state after `CreateGenesisBlock`. -/
def causalGenesis : State :=
  (createGenesisBlock causalCrypto true recordedEnv (initialState recordedSigner [])
    (lit "agent")).2

theorem createGenesisBlock_causal : createGenesisBlock causalCrypto true recordedEnv
    (initialState recordedSigner []) (lit "agent") = (.ok (lit "run-1"), causalGenesis) := by
  have hfst : (createGenesisBlock causalCrypto true recordedEnv
      (initialState recordedSigner []) (lit "agent")).1 = .ok (lit "run-1") := by decide +kernel
  rw [causalGenesis.eq_1]
  exact eq_mk_snd hfst

/-- The system on the store that the recorded start leaves. -/
def recordedIntake (ringBuffer : Buffer Event) : Intake :=
  { pipeline := recordedPipeline ringBuffer causalGenesis }

/-- A tool call of the given task arrives. -/
def arrival (id taskID : String) : Action :=
  .request { id := lit id, now := recordedEnv.now } (lit taskID)
    { jsonrpc := lit "2.0"
      method := lit "tools/call"
      params := some (SortedMap.ofList [(lit "task_id", .string (lit taskID))]) } none

/-- Two calls of a task, one after the other. -/
def orderedCalls : List Action :=
  arrival "evt-1" "task-1" :: List.replicate 3 (.go 0) ++ List.replicate 4 (.next 0) ++
    arrival "evt-2" "task-1" :: List.replicate 3 (.go 1) ++ List.replicate 4 (.next 1) ++
    List.replicate 14 (.consume quietEnv)

theorem causal_links_ordered : ∃ t,
    runSteps (step causalCrypto true) (recordedIntake pairBuffer) orderedCalls = some t ∧
    (t.pipeline.rows (lit "run-1")).map (fun row => (row.id, row.parentID)) =
      [(lit "evt-0", []), (lit "evt-1", []), (lit "evt-2", lit "evt-1")] ∧
    ∀ row ∈ t.pipeline.rows (lit "run-1"), row.parentID ≠ [] →
      ∃ parent ∈ t.pipeline.rows (lit "run-1"), parent.id = row.parentID ∧
        parent.taskID = row.taskID ∧ parent.seqIndex < row.seqIndex := by
  have hrows : (runAlong (step causalCrypto true) inOrder (recordedIntake pairBuffer)
      orderedCalls).any (fun t => (t.pipeline.rows (lit "run-1")).map
          (fun row => (row.id, row.parentID)) =
        [(lit "evt-0", []), (lit "evt-1", []), (lit "evt-2", lit "evt-1")]) = true := by
    decide +kernel
  obtain ⟨t, hok, ht, hrows⟩ := exists_of_runAlong hrows
  exact ⟨t, ht, of_decide_eq_true hrows, @causal_links causalCrypto true recordedSigner
    (lit "run-1") recordedEnv [] (List.forall_mem_nil _) (lit "agent")
    causalGenesis createGenesisBlock_causal {} 2 pairBuffer rfl .drop orderedCalls t hok ht⟩

/-- The second call of a task loads the id of the first one, and overtakes it. -/
def overtaking : List Action :=
  arrival "evt-1" "task-1" :: List.replicate 2 (.go 0) ++
    arrival "evt-2" "task-1" :: List.replicate 3 (.go 1) ++ List.replicate 4 (.next 0) ++
    List.replicate 7 (.consume quietEnv)

/-- The buffer is full when the first call of a task is submitted, and the call is dropped. The
event in the buffer fails to be stored. -/
def dropping : List Action :=
  arrival "evt-9" "" :: .go 0 :: List.replicate 4 (.next 0) ++
    arrival "evt-1" "task-1" :: List.replicate 3 (.go 1) ++ List.replicate 2 (.next 1) ++
    List.replicate 8 (.consume { quietEnv with
      faults := { lastEvent := some (.error (lit "database is locked")) } }) ++
    arrival "evt-2" "task-1" :: List.replicate 3 (.go 2) ++ List.replicate 4 (.next 2) ++
    List.replicate 7 (.consume quietEnv)

/-- **A parent can be missing**: it has not been submitted yet, or it was dropped. -/
theorem parent_missing :
    (runSteps (step causalCrypto true) (recordedIntake pairBuffer) overtaking).any
      (fun t => (t.pipeline.rows (lit "run-1")).map (fun row => (row.id, row.parentID)) =
        [(lit "evt-0", []), (lit "evt-2", lit "evt-1")]) = true ∧
    (runSteps (step causalCrypto true) (recordedIntake smallBuffer) dropping).any
      (fun t => (t.pipeline.rows (lit "run-1")).map (fun row => (row.id, row.parentID)) =
        [(lit "evt-0", []), (lit "evt-2", lit "evt-1")]) = true := by
  decide +kernel

end Intake

end Logryph
