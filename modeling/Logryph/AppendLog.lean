import Logryph.Fork

/-!
# The pipeline is an append-only log

Until it is shut down, a worker has one loop that takes events from the buffer. Seen from the
outside it is a log: the events for which `Push` has succeeded, in that order, each with the rows
that were stored for it. The events still in the buffer come last and have no rows.

* `Item.Rows` — the rows of an event that was taken from the buffer: none, its own, or its own and
  directly after it the one that completes its task
* `LoopStep.logs` — a step of the loop takes the next event, or adds a row for the one in hand
* `pipeline_refines_log` — the rows of the run are the genesis row and the rows of these events
-/

namespace Logryph

open Infra

/-! ## The event in hand -/

/-- `e'` is `e` up to what `persistEvent` fills in. -/
def Numbered (e e' : Event) : Prop :=
  ∃ seqIndex runID prevHash currentHash signature,
    e' = { e with seqIndex, runID, prevHash, currentHash, signature }

theorem Numbered.refl (e : Event) : Numbered e e := ⟨_, _, _, _, _, rfl⟩

theorem Numbered.trans {e e' e'' : Event} (h : Numbered e e') (h' : Numbered e' e'') :
    Numbered e e'' := by
  obtain ⟨_, _, _, _, _, rfl⟩ := h
  obtain ⟨_, _, _, _, _, rfl⟩ := h'
  exact ⟨_, _, _, _, _, rfl⟩

/-- The event `e'` completes the task of `e`. -/
structure Completes (e e' : Event) : Prop where
  eventType : e'.eventType = lit "task_terminal"
  taskID : e'.taskID = e.taskID
  taskState : e'.taskState = e.taskState

theorem Completes.numbered {e e' e'' : Event} (h : Completes e e') (h' : Numbered e' e'') :
    Completes e e'' := by
  obtain ⟨_, _, _, _, _, rfl⟩ := h'
  exact ⟨h.eventType, h.taskID, h.taskState⟩

/-- The event that is being written for `item`, and what is recorded about the item. -/
def Target.Handles (item : Item) (e : Event) : Target → Prop
  | main => item.stored = false ∧ item.completed = false ∧ Numbered item.event e
  | completion _ => item.stored = true ∧ item.completed = false ∧ Completes item.event e

theorem Target.Handles.numbered {item : Item} {e e' : Event} {target : Target}
    (h : target.Handles item e) (h' : Numbered e e') : target.Handles item e' := by
  cases target with
  | main => exact ⟨h.1, h.2.1, h.2.2.trans h'⟩
  | completion main => exact ⟨h.1, h.2.1, h.2.2.numbered h'⟩

/-- The `ProcessEvent` is that of `item`. -/
def ProcessPc.Handles (item : Item) : ProcessPc → Prop
  | stats target e => target.Handles item e
  | last target e => target.Handles item e
  | store target e => target.Handles item e
  | track e => item.stored = true ∧ item.completed = false ∧ Numbered item.event e
  | ended _ => True

/-- The record of an item changes, but not its event. -/
theorem Item.event_note (item : Item) (stored : Bool) (pc : ProcessPc) :
    (item.note stored pc).event = item.event := by
  unfold Item.note
  split <;> rfl

/-- A `StoreEvent` that fails is not recorded. -/
theorem ProcessPc.Handles.note_false {item : Item} {pc : ProcessPc} (h : pc.Handles item) :
    item.note false pc = item := by
  obtain ⟨event, stored, completed⟩ := item
  cases pc with
  | store target e =>
    cases target with
    | main =>
      cases h.1
      rfl
    | completion main =>
      cases h.2.1
      rfl
  | _ => rfl

section

variable {c : Crypto} {strict : Bool}

theorem handles_persistFailed (item : Item) (s : State) (target : Target) (e : Event) (f : Fault) :
    (persistFailed strict s target e f).1.Handles item := by
  obtain ⟨result, h⟩ := persistFailed_ended strict s target e f
  rw [h]
  trivial

theorem handles_persistDone {item : Item} {target : Target} {e : Event}
    (h : target.Handles item e) (s : State) :
    (persistDone strict s e target).1.Handles (item.note true (.store target e)) := by
  cases target with
  | main =>
    unfold persistDone
    dsimp only
    split
    · exact ⟨rfl, h.2⟩
    · trivial
  | completion main =>
    obtain ⟨result, hend⟩ := completed_ended main (s.putEvent strict e)
    rw [persistDone, hend]
    trivial

/-- Every step of a `ProcessEvent` is about the same item. -/
theorem ProcessPc.Handles.step {item : Item} {pc : ProcessPc} (h : pc.Handles item)
    (env : Worker.HandleEnv) (s : State) :
    (processStep c strict env s pc).1.Handles (item.note (stores strict env s pc) pc) := by
  cases pc with
  | stats target e =>
    rw [processStep]
    split
    · exact handles_persistFailed _ s target e _
    · exact Target.Handles.numbered h ⟨_, _, _, _, _, rfl⟩
  | last target e =>
    rw [processStep]
    split
    · exact handles_persistFailed _ s target e _
    · split
      · exact handles_persistFailed _ s target e _
      · next e₁ hlink =>
        have hlinked : Numbered e e₁ := ⟨_, _, _, _, _, linkEvent_fields strict hlink⟩
        split
        · exact handles_persistFailed _ s target e₁ _
        · next e₂ hsign =>
          obtain ⟨hash, -, rfl⟩ := hashAndSignEvent_eq_ok c strict hsign
          exact Target.Handles.numbered h (hlinked.trans ⟨_, _, _, _, _, rfl⟩)
  | store target e =>
    rw [processStep]
    rcases hst : storeEvent strict (env.faultsFor target).storeEvent s.db e with ⟨f | u, db⟩
    · exact handles_persistFailed _ { s with db } target e f
    · have hstored : stores strict env s (.store target e) = true := by rw [stores, hst]; rfl
      rw [hstored]
      exact handles_persistDone h { s with db }
  | track e =>
    obtain ⟨hstored, hcompleted, _, _, _, _, _, rfl⟩ := h
    rw [processStep]
    dsimp only
    split
    · exact ⟨hstored, hcompleted, rfl, rfl, rfl⟩
    · split <;> trivial
  | ended result => trivial

end

/-! ## Its rows -/

/-- The row is that of the event. -/
def StoredAs (e : Event) (row : EventRow) : Prop := ∃ e', Numbered e e' ∧ encodeEvent e' = .ok row

/-- The row completes the task of the event. -/
structure TerminalOf (e : Event) (row : EventRow) : Prop where
  eventType : row.eventType = lit "task_terminal"
  taskID : row.taskID = e.taskID
  taskState : row.taskState = e.taskState

theorem terminalOf_encodeEvent {e e' : Event} {row : EventRow} (h : Completes e e')
    (henc : encodeEvent e' = .ok row) : TerminalOf e row := by
  obtain ⟨_, _, -, -, rfl⟩ := encodeEvent_eq_ok henc
  exact ⟨h.eventType, h.taskID, h.taskState⟩

/-- **The rows of an event that was taken from the buffer**: its own if its `StoreEvent` has
succeeded, and directly after it the one that completes its task, if there is one and its
`StoreEvent` has succeeded as well. -/
inductive Item.Rows (item : Item) : List EventRow → Prop
  | failed (stored : item.stored = false) (completed : item.completed = false) : Item.Rows item []
  | stored {row : EventRow} (stored : item.stored = true) (completed : item.completed = false)
      (own : StoredAs item.event row) : Item.Rows item [row]
  | completed {row terminal : EventRow} (stored : item.stored = true)
      (completed : item.completed = true) (own : StoredAs item.event row)
      (after : TerminalOf item.event terminal) : Item.Rows item [row, terminal]

/-- What a successful `StoreEvent` adds. -/
theorem Item.Rows.append {item : Item} {rows : List EventRow} {target : Target} {e : Event}
    {row : EventRow} (h : item.Rows rows) (hpc : target.Handles item e)
    (henc : encodeEvent e = .ok row) :
    (item.note true (.store target e)).Rows (rows ++ [row]) := by
  cases target with
  | main =>
    obtain ⟨hstored, hcompleted, hsame⟩ := hpc
    cases h with
    | failed => exact .stored rfl hcompleted ⟨e, hsame, henc⟩
    | stored stored => cases hstored.symm.trans stored
    | completed stored => cases hstored.symm.trans stored
  | completion main =>
    obtain ⟨hstored, hcompleted, hcompletes⟩ := hpc
    cases h with
    | failed stored => cases hstored.symm.trans stored
    | stored stored completed own =>
      exact .completed hstored rfl own (terminalOf_encodeEvent hcompletes henc)
    | completed stored completed => cases hcompleted.symm.trans completed

/-! ## The loop -/

/-- The event that the loop has in hand. -/
def LoopPc.inHand : LoopPc → List Item
  | process _ item _ => [item]
  | _ => []

def LoopPc.Handles : LoopPc → Prop
  | process _ item pc => pc.Handles item
  | _ => True

/-- The rows are those of the events that were handled and of the one in hand, and those events and
the ones in the buffer are what was pushed. -/
structure Memory.Logs (genesis : EventRow) (m : Memory) (pc : LoopPc) (q : List Event) : Prop where
  pushed : m.pushed = (m.handled ++ pc.inHand).map Item.event ++ q
  rows : ∃ done hand, m.worker.state.core.rows = genesis :: (done.flatten ++ hand.flatten) ∧
    List.Forall₂ Item.Rows m.handled done ∧ List.Forall₂ Item.Rows pc.inHand hand
  handles : pc.Handles

section

variable {c : Crypto} {strict : Bool} {env : Worker.HandleEnv} {m m' : Memory} {q q' : List Event}
  {genesis : EventRow} {signer : Signer} {runID : Bytes}

/-- **A step of the loop** takes the next event, adds a row for the one in hand, or does nothing to
the log. -/
theorem LoopStep.logs {pc pc' : LoopPc} (h : LoopStep c strict env m q pc m' pc' q')
    (hinv : RunInv c strict signer runID m.worker.state.core)
    (hfresh : ∀ x ∈ pc.processing, Fresh c strict m.worker.state.core x)
    (hlogs : m.Logs genesis pc q) : m'.Logs genesis pc' q' := by
  obtain ⟨hpushed, ⟨done, hand, hrows, hdone, hhand⟩, hhandles⟩ := hlogs
  cases h with
  | take first =>
    subst first
    cases hhand
    refine ⟨?_, ⟨done, [[]], hrows, hdone, .cons (.failed rfl rfl) .nil⟩, rfl, rfl, .refl _⟩
    rw [hpushed]
    simp [LoopPc.inHand]
  | @process j item pc going =>
    have hpc : Fresh c strict m.worker.state.core pc := hfresh pc rfl
    have hhandles : pc.Handles item := hhandles
    obtain ⟨hstep, hsigner, hrun, -⟩ := processStep_spec c strict hinv hpc env
    obtain ⟨-, hadded⟩ := hstep.runInv c strict hinv hpc hsigner hrun
    refine ⟨?_, ?_, hhandles.step env _⟩
    · rw [hpushed]
      simp [LoopPc.inHand, Item.event_note]
    · obtain _ | ⟨hitem, hnil⟩ := hhand
      cases hnil
      rcases hadded with ⟨hstored, hsame⟩ | ⟨hstored, target, e, row, rfl, henc, happend⟩
      · rw [hstored, hhandles.note_false]
        exact ⟨done, [_], hsame.trans hrows, hdone, .cons hitem .nil⟩
      · rw [hstored]
        refine ⟨done, [_ ++ [row]], ?_, hdone, .cons (hitem.append hhandles henc) .nil⟩
        rw [happend, hrows]
        simp
  | finish =>
    refine ⟨?_, ⟨done ++ hand, [], ?_, List.rel_append hdone hhand, .nil⟩, trivial⟩
    · rw [hpushed]
      simp [LoopPc.inHand]
    · show m.worker.state.core.rows = _
      rw [hrows]
      simp
  | _ => exact ⟨hpushed, ⟨done, hand, hrows, hdone, hhand⟩, trivial⟩

/-- Where the loop of `processEvents` is; outside of a batch it has nothing in hand. -/
def ConsumerPc.loop : ConsumerPc → LoopPc
  | draining _ pc => pc
  | _ => .left

theorem ConsumerStep.logs {pc pc' : ConsumerPc} (h : ConsumerStep c strict env m q pc m' pc' q')
    (hinv : RunInv c strict signer runID m.worker.state.core)
    (hfresh : ∀ x ∈ pc.processing, Fresh c strict m.worker.state.core x)
    (hlogs : m.Logs genesis pc.loop q) : m'.Logs genesis pc'.loop q' := by
  cases h with
  | stop before =>
    rcases before with ⟨i, rfl⟩ | ⟨i, rfl⟩ <;> exact ⟨hlogs.pushed, hlogs.rows, trivial⟩
  | loop step going => exact step.logs hinv hfresh hlogs
  | leave step => exact step.logs hinv hfresh hlogs
  | _ => exact ⟨hlogs.pushed, hlogs.rows, trivial⟩

/-- `Submit` adds to the events in the buffer, or does nothing to the log. -/
theorem SubmitStep.logs {e : Event} {pc pc' : SubmitPc} {loop : LoopPc}
    (h : SubmitStep m e q pc m' pc' q') (hlogs : m.Logs genesis loop q) :
    m'.Logs genesis loop q' := by
  cases h with
  | push room =>
    refine ⟨?_, hlogs.rows, hlogs.handles⟩
    rw [hlogs.pushed, List.append_assoc]
  | _ => exact ⟨hlogs.pushed, hlogs.rows, hlogs.handles⟩

end

/-! ## The system -/

namespace Pipeline

variable (c : Crypto) (strict : Bool)

/-- The events that were taken from the buffer. -/
def popped (p : Pipeline) : List Item := p.memory.handled ++ p.consumer.loop.inHand

/-- The simulation relation. -/
structure Refines (signer : Signer) (runID : Bytes) (genesis : EventRow) (p : Pipeline)
    (q : List Event) : Prop where
  linked : p.Linked c strict signer runID q
  idle : p.shutdown = .idle
  logs : p.memory.Logs genesis p.consumer.loop q

variable {signer : Signer} {runID : Bytes} {genesis : EventRow}

/-- **The step lemma.** -/
theorem Refines.step {p p' : Pipeline} {a : Action} {q q' : List Event}
    (h : p.Refines c strict signer runID genesis q) (hbefore : a.isShutdown = false)
    (hstep : Step c strict p q a p' q') (hholds : p'.memory.worker.ringBuffer.Holds q') :
    p'.Refines c strict signer runID genesis q' := by
  have halone : p.storesAlone strict a = true := by
    cases a with
    | consume env =>
      rw [storesAlone, h.idle]
      simp [ShutdownPc.processing]
    | shutdown env timedOut => cases hbefore
    | _ => rfl
  have hlinked := h.linked.step c strict halone hstep hholds
  cases hstep with
  | submit => exact ⟨hlinked, h.idle, h.logs⟩
  | next call step => exact ⟨hlinked, h.idle, step.logs h.logs⟩
  | consume before step =>
    subst before
    exact ⟨hlinked, h.idle, step.logs h.linked.chain h.linked.consumer h.logs⟩
  | tick running free => exact ⟨hlinked, h.idle, h.logs⟩
  | quit free => exact ⟨hlinked, h.idle, h.logs⟩
  | shutdown before step => cases hbefore

/-- The relation holds when the worker was just started. -/
theorem refines_initial {env : GenesisEnv} {pool : List Event} {agentName : Bytes} {s : State}
    (hgen : createGenesisBlock c strict env (initialState signer pool) agentName = (.ok runID, s))
    {zero : Event} {capacity : Int} {ringBuffer : Buffer Event}
    (hnew : Buffer.new strict zero capacity = .ok ringBuffer) (mode : BackpressureMode) :
    ∃ genesis, s.db.rowsOf runID = [genesis] ∧
      (initial ringBuffer (newEventProcessor s runID) mode).Refines c strict signer runID
        genesis [] := by
  obtain ⟨-, -, -, -, -, hlen, -⟩ := createGenesisBlock_eq_ok c strict hgen rfl
  obtain ⟨genesis, hrow⟩ := List.length_eq_one_iff.mp hlen
  exact ⟨genesis, hrow, linked_initial c strict hgen hnew mode, rfl, rfl,
    ⟨[], [], hrow, .nil, .nil⟩, trivial⟩

/-- **The pipeline refines an append-only log.** Before `Shutdown`, in any interleaving and with any
failures, the rows of the run in the order of their numbers are the genesis row and then, in the
order in which `Push` has succeeded, the rows of the events that were taken from the buffer: none
if the `StoreEvent` of the event has failed, and otherwise its own row and at most one more, which
completes its task. -/
theorem pipeline_refines_log {env : GenesisEnv} {pool : List Event} {agentName : Bytes} {s : State}
    (hgen : createGenesisBlock c strict env (initialState signer pool) agentName = (.ok runID, s))
    {zero : Event} {capacity : Int} {ringBuffer : Buffer Event}
    (hnew : Buffer.new strict zero capacity = .ok ringBuffer) (mode : BackpressureMode)
    {actions : List Action} {p : Pipeline} (hbefore : ∀ a ∈ actions, a.isShutdown = false)
    (hrun : runSteps (step c strict) (initial ringBuffer (newEventProcessor s runID) mode) actions
      = some p) :
    ∃ genesis q blocks, s.db.rowsOf runID = [genesis] ∧ p.memory.worker.ringBuffer.Holds q ∧
      p.memory.pushed = p.popped.map Item.event ++ q ∧
      p.rows runID = genesis :: blocks.flatten ∧ List.Forall₂ Item.Rows p.popped blocks := by
  obtain ⟨genesis, hrow, hinit⟩ := refines_initial c strict hgen hnew mode
  have hok : along (step c strict) (fun _ a => !a.isShutdown)
      (initial ringBuffer (newEventProcessor s runID) mode) actions = true :=
    along_of_forall fun a ha => by rw [hbefore a ha]; rfl
  obtain ⟨q, hinv⟩ := runSteps_inv (fun p => ∃ q, Refines c strict signer runID genesis p q)
    (fun ⟨q, hq⟩ ha hstep => by
      obtain ⟨q', hcases, hholds, -⟩ := step_cases c strict hq.linked.holds hstep
      exact ⟨q', hq.step c strict (Bool.not_eq_true' _ ▸ ha) hcases hholds⟩) ⟨[], hinit⟩ hok hrun
  obtain ⟨done, hand, hrows, hdone, hhand⟩ := hinv.logs.rows
  have hlog := hinv.linked.chain.isLog
  rw [hinv.linked.chain.rows_eq] at hrows hlog
  refine ⟨genesis, q, done ++ hand, hrow, hinv.linked.holds, hinv.logs.pushed, ?_,
    List.rel_append hdone hhand⟩
  rw [rows, DB.orderedRows_of_isLog hlog, hrows, List.flatten_append]

/-- The environment of the recorded calls. -/
def completingEnv : Worker.HandleEnv where
  completion := (recordedCalls.head (List.cons_ne_nil _ _)).completion
  duration := 0

/-- A call that starts a task is handled, and the response that completes it is still in hand. -/
def completingRun : List Action := submitPair ++ List.replicate 18 (.consume completingEnv)

theorem pipeline_refines_log_completing : ∃ p,
    runSteps (step recordedCrypto true) (recordedPipeline pairBuffer recordedGenesis) completingRun
      = some p ∧
    (p.rows (lit "run-1")).map (fun row => (row.id, row.eventType)) =
      [(lit "evt-0", lit "genesis"), (lit "evt-1", lit "tool_call"),
        (lit "evt-2", lit "tool_response"), (lit "evt-3", lit "task_terminal")] ∧
    p.popped.length = 2 ∧
    ∃ genesis q blocks, recordedGenesis.db.rowsOf (lit "run-1") = [genesis] ∧
      p.memory.worker.ringBuffer.Holds q ∧ p.memory.pushed = p.popped.map Item.event ++ q ∧
      p.rows (lit "run-1") = genesis :: blocks.flatten ∧
      List.Forall₂ Item.Rows p.popped blocks := by
  have hfacts : (runSteps (step recordedCrypto true) (recordedPipeline pairBuffer recordedGenesis)
      completingRun).any (fun p => decide ((p.rows (lit "run-1")).map
          (fun row => (row.id, row.eventType)) =
        [(lit "evt-0", lit "genesis"), (lit "evt-1", lit "tool_call"),
          (lit "evt-2", lit "tool_response"), (lit "evt-3", lit "task_terminal")]) &&
        p.popped.length == 2) = true := by decide +kernel
  obtain ⟨p, hp, hfacts⟩ := (Option.any_eq_true _ _).mp hfacts
  rw [Bool.and_eq_true, decide_eq_true_eq, beq_iff_eq] at hfacts
  exact ⟨p, hp, hfacts.1, hfacts.2, @pipeline_refines_log recordedCrypto true recordedSigner
    (lit "run-1") recordedEnv [] (lit "agent") recordedGenesis createGenesisBlock_recorded {} 2
    pairBuffer rfl .drop completingRun p (by decide +kernel) hp⟩

end Pipeline

end Logryph
