import Logryph.Causal
import Logryph.ReadPaths
import Logryph.Trace

/-!
# The trace of a task, from the ledger

`TraceCommand` reads the events of a task and prints them as a tree, from the events without a
parent on. An event is printed if all of its ancestors were stored. Which event becomes the parent
of another one is decided by the interceptor, before it is known what becomes of the parent.

* `printed_iff` — an event is printed once if its ancestors are there, and otherwise not at all
* `rooted_of_parents` — they are there if every parent was stored before its children
* `Intake.task_traced_iff` — when the trace of a recorded task shows all of it
* `Intake.call_not_traced` — a stored call that is not shown, since the call before it was dropped
-/

namespace Logryph

open Infra

def maxRoots : Nat := 10000

variable (strict : Bool)

/-- `TraceCommand` for a task, without the lines above and below the tree. One of the former has the
first eight bytes of the id of the run. -/
def traceCommand (faults : ReadFaults) (db : DB) (taskID : Bytes) : Except Fault TraceState := do
  let events ← inContext (lit "Failed to get events") (getEventsByTaskID strict faults db taskID)
  match events with
  | [] => .ok {}
  | first :: _ =>
    if first.runID.length < 8 then
      .error (.panic (lit "runtime error: slice bounds out of range [:8] with length " ++
        natText first.runID.length))
    else do
      let (roots, childrenMap) ← buildTree strict events
      inContext (lit "Root nodes exceed max") (check strict (roots.length ≤ maxRoots)
        (lit "root nodes exceed max: " ++ natText roots.length))
      printTraceTree strict roots childrenMap

/-- How often the event is printed. -/
def TraceState.printed (st : TraceState) (e : Event) : Nat :=
  (st.lines.map fun l => l.event.id).count e.id

/-! ## What is printed -/

section

variable {strict} {events : List Event}

/-- **An event is printed once if its parents lead to a root**, and otherwise not at all. -/
theorem printed_iff (h : Traceable events) {e : Event} (he : e ∈ events) :
    TraceState.printed { lines := (visitedFrames events).map TraceFrame.line } e = 1 ↔
      Rooted events Event.id parentOf e := by
  obtain ⟨hnodup, hmem⟩ := h.visited_iff
  have hinj : ∀ x ∈ (visitedFrames events).map TraceFrame.node,
      ∀ y ∈ events, x.id = y.id → x = y := fun x hx y hy hid =>
    List.inj_on_of_nodup_map h.ids_nodup ((hmem x).mp hx).mem hy hid
  have hids : (((visitedFrames events).map TraceFrame.node).map Event.id).Nodup :=
    hnodup.map_on fun x hx y hy hid => hinj x hx y ((hmem y).mp hy).mem hid
  have hprinted : TraceState.printed { lines := (visitedFrames events).map TraceFrame.line } e
      = (((visitedFrames events).map TraceFrame.node).map Event.id).count e.id := by
    rw [TraceState.printed, List.map_map, List.map_map]
    rfl
  rw [hprinted, ← hmem]
  constructor
  · intro hone
    obtain ⟨x, hx, hid⟩ := List.mem_map.mp (List.count_pos_iff.mp (hone ▸ Nat.one_pos))
    rw [← hinj x hx e he hid]
    exact hx
  · exact fun h => List.count_eq_one_of_mem hids (List.mem_map_of_mem h)

/-- Within its bounds, the command prints the tree. -/
theorem traceCommand_eq {faults : ReadFaults} {db : DB} {taskID : Bytes}
    (hread : getEventsByTaskID strict faults db taskID = .ok events) (h : Traceable events)
    (hrunID : ∀ e ∈ events, 8 ≤ e.runID.length)
    (hroots : (events.filter fun e => e.parentID = []).length ≤ maxRoots) :
    traceCommand strict faults db taskID
      = .ok { lines := (visitedFrames events).map TraceFrame.line } := by
  rw [traceCommand, bind_eq_ok]
  refine ⟨events, inContext_eq_ok.mpr hread, ?_⟩
  cases events with
  | nil =>
    have hnone : (visitedFrames []).map TraceFrame.node = [] :=
      List.eq_nil_iff_forall_not_mem.mpr fun e he => by
        cases ((h.visited_iff.2 e).mp he).mem
    rw [List.map_eq_nil_iff.mp hnone]
    rfl
  | cons first rest =>
    dsimp only
    rw [if_neg (not_lt.mpr (hrunID first List.mem_cons_self)), bind_eq_ok]
    obtain ⟨childrenMap, hbuild, hmap⟩ := buildTree_eq strict h.length_le
    refine ⟨_, hbuild, ?_⟩
    dsimp only
    rw [bind_eq_ok]
    exact ⟨(), inContext_eq_ok.mpr (check_eq_ok.mpr (decide_eq_true hroots)),
      printTraceTree_eq h strict hmap⟩

end

/-! ## What is read -/

section

variable {strict} {faults : ReadFaults} {db : DB} {taskID : Bytes} {events : List Event}

/-- The rows that `GetEventsByTaskID` reads. -/
def DB.readRows (db : DB) (taskID : Bytes) : List EventRow := (db.taskRows taskID).take maxEventRows

theorem DB.mem_taskRows {row : EventRow} :
    row ∈ db.taskRows taskID ↔ row ∈ db.events ∧ row.taskID = taskID := by
  rw [DB.taskRows, List.mem_insertionSort, List.mem_filter, decide_eq_true_eq]

theorem DB.mem_of_readRows {row : EventRow} (h : row ∈ db.readRows taskID) : row ∈ db.events :=
  (DB.mem_taskRows.mp (List.mem_of_mem_take h)).1

/-- The ids of the rows that are read are different. -/
theorem DB.readRows_nodup : ((db.readRows taskID).map EventRow.id).Nodup := by
  have hperm : (db.taskRows taskID).Perm (db.events.filter (·.taskID = taskID)) :=
    List.perm_insertionSort _ _
  have hall : ((db.taskRows taskID).map EventRow.id).Nodup := by
    rw [(hperm.map EventRow.id).nodup_iff]
    exact db.events_nodup.sublist (List.filter_sublist.map _)
  exact hall.sublist ((List.take_sublist _ _).map _)

/-- The events of the task are the rows, without what this path leaves out. -/
theorem getEventsByTaskID_eq_ok (h : getEventsByTaskID strict faults db taskID = .ok events) :
    events = (db.readRows taskID).map (ReadPath.byTask taskID).eventOf ∧
      ∀ row ∈ db.readRows taskID, 0 ≤ row.seqIndex := by
  rw [getEventsByTaskID, bind_eq_ok] at h
  obtain ⟨-, -, h⟩ := h
  have hall := forall₂_of_readRows strict h
  constructor
  · have hsame : List.Forall₂ Eq ((db.readRows taskID).map (ReadPath.byTask taskID).eventOf)
        events := by
      rw [List.forall₂_map_left_iff]
      exact hall.imp fun row e hscan => (scanWithTask_eq_ok [] hscan).symm
    rw [List.forall₂_eq_eq_eq] at hsame
    exact hsame.symm
  · intro row hrow
    obtain ⟨e, -, hscan⟩ := mem_of_forall₂_right hall.flip hrow
    rw [scanWithTask, bind_eq_ok] at hscan
    obtain ⟨e', hcolumns, -⟩ := hscan
    rw [inContext_eq_ok, scanColumns] at hcolumns
    split at hcolumns
    · cases hcolumns
    · next hneg => exact not_lt.mp hneg

/-- Ids as long as the recorder makes them. -/
def DB.LongIDs (db : DB) : Prop := ∀ row ∈ db.events, 6 ≤ row.id.length ∧ 8 ≤ row.runID.length

/-- At most `maxRoots` roots, and `maxChildren` children of each node. -/
structure TaskFits (events : List Event) : Prop where
  roots_le : (events.filter fun e => e.parentID = []).length ≤ maxRoots
  children_le : ∀ e ∈ events, (events.filter fun c => c.parentID = e.id).length ≤ maxChildren

/-- A short task fits. -/
theorem taskFits_of_length (h : events.length ≤ maxChildren) : TaskFits events :=
  ⟨(List.length_filter_le _ _).trans h, fun _ _ => (List.length_filter_le _ _).trans h⟩

theorem traceable_of_read (h : getEventsByTaskID strict faults db taskID = .ok events)
    (hids : db.LongIDs) (hfits : TaskFits events) : Traceable events := by
  obtain ⟨rfl, -⟩ := getEventsByTaskID_eq_ok h
  refine ⟨?_, ?_, fun e he => ?_, hfits.children_le⟩
  · rw [List.length_map]
    exact List.length_take_le _ _
  · rw [List.map_map]
    exact DB.readRows_nodup
  · obtain ⟨row, hrow, rfl⟩ := List.mem_map.mp he
    exact (hids row (DB.mem_of_readRows hrow)).1

/-- **When the trace shows the whole task.** -/
theorem traceCommand_shows_iff (h : getEventsByTaskID strict faults db taskID = .ok events)
    (hids : db.LongIDs) (hfits : TaskFits events) :
    ∃ st, traceCommand strict faults db taskID = .ok st ∧
      ((∀ e ∈ events, st.printed e = 1) ↔ ∀ e ∈ events, Rooted events Event.id parentOf e) := by
  have htraceable := traceable_of_read h hids hfits
  have hrunID : ∀ e ∈ events, 8 ≤ e.runID.length := by
    obtain ⟨rfl, -⟩ := getEventsByTaskID_eq_ok h
    intro e he
    obtain ⟨row, hrow, rfl⟩ := List.mem_map.mp he
    exact (hids row (DB.mem_of_readRows hrow)).2
  exact ⟨_, traceCommand_eq h htraceable hrunID hfits.roots_le,
    forall₂_congr fun e he => printed_iff htraceable he⟩

/-- Whatever comes before a row that is read is read as well. -/
theorem DB.mem_readRows_of_lt {row row' : EventRow} (hrow : row ∈ db.readRows taskID)
    (hrow' : row' ∈ db.taskRows taskID) (hlt : row'.seqIndex < row.seqIndex) :
    row' ∈ db.readRows taskID := by
  have hsorted : (db.taskRows taskID).Pairwise (·.seqIndex ≤ ·.seqIndex) :=
    List.pairwise_insertionSort _ _
  rw [← List.take_append_drop maxEventRows (db.taskRows taskID)] at hsorted hrow'
  rcases List.mem_append.mp hrow' with hmem | hmem
  · exact hmem
  · exact absurd ((List.pairwise_append.mp hsorted).2.2 row hrow row' hmem) (not_le.mpr hlt)

/-- **The parents lead to a root**, if each of them was stored before its children. -/
theorem rooted_of_parents (h : getEventsByTaskID strict faults db taskID = .ok events)
    (hparents : ∀ row ∈ db.events, row.parentID ≠ [] → ∃ parent ∈ db.events,
      parent.id = row.parentID ∧ parent.taskID = row.taskID ∧ parent.seqIndex < row.seqIndex) :
    ∀ e ∈ events, Rooted events Event.id parentOf e := by
  obtain ⟨rfl, hseq⟩ := getEventsByTaskID_eq_ok h
  -- by induction on the number of the row
  have hrooted : ∀ n, ∀ row ∈ db.readRows taskID, row.seqIndex.toNat = n →
      Rooted ((db.readRows taskID).map (ReadPath.byTask taskID).eventOf) Event.id parentOf
        ((ReadPath.byTask taskID).eventOf row) := by
    intro n
    induction n using Nat.strong_induction_on with
    | _ n ih =>
      rintro row hrow rfl
      by_cases hroot : row.parentID = []
      · exact .root (List.mem_map_of_mem hrow) (if_pos hroot)
      · obtain ⟨hmem, htask⟩ := DB.mem_taskRows.mp (List.mem_of_mem_take hrow)
        obtain ⟨parent, hparent, hid, hsame, hlt⟩ := hparents row hmem hroot
        have hread := DB.mem_readRows_of_lt hrow
          (DB.mem_taskRows.mpr ⟨hparent, hsame.trans htask⟩) hlt
        have hnonneg := hseq parent hread
        refine .child (List.mem_map_of_mem hrow) ?_ (ih _ (by omega) parent hread rfl)
        exact (if_neg hroot).trans (congrArg some hid.symm)
  intro e he
  obtain ⟨row, hrow, rfl⟩ := List.mem_map.mp he
  exact hrooted _ row hrow rfl

end

/-! ## The rows of a run -/

section

variable {c : Crypto} {strict} {env : Worker.HandleEnv} {m m' : Memory} {q q' : List Event}
  {signer : Signer} {runID : Bytes} {genesis : EventRow}

/-- The store holds nothing but the run. -/
def Memory.OwnRows (runID : Bytes) (m : Memory) : Prop :=
  ∀ row ∈ m.worker.state.db.events, row.runID = runID

theorem LoopStep.ownRows {pc pc' : LoopPc} (h : LoopStep c strict env m q pc m' pc' q')
    (hinv : RunInv c strict signer runID m.worker.state.core)
    (hfresh : ∀ x ∈ pc.processing, Fresh c strict m.worker.state.core x)
    (hown : m.OwnRows runID) : m'.OwnRows runID := by
  cases h with
  | @process j item pc going =>
    have hpc : Fresh c strict m.worker.state.core pc := hfresh pc rfl
    obtain ⟨hstep, -⟩ := processStep_spec c strict hinv hpc env
    cases hstep with
    | unchanged stored db =>
      intro row hrow
      exact hown row (db ▸ hrow)
    | @stored target e new store stored encoded added =>
      subst store
      obtain ⟨e₀, hprep⟩ := hpc
      obtain ⟨-, -, hnew⟩ := hprep.follows c strict encoded hinv.isLog
      obtain ⟨-, hevents, -⟩ := DB.addEvent_eq_some added
      intro row hrow
      have hrow : row ∈ m.worker.state.db.events ++ [new] := hevents ▸ hrow
      rcases List.mem_append.mp hrow with hrow | hrow
      · exact hown row hrow
      · rw [List.mem_singleton.mp hrow, hnew]
        exact hinv.runID_eq
  | _ => exact hown

theorem ConsumerStep.ownRows {pc pc' : ConsumerPc} (h : ConsumerStep c strict env m q pc m' pc' q')
    (hinv : RunInv c strict signer runID m.worker.state.core)
    (hfresh : ∀ x ∈ pc.processing, Fresh c strict m.worker.state.core x)
    (hown : m.OwnRows runID) : m'.OwnRows runID := by
  cases h with
  | loop step going => exact step.ownRows hinv hfresh hown
  | leave step => exact step.ownRows hinv hfresh hown
  | _ => exact hown

namespace Pipeline

/-- The invariant: the pipeline refines a log, in a store of its own. -/
structure Owns (c : Crypto) (strict : Bool) (signer : Signer) (runID : Bytes) (genesis : EventRow)
    (p : Pipeline) (q : List Event) : Prop where
  refines : p.Refines c strict signer runID genesis q
  own : p.memory.OwnRows runID

theorem Owns.step {p p' : Pipeline} {a : Action} (h : p.Owns c strict signer runID genesis q)
    (ha : a.isShutdown = false) (hstep : p.step c strict a = some p') :
    ∃ q', p'.Owns c strict signer runID genesis q' := by
  obtain ⟨q', hcases, hholds, -⟩ := step_cases c strict h.refines.linked.holds hstep
  refine ⟨q', h.refines.step c strict ha hcases hholds, ?_⟩
  cases hcases with
  | next call step =>
    have hown := h.own
    cases step <;> exact hown
  | consume before step =>
    subst before
    exact step.ownRows h.refines.linked.chain h.refines.linked.consumer h.own
  | shutdown before step => cases ha
  | _ => exact h.own

theorem Owns.takeEvent {p : Pipeline} {pick : Option Nat}
    (h : p.Owns c strict signer runID genesis q) :
    (p.takeEvent pick).2.Owns c strict signer runID genesis q := by
  obtain ⟨⟨⟨hholds, hchain, hconsumer, hshutdown⟩, hidle, hpushed, hrows, hhandles⟩, hown⟩ := h
  exact ⟨⟨⟨hholds, hchain, hconsumer, hshutdown⟩, hidle, hpushed, hrows, hhandles⟩, hown⟩

end Pipeline

end

namespace Intake

variable (c : Crypto) {signer : Signer} {runID : Bytes}

/-- The store behind the requests. -/
def db (t : Intake) : DB := t.pipeline.memory.worker.state.db

/-- The rows of the store after a run are those of the run. -/
theorem rows_of_run {env : GenesisEnv} {pool : List Event} {agentName : Bytes} {s : State}
    (hgen : createGenesisBlock c strict env (initialState signer pool) agentName = (.ok runID, s))
    {zero : Event} {capacity : Int} {ringBuffer : Buffer Event}
    (hnew : Buffer.new strict zero capacity = .ok ringBuffer) (mode : BackpressureMode)
    {actions : List Action} {t : Intake}
    (hrun : runSteps (step c strict) (initial ringBuffer (newEventProcessor s runID) mode) actions
      = some t) (row : EventRow) :
    row ∈ t.pipeline.rows runID ↔ row ∈ t.db.events := by
  obtain ⟨genesis, -, hrefines⟩ := Pipeline.refines_initial c strict hgen hnew mode
  obtain ⟨first, hevents, hown, -⟩ := row_of_genesis c strict hgen
  have hinit : (initial ringBuffer (newEventProcessor s runID) mode).pipeline.Owns c strict signer
      runID genesis [] := by
    refine ⟨hrefines, ?_⟩
    show ∀ row ∈ s.db.events, row.runID = runID
    rw [hevents]
    exact List.forall_mem_singleton.mpr hown
  obtain ⟨q, hinv⟩ := runSteps_invariant
    (fun t : Intake => ∃ q, t.pipeline.Owns c strict signer runID genesis q)
    (@pipeline_inv c strict (fun p => ∃ q, p.Owns c strict signer runID genesis q)
      (fun ⟨q, hq⟩ => ⟨q, hq.takeEvent⟩) fun ⟨_, hq⟩ ha hstep => hq.step ha hstep)
    ⟨[], hinit⟩ hrun
  rw [Pipeline.rows, DB.orderedRows, List.mem_insertionSort, DB.rowsOf, List.mem_filter,
    decide_eq_true_eq]
  exact and_iff_left_of_imp (hinv.own row)

/-- **When the trace shows the whole task.** In every run, with any interleaving, drops and failed
stores, and for every task within the bounds: each event of the task is printed exactly once if and
only if the parents of each event lead to a root. That is so if parents are loaded and events given
up as `inOrder` says. -/
theorem task_traced_iff {env : GenesisEnv} {pool : List Event} (hpool : ∀ e ∈ pool, Clean e)
    {agentName : Bytes} {s : State}
    (hgen : createGenesisBlock c strict env (initialState signer pool) agentName = (.ok runID, s))
    {zero : Event} {capacity : Int} {ringBuffer : Buffer Event}
    (hnew : Buffer.new strict zero capacity = .ok ringBuffer) (mode : BackpressureMode)
    {actions : List Action} {t : Intake}
    (hrun : runSteps (step c strict) (initial ringBuffer (newEventProcessor s runID) mode) actions
      = some t) (hids : t.db.LongIDs) {faults : ReadFaults} {taskID : Bytes} {events : List Event}
    (hread : getEventsByTaskID strict faults t.db taskID = .ok events) (hfits : TaskFits events) :
    ∃ st, traceCommand strict faults t.db taskID = .ok st ∧
      ((∀ e ∈ events, st.printed e = 1) ↔ ∀ e ∈ events, Rooted events Event.id parentOf e) ∧
      (along (step c strict) inOrder (initial ringBuffer (newEventProcessor s runID) mode) actions
        = true → ∀ e ∈ events, st.printed e = 1) := by
  obtain ⟨st, hst, hiff⟩ := traceCommand_shows_iff hread hids hfits
  refine ⟨st, hst, hiff, fun hok => hiff.mpr (rooted_of_parents hread ?_)⟩
  obtain ⟨genesis, hinit⟩ := causal_initial c strict hpool hgen hnew mode
  obtain ⟨q, hinv⟩ := runSteps_inv (fun t => ∃ q, Causal c strict signer runID genesis t q)
    (fun ⟨q, hq⟩ ha hstep => hq.step c strict ha hstep) ⟨[], hinit⟩ hok hrun
  have hrows := rows_of_run strict c hgen hnew mode hrun
  intro row hrow hne
  obtain ⟨parent, hparent, hfields⟩ :=
    hinv.parent_before c strict row ((hrows row).mpr hrow) hne
  exact ⟨parent, (hrows parent).mp hparent, hfields⟩

/-! ## Two runs -/

/-- What SHA-256 gives for the runs below: a start, two calls of a task, and a call without a task
before the second one of them. -/
def tracedHashes : List (Bytes × Bytes) := [
  (lits [
    "0000000000000000000000000000000000000000000000000000000000000000\x7b\"actor\":\"system\",",
    "\"event_type\":\"genesis\",\"id\":\"c1a4e0d2-93b7-4f68-8a05-6e7f80912a3b\",",
    "\"method\":\"logryph:init\",\"params\":\x7b\"agent_name\":\"agent\",",
    "\"public_key\":\"d75a980182b10ab7d54bfed3c964073a0ee172f3daa62325af021a68f707511a\",",
    "\"version\":\"1.0.0\"\x7d,\"parent_id\":\"\",\"policy_id\":\"\",\"response\":null,",
    "\"risk_level\":\"\",\"run_id\":\"5f0c2a8e-7d41-4b5e-9f3a-1c2d3e4f5a6b\",\"seq_index\":0,",
    "\"task_id\":\"\",\"task_state\":\"\",\"timestamp\":\"2026-01-15T09:30:00Z\"\x7d"],
    hexText "fbb3dc1680911b0bfabc416d1f6a05db08c52de94632dab6f3ba5ff5d253bb3d"),
  (lits [
    "fbb3dc1680911b0bfabc416d1f6a05db08c52de94632dab6f3ba5ff5d253bb3d\x7b\"actor\":\"\",",
    "\"event_type\":\"tool_call\",\"id\":\"a1b2c3d4\",\"method\":\"tools/call\",",
    "\"params\":\x7b\"task_id\":\"task-1\"\x7d,\"parent_id\":\"\",\"policy_id\":\"\",",
    "\"response\":null,\"risk_level\":\"\",\"run_id\":\"5f0c2a8e-7d41-4b5e-9f3a-1c2d3e4f5a6b\",",
    "\"seq_index\":1,\"task_id\":\"task-1\",\"task_state\":\"\",",
    "\"timestamp\":\"2026-01-15T09:30:00Z\"\x7d"],
    hexText "6739eefcdacaecdb07fc2bf1804235ecda13d4a7792be1387a378db5e23059e5"),
  (lits [
    "6739eefcdacaecdb07fc2bf1804235ecda13d4a7792be1387a378db5e23059e5\x7b\"actor\":\"\",",
    "\"event_type\":\"tool_call\",\"id\":\"b2c3d4e5\",\"method\":\"tools/call\",",
    "\"params\":\x7b\"task_id\":\"task-1\"\x7d,\"parent_id\":\"a1b2c3d4\",\"policy_id\":\"\",",
    "\"response\":null,\"risk_level\":\"\",\"run_id\":\"5f0c2a8e-7d41-4b5e-9f3a-1c2d3e4f5a6b\",",
    "\"seq_index\":2,\"task_id\":\"task-1\",\"task_state\":\"\",",
    "\"timestamp\":\"2026-01-15T09:30:00Z\"\x7d"],
    hexText "60e3eff6d191dd467211e72c1fb3a5d52c15e8fcf21ad3e7aa1fd5707749b2f6"),
  (lits [
    "fbb3dc1680911b0bfabc416d1f6a05db08c52de94632dab6f3ba5ff5d253bb3d\x7b\"actor\":\"\",",
    "\"event_type\":\"tool_call\",\"id\":\"e5f60718\",\"method\":\"tools/call\",",
    "\"params\":\x7b\"task_id\":\"\"\x7d,\"parent_id\":\"\",\"policy_id\":\"\",",
    "\"response\":null,\"risk_level\":\"\",\"run_id\":\"5f0c2a8e-7d41-4b5e-9f3a-1c2d3e4f5a6b\",",
    "\"seq_index\":1,\"task_id\":\"\",\"task_state\":\"\",",
    "\"timestamp\":\"2026-01-15T09:30:00Z\"\x7d"],
    hexText "5b82e3648888ebf0629fd699976022291640954010d989b7fd1549d266913e0a"),
  (lits [
    "5b82e3648888ebf0629fd699976022291640954010d989b7fd1549d266913e0a\x7b\"actor\":\"\",",
    "\"event_type\":\"tool_call\",\"id\":\"b2c3d4e5\",\"method\":\"tools/call\",",
    "\"params\":\x7b\"task_id\":\"task-1\"\x7d,\"parent_id\":\"a1b2c3d4\",\"policy_id\":\"\",",
    "\"response\":null,\"risk_level\":\"\",\"run_id\":\"5f0c2a8e-7d41-4b5e-9f3a-1c2d3e4f5a6b\",",
    "\"seq_index\":2,\"task_id\":\"task-1\",\"task_state\":\"\",",
    "\"timestamp\":\"2026-01-15T09:30:00Z\"\x7d"],
    hexText "b6d49c7f469ff603ad64f97b06e686e005f67695777217041ad7e5b649b2cfc7")]

/-- What Ed25519 gives for those. -/
def tracedSignatures : List ((Bytes × Bytes) × Bytes) := [
  ((recordedKey, lit "fbb3dc1680911b0bfabc416d1f6a05db08c52de94632dab6f3ba5ff5d253bb3d"),
    hexText "972f832984b229166ff6e370dc8d8a6d1f38a6370c997b82c21e623bae684792" ++
      hexText "4b61a5451bd85550c530668fbc3fad4e55b993088e34901a6b70475ed6dfbd0d"),
  ((recordedKey, lit "6739eefcdacaecdb07fc2bf1804235ecda13d4a7792be1387a378db5e23059e5"),
    hexText "c414b5f4813b65d5120a8d0170bc426eec85894fd40acdca039ee76f3ebbcffb" ++
      hexText "2cbbcba6304fa1e6bc8d30bc00aa828090502958d8cfc740fa98e7f8bb66de00"),
  ((recordedKey, lit "60e3eff6d191dd467211e72c1fb3a5d52c15e8fcf21ad3e7aa1fd5707749b2f6"),
    hexText "f1c36f4575d4ed1efb2eb2e2747b0b58fb8b40508b10aa243ffb920bc97366a3" ++
      hexText "df7ef196d2254f6235c3e628a8072beb99ace261a6dc0be3f5d7cd6672698f0c"),
  ((recordedKey, lit "5b82e3648888ebf0629fd699976022291640954010d989b7fd1549d266913e0a"),
    hexText "3572a664356c624a25b30cf749a15fecfaf76caf56a17fc3d762443c07b592be" ++
      hexText "1d16ffe52a04ae4876ea666657a15ed3c2a0a1f1d03d94a062e2dfdb87b21909"),
  ((recordedKey, lit "b6d49c7f469ff603ad64f97b06e686e005f67695777217041ad7e5b649b2cfc7"),
    hexText "9e6875f76afdb61818eceacc8c8023cdf83fb18bd2d544a837d3d651bfa84c28" ++
      hexText "9c0c8b21cb943e90cab93734c71e61cba61c93f1f451fd9eab54913abe779a02")]

/-- The primitives, as far as the runs use them. -/
def tracedCrypto : Crypto :=
  .ofTables tracedHashes tracedSignatures [(recordedSigner.publicKey, recordedKey)]

def tracedEnv : GenesisEnv where
  runID := lit "5f0c2a8e-7d41-4b5e-9f3a-1c2d3e4f5a6b"
  id := lit "c1a4e0d2-93b7-4f68-8a05-6e7f80912a3b"
  now := recordedEnv.now

/-- The state after `CreateGenesisBlock`. -/
def tracedGenesis : State :=
  (createGenesisBlock tracedCrypto true tracedEnv (initialState recordedSigner []) (lit "agent")).2

theorem createGenesisBlock_traced : createGenesisBlock tracedCrypto true tracedEnv
    (initialState recordedSigner []) (lit "agent") = (.ok tracedEnv.runID, tracedGenesis) := by
  have hfst : (createGenesisBlock tracedCrypto true tracedEnv (initialState recordedSigner [])
      (lit "agent")).1 = .ok tracedEnv.runID := by decide +kernel
  rw [tracedGenesis.eq_1]
  exact eq_mk_snd hfst

def tracedIntake (ringBuffer : Buffer Event) : Intake :=
  initial ringBuffer (newEventProcessor tracedGenesis tracedEnv.runID) .drop

/-- Two calls of a task, one after the other. -/
def tracedCalls : List Action :=
  List.flatten [arrival "a1b2c3d4" "task-1" :: List.replicate 3 (.go 0),
    List.replicate 4 (.next 0), arrival "b2c3d4e5" "task-1" :: List.replicate 3 (.go 1),
    List.replicate 4 (.next 1), List.replicate 16 (.consume quietEnv)]

/-- The first call of the task finds the buffer full, and is dropped. The second one is stored. -/
def droppedCall : List Action :=
  List.flatten [arrival "e5f60718" "" :: .go 0 :: List.replicate 4 (.next 0),
    arrival "a1b2c3d4" "task-1" :: List.replicate 3 (.go 1), List.replicate 2 (.next 1),
    List.replicate 8 (.consume quietEnv),
    arrival "b2c3d4e5" "task-1" :: List.replicate 3 (.go 2), List.replicate 4 (.next 2),
    List.replicate 7 (.consume quietEnv)]

/-- The ids and the parents of the events of the task. -/
def taskEvents (t : Intake) : Option (List (Bytes × Bytes)) :=
  (getEventsByTaskID true {} t.db (lit "task-1")).toOption.map
    fun es => es.map fun e => (e.id, e.parentID)

/-- The ids in the trace of the task. -/
def tracedIDs (t : Intake) : Option (List Bytes) :=
  (traceCommand true {} t.db (lit "task-1")).toOption.map
    fun st => st.lines.map fun l => l.event.id

theorem traces_evaluated :
    ((runAlong (step tracedCrypto true) inOrder (tracedIntake pairBuffer) tracedCalls).any
      (fun t => (t.db.events.all fun row => 6 ≤ row.id.length ∧ 8 ≤ row.runID.length) &&
        t.taskEvents = some [(lit "a1b2c3d4", []), (lit "b2c3d4e5", lit "a1b2c3d4")])) = true ∧
    ((runSteps (step tracedCrypto true) (tracedIntake smallBuffer) droppedCall).any
      (fun t => t.taskEvents = some [(lit "b2c3d4e5", lit "a1b2c3d4")] &&
        t.tracedIDs = some [])) = true := by
  decide +kernel

theorem ok_of_toOption {α β : Type} {x : Except Fault α} {f : α → β} {y : β}
    (h : x.toOption.map f = some y) : ∃ a, x = .ok a ∧ f a = y := by
  cases x with
  | error f => cases h
  | ok a => exact ⟨a, rfl, Option.some.inj h⟩

/-- Both calls are shown. -/
theorem task_traced_ordered : ∃ t events st,
    runSteps (step tracedCrypto true) (tracedIntake pairBuffer) tracedCalls = some t ∧
    getEventsByTaskID true {} t.db (lit "task-1") = .ok events ∧
    events.map (fun e => (e.id, e.parentID))
      = [(lit "a1b2c3d4", []), (lit "b2c3d4e5", lit "a1b2c3d4")] ∧
    traceCommand true {} t.db (lit "task-1") = .ok st ∧ ∀ e ∈ events, st.printed e = 1 := by
  obtain ⟨t, hok, hrun, hfacts⟩ := exists_of_runAlong traces_evaluated.1
  rw [Bool.and_eq_true, List.all_eq_true, decide_eq_true_eq] at hfacts
  obtain ⟨hids, hevents⟩ := hfacts
  obtain ⟨events, hread, hmap⟩ := ok_of_toOption hevents
  have hlength : events.length = 2 := (List.length_map _).symm.trans (congrArg List.length hmap)
  have hfits : TaskFits events := taskFits_of_length (hlength.trans_le (by decide))
  obtain ⟨st, hst, -, hshown⟩ := @task_traced_iff true tracedCrypto recordedSigner tracedEnv.runID
    tracedEnv [] (List.forall_mem_nil _) (lit "agent") tracedGenesis createGenesisBlock_traced {} 2
    pairBuffer rfl .drop tracedCalls t hrun (fun row hrow => of_decide_eq_true (hids row hrow)) {}
    (lit "task-1") events hread hfits
  exact ⟨t, events, st, hrun, hread, hmap, hst, hshown hok⟩

/-- **A stored call is not shown**: its parent was dropped. -/
theorem call_not_traced : ∃ t events st,
    runSteps (step tracedCrypto true) (tracedIntake smallBuffer) droppedCall = some t ∧
    getEventsByTaskID true {} t.db (lit "task-1") = .ok events ∧
    events.map (fun e => (e.id, e.parentID)) = [(lit "b2c3d4e5", lit "a1b2c3d4")] ∧
    TaskFits events ∧ traceCommand true {} t.db (lit "task-1") = .ok st ∧
    ∀ e ∈ events, st.printed e = 0 := by
  obtain ⟨t, hrun, hfacts⟩ := (Option.any_eq_true _ _).mp traces_evaluated.2
  rw [Bool.and_eq_true, decide_eq_true_eq, decide_eq_true_eq] at hfacts
  obtain ⟨events, hread, hmap⟩ := ok_of_toOption hfacts.1
  obtain ⟨st, hst, hlines⟩ := ok_of_toOption hfacts.2
  have hlength : events.length = 1 := (List.length_map _).symm.trans (congrArg List.length hmap)
  refine ⟨t, events, st, hrun, hread, hmap, taskFits_of_length (hlength.trans_le (by decide)), hst,
    fun e _ => ?_⟩
  rw [TraceState.printed, hlines]
  rfl

end Intake

end Logryph
