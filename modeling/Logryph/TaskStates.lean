import Logryph.Infra.History
import Logryph.AppendLog
import Logryph.Outcome

/-!
# Task states and completion records

`ProcessEvent` remembers the state of every task that is under way, and stores a `task_terminal`
event directly after the one that ends a task. One map is updated by two overlapping conditionals,
with a delete in between. Seen from the rows the rule is simple: a task is under way when its latest
tool event has a state that is not terminal.

* `completionDue_iff` — when a completion is due, in terms of the events before
* `mirrors_nextStates` — what the updates of the map come to
* `StoresOk.step` — what one call with successful stores adds
* `completion_records_exact` — the completion records and the map, after any sequence of calls
-/

namespace Logryph

open Infra

variable (c : Crypto) (strict : Bool)

/-! ## Tracking -/

/-- The task and the state that `ProcessEvent` tracks: those of a tool call or tool response. -/
def trackedAs (eventType taskID taskState : Bytes) : Option (Bytes × Bytes) :=
  if (eventType = lit "tool_call" ∨ eventType = lit "tool_response") ∧ taskID ≠ [] then
    some (taskID, taskState)
  else none

def Event.tracked (e : Event) : Option (Bytes × Bytes) := trackedAs e.eventType e.taskID e.taskState

def EventRow.tracked (row : EventRow) : Option (Bytes × Bytes) :=
  trackedAs row.eventType row.taskID row.taskState

/-- A state in which a task is under way. -/
def Pending (state : Bytes) : Prop := isTerminalState state = false

theorem not_pending_iff {state : Bytes} : ¬ Pending state ↔ isTerminalState state = true := by
  rw [Pending, Bool.not_eq_false]

/-- The map after an event was tracked. -/
def State.nextStates (s : State) (e : Event) : SortedMap Bytes Bytes :=
  match e.tracked with
  | none => s.taskStates
  | some (task, state) =>
    if s.completionDue e then s.taskStates.erase task
    else if isTerminalState state then s.taskStates
    else s.taskStates.insert task state

theorem completionDue_of_not_tracked {s : State} {e : Event} (h : e.tracked = none) :
    s.completionDue e = false := by
  have htool : ¬ ((e.eventType = lit "tool_call" ∨ e.eventType = lit "tool_response") ∧
      e.taskID ≠ []) := by
    intro htool
    rw [Event.tracked, trackedAs, if_pos htool] at h
    cases h
  cases hdue : s.completionDue e with
  | false => rfl
  | true =>
    simp only [State.completionDue, Bool.and_eq_true, Bool.or_eq_true, decide_eq_true_eq] at hdue
    exact absurd hdue.1 htool

theorem tracked_eq_some {e : Event} {task state : Bytes} (h : e.tracked = some (task, state)) :
    ((e.eventType = lit "tool_call" ∨ e.eventType = lit "tool_response") ∧ e.taskID ≠ []) ∧
      e.taskID = task ∧ e.taskState = state := by
  unfold Event.tracked trackedAs at h
  split at h
  · next htool =>
    cases h
    exact ⟨htool, rfl, rfl⟩
  · cases h

/-- **When a completion is due**: the event has a terminal state, and its task is under way. The
comparison with the old state never matters, since the map has no terminal ones. -/
theorem completionDue_iff {s : State} {l : List (Bytes × Bytes)}
    (h : Mirrors Pending s.taskStates l) {e : Event} : s.completionDue e = true ↔
      ∃ task state, e.tracked = some (task, state) ∧ isTerminalState state = true ∧
        Opened Pending l task := by
  cases htracked : e.tracked with
  | none =>
    rw [completionDue_of_not_tracked htracked]
    simp
  | some p =>
    obtain ⟨task, state⟩ := p
    obtain ⟨htool, rfl, rfl⟩ := tracked_eq_some htracked
    have hdue : s.completionDue e = true ↔
        ((s.taskStates.get? e.taskID).isSome = true ∧
          s.taskStates.get? e.taskID ≠ some e.taskState) ∧ isTerminalState e.taskState = true := by
      simp only [State.completionDue, Bool.and_eq_true, Bool.or_eq_true, decide_eq_true_eq]
      exact ⟨fun h => h.2, fun h => ⟨htool, h⟩⟩
    rw [hdue, h.isSome_iff]
    constructor
    · rintro ⟨⟨hopen, -⟩, hterm⟩
      exact ⟨_, _, rfl, hterm, hopen⟩
    · rintro ⟨task, state, heq, hterm, hopen⟩
      cases heq
      refine ⟨⟨hopen, fun hget => ?_⟩, hterm⟩
      exact not_pending_iff.mpr hterm ((h _ _).mp hget).2

/-- **The map keeps the states of the tasks that are under way.** -/
theorem mirrors_nextStates {s : State} {l : List (Bytes × Bytes)}
    (h : Mirrors Pending s.taskStates l) (e : Event) :
    Mirrors Pending (s.nextStates e) (l ++ e.tracked.toList) := by
  unfold State.nextStates
  cases htracked : e.tracked with
  | none =>
    rw [Option.toList_none, List.append_nil]
    exact h
  | some p =>
    obtain ⟨task, state⟩ := p
    dsimp only
    rw [Option.toList_some]
    by_cases hterm : isTerminalState state = true
    · rw [if_pos hterm]
      by_cases hdue : s.completionDue e = true
      · rw [if_pos hdue]
        exact h.erase (not_pending_iff.mpr hterm)
      · rw [if_neg hdue]
        refine h.skip (not_pending_iff.mpr hterm) (Option.not_isSome_iff_eq_none.mp ?_)
        rw [h.isSome_iff]
        exact fun hopen => hdue ((completionDue_iff h).mpr ⟨task, state, htracked, hterm, hopen⟩)
    · have hdue : s.completionDue e ≠ true := by
        rw [Ne, completionDue_iff h]
        rintro ⟨task', state', heq, hterm', -⟩
        cases htracked.symm.trans heq
        exact hterm hterm'
      rw [if_neg hdue, if_neg hterm]
      exact h.insert (Bool.eq_false_iff.mpr hterm)

/-! ## Calls whose stores succeed -/

/-- Every store of a call succeeds: that of its event, and that of the completion event if one is
due. In strict mode the result of the call says so; otherwise a failure to store the second event is
not reported. -/
def StoresOk (s : State) (call : Call) : Prop :=
  (processEvent c strict s call).1 = .ok () ∧
    ∀ e, call.event = some e → s.completionDue e = true →
      ∃ e' s', persistEvent c strict call.completion.faults
        ((persistEvent c strict call.faults s e).2.taken call.completion)
        ((persistEvent c strict call.faults s e).2.completion call.completion e) = (.ok e', s')

/-- The same for calls one after the other. -/
def AllStored (s : State) : List Call → Prop
  | [] => True
  | call :: calls => StoresOk c strict s call ∧ AllStored (processEvent c strict s call).2 calls

theorem processAll_cons (s : State) (call : Call) (calls : List Call) :
    processAll c strict s (call :: calls) =
      processAll c strict (processEvent c strict s call).2 calls := rfl

theorem processAll_concat (s : State) (calls : List Call) (call : Call) :
    processAll c strict s (calls ++ [call]) =
      (processEvent c strict (processAll c strict s calls) call).2 := by
  rw [processAll, List.foldl_append]
  rfl

theorem allStored_append : ∀ {s : State} {calls calls' : List Call},
    AllStored c strict s (calls ++ calls') ↔
      AllStored c strict s calls ∧ AllStored c strict (processAll c strict s calls) calls'
  | s, [], calls' => by simp [AllStored, processAll]
  | s, call :: calls, calls' => by
    rw [List.cons_append, AllStored, AllStored, processAll_cons, and_assoc, allStored_append]

section

variable {s : State} {env : CompletionEnv} {e : Event} (htask : e.taskID ≠ [])
  (hstate : e.taskState ≠ [])

include htask hstate

theorem createTaskCompletionEvent_of_ok {e' : Event} {s₁ : State}
    (h : persistEvent c strict env.faults (s.taken env) (s.completion env e) = (.ok e', s₁)) :
    createTaskCompletionEvent c strict env e.taskID e.taskState s = s₁.putEvent strict e' := by
  rw [createTaskCompletionEvent_eq c strict env s htask hstate, ← State.taken, ← State.completion,
    h, afterCompletion]

theorem persistEvent_of_createTaskCompletionEvent
    (h : (createTaskCompletionEvent c true env e.taskID e.taskState s).1 = .ok ()) :
    ∃ e' s₁, persistEvent c true env.faults (s.taken env) (s.completion env e) = (.ok e', s₁) := by
  rw [createTaskCompletionEvent_eq c true env s htask hstate, ← State.taken, ← State.completion]
    at h
  revert h
  rcases persistEvent c true env.faults (s.taken env) (s.completion env e)
    with ⟨(msg | msg) | e', s₁⟩
  · intro h
    cases h
  · intro h
    cases h
  · exact fun _ => ⟨e', s₁, rfl⟩

end

theorem completionDue_taskState {s : State} {e : Event} (h : s.completionDue e = true) :
    e.taskID ≠ [] ∧ e.taskState ≠ [] := by
  simp only [State.completionDue, Bool.and_eq_true, decide_eq_true_eq] at h
  exact ⟨h.1.2, isTerminalState_ne_nil h.2.2⟩

/-- A successful `trackTaskState`. -/
theorem trackTaskState_eq_ok {s s' : State} {env : CompletionEnv} {e : Event}
    (htracked : e.tracked.isSome = true) (h : trackTaskState c strict env s e = (.ok (), s')) :
    s.completionDue e = false ∧ s' = { s with taskStates := s.nextStates e } ∨
    s.completionDue e = true ∧ ∃ s₁,
      createTaskCompletionEvent c strict env e.taskID e.taskState s = (.ok (), s₁) ∧
      s' = { s₁ with taskStates := s₁.taskStates.erase e.taskID } := by
  obtain ⟨⟨task, state⟩, htracked⟩ := Option.isSome_iff_exists.mp htracked
  obtain ⟨htool, rfl, rfl⟩ := tracked_eq_some htracked
  have hdue : s.completionDue e = s.endsTask e := by
    rw [State.completionDue, State.endsTask]
    simp [htool]
  rcases trackTaskState_cases c strict env s htool.2 with
    ⟨hends, htrack⟩ | ⟨hends, s₁, ⟨hc, htrack⟩ | ⟨f, -, htrack⟩⟩
  · refine Or.inl ⟨hdue.trans hends, ?_⟩
    cases h.symm.trans htrack
    rw [State.nextStates, htracked, hdue, hends]
    rfl
  · cases h.symm.trans htrack
    exact Or.inr ⟨hdue.trans hends, s₁, hc, rfl⟩
  · cases h.symm.trans htrack

/-- A successful `ProcessEvent`. -/
theorem processEvent_eq_ok {s : State} {call : Call}
    (h : (processEvent c strict s call).1 = .ok ()) : ∃ e e' s₁, call.event = some e ∧
      persistEvent c strict call.faults s e = (.ok e', s₁) ∧
      (e.tracked = none ∧ processEvent c strict s call = (.ok (), s₁) ∨
        e.tracked.isSome = true ∧
          processEvent c strict s call = trackTaskState c strict call.completion s₁ e') := by
  unfold processEvent at h ⊢
  cases hevent : call.event with
  | none =>
    rw [hevent] at h
    cases h
  | some e =>
    rw [hevent] at h
    dsimp only at h ⊢
    rcases hpersist : persistEvent c strict call.faults s e with ⟨f | e', s₁⟩
    · rw [hpersist] at h
      cases h
    · obtain ⟨hprep, -⟩ := persistEvent_eq_ok c hpersist
      refine ⟨e, e', s₁, rfl, hpersist, ?_⟩
      have htype : e'.eventType = e.eventType := by rw [hprep.fields]
      have htaskID : e'.taskID = e.taskID := by rw [hprep.fields]
      dsimp only
      rw [htype, htaskID, Event.tracked, trackedAs]
      by_cases htool : (e.eventType = lit "tool_call" ∨ e.eventType = lit "tool_response") ∧
          e.taskID ≠ []
      · rw [if_pos htool, if_pos (by simpa using htool)]
        exact Or.inr ⟨rfl, rfl⟩
      · rw [if_neg htool, if_neg (by simpa using htool)]
        exact Or.inl ⟨rfl, rfl⟩

/-- In strict mode a call that succeeds has stored what it had to. -/
theorem storesOk_of_strict {s : State} {call : Call} (h : (processEvent c true s call).1 = .ok ()) :
    StoresOk c true s call := by
  refine ⟨h, fun e hevent hdue => ?_⟩
  obtain ⟨htask, hstate⟩ := completionDue_taskState hdue
  obtain ⟨e₀, e', s₁, hevent', hpersist, hcases⟩ := processEvent_eq_ok c true h
  cases hevent.symm.trans hevent'
  obtain ⟨hprep, row, db, -, -, rfl⟩ := persistEvent_eq_ok c hpersist
  rw [hpersist]
  have htaskID : e'.taskID = e.taskID := by rw [hprep.fields]
  have htaskState : e'.taskState = e.taskState := by rw [hprep.fields]
  have htracked : e'.tracked = e.tracked := by rw [hprep.fields]; rfl
  rcases hcases with ⟨hnone, -⟩ | ⟨hsome, htrack⟩
  · cases hdue.symm.trans (completionDue_of_not_tracked hnone)
  · rw [htrack] at h
    have hok : trackTaskState c true call.completion { s with db, signed := s.signed ++ [e'] } e' =
        (.ok (), (trackTaskState c true call.completion
          { s with db, signed := s.signed ++ [e'] } e').2) := Prod.ext h rfl
    have hdue' : { s with db, signed := s.signed ++ [e'] }.completionDue e' = true := by
      rw [← hdue, hprep.fields]
      rfl
    rcases trackTaskState_eq_ok c true (htracked ▸ hsome) hok with
      ⟨hno, -⟩ | ⟨-, s₂, hcreate, -⟩
    · cases hdue'.symm.trans hno
    · rw [htaskID, htaskState] at hcreate
      exact persistEvent_of_createTaskCompletionEvent c htask hstate (congrArg Prod.fst hcreate)

theorem allStored_of_allOk : ∀ {s : State} {calls : List Call},
    AllOk c true s calls → AllStored c true s calls
  | _, [], _ => trivial
  | _, _ :: _, h => ⟨storesOk_of_strict c h.1, allStored_of_allOk h.2⟩

/-! ## What a call adds -/

/-- The row is the next one of the run. -/
def NextRow (s : State) (row : EventRow) : Prop :=
  row.runID = s.runID ∧ row.seqIndex = (s.db.rowsOf s.runID).length

/-- A persisted event is the next row of the run. -/
theorem persistEvent_next {faults : RepoFaults} {s s₁ : State} {e e' : Event}
    (h : persistEvent c strict faults s e = (.ok e', s₁)) :
    ∃ row, StoredAs e row ∧ NextRow s row ∧ s₁.db.events = s.db.events ++ [row] := by
  obtain ⟨hprep, row, db, henc, hadd, rfl⟩ := persistEvent_eq_ok c h
  obtain ⟨-, hevents, -⟩ := DB.addEvent_eq_some hadd
  refine ⟨row, ⟨e', ⟨_, _, _, _, _, hprep.fields⟩, henc⟩, ?_, hevents⟩
  have hrun : e'.runID = s.runID := by rw [hprep.fields]; rfl
  have hseq := hprep.seq
  obtain ⟨_, _, -, -, rfl⟩ := encodeEvent_eq_ok henc
  refine ⟨hrun, ?_⟩
  dsimp only
  rw [hseq]
  rfl

/-- **What a call whose stores succeed adds**: the row of its event, and directly after it the
completion record, if one is due. -/
theorem StoresOk.step {s : State} {call : Call} (h : StoresOk c strict s call) :
    ∃ e row, call.event = some e ∧ StoredAs e row ∧ NextRow s row ∧
      (processEvent c strict s call).2.runID = s.runID ∧
      (processEvent c strict s call).2.taskStates = s.nextStates e ∧
      (s.completionDue e = false ∧
          (processEvent c strict s call).2.db.events = s.db.events ++ [row] ∨
        s.completionDue e = true ∧ ∃ row', TerminalOf e row' ∧ row'.runID = s.runID ∧
          row'.seqIndex = row.seqIndex + 1 ∧
          (processEvent c strict s call).2.db.events = s.db.events ++ [row, row']) := by
  obtain ⟨hok, hcompletion⟩ := h
  obtain ⟨e, e', s₁, hevent, hpersist, hcases⟩ := processEvent_eq_ok c strict hok
  obtain ⟨row, hstored, hnext, hevents⟩ := persistEvent_next c strict hpersist
  obtain ⟨hprep, -, db, -, -, hs₁⟩ := persistEvent_eq_ok c hpersist
  have htaskID : e'.taskID = e.taskID := by rw [hprep.fields]
  have htaskState : e'.taskState = e.taskState := by rw [hprep.fields]
  have htracked : e'.tracked = e.tracked := by rw [hprep.fields]; rfl
  have hdue : s₁.completionDue e' = s.completionDue e := by
    rw [hs₁, hprep.fields]
    rfl
  refine ⟨e, row, hevent, hstored, hnext, ?_⟩
  rcases hcases with ⟨hnone, hprocess⟩ | ⟨hsome, hprocess⟩
  · rw [hprocess]
    have hstates : s₁.taskStates = s.nextStates e := by rw [State.nextStates, hnone, hs₁]
    exact ⟨by rw [hs₁], hstates, Or.inl ⟨completionDue_of_not_tracked hnone, hevents⟩⟩
  · have htrack : trackTaskState c strict call.completion s₁ e' =
        (.ok (), (processEvent c strict s call).2) := by
      rw [← hok, ← hprocess]
    rcases trackTaskState_eq_ok c strict (htracked ▸ hsome) htrack with
      ⟨hno, hs'⟩ | ⟨hyes, s₂, hcreate, hs'⟩
    · rw [hs']
      refine ⟨by rw [hs₁], ?_, Or.inl ⟨hdue ▸ hno, hevents⟩⟩
      dsimp only
      rw [State.nextStates, State.nextStates, htracked, hdue, hs₁]
    · rw [hdue] at hyes
      obtain ⟨htask, hstate⟩ := completionDue_taskState hyes
      obtain ⟨e₂, s₃, hpersist₂⟩ := hcompletion e hevent hyes
      rw [hpersist] at hpersist₂
      obtain ⟨row', ⟨e₃, hnumbered, henc⟩, hnext', hevents'⟩ :=
        persistEvent_next c strict hpersist₂
      obtain ⟨-, -, db₃, -, -, hs₃⟩ := persistEvent_eq_ok c hpersist₂
      rw [htaskID, htaskState, createTaskCompletionEvent_of_ok c strict htask hstate hpersist₂]
        at hcreate
      have hs₂ : s₂ = { s₃ with pool := s₂.pool } := by
        rw [← (Prod.mk.inj hcreate).2]
      have hcompletes : Completes e (s₁.completion call.completion e) := ⟨rfl, rfl, rfl⟩
      have hrun₁ : s₁.runID = s.runID := by rw [hs₁]
      refine ⟨?_, ?_, Or.inr ⟨hyes, row',
        terminalOf_encodeEvent (hcompletes.numbered hnumbered) henc, hnext'.1.trans hrun₁, ?_, ?_⟩⟩
      · rw [hs', hs₂, hs₃]
        exact hrun₁
      · obtain ⟨⟨task, state⟩, hpair⟩ := Option.isSome_iff_exists.mp hsome
        obtain ⟨-, rfl, rfl⟩ := tracked_eq_some hpair
        rw [hs', hs₂, hs₃, State.nextStates, hpair]
        dsimp only
        rw [if_pos hyes, htaskID, State.taken, hs₁]
      · have hrows : s₁.db.rowsOf s.runID = s.db.rowsOf s.runID ++ [row] := by
          rw [← hnext.1]
          exact DB.rowsOf_append hevents
        rw [hnext'.2, hnext.2]
        dsimp only [State.taken]
        rw [hrun₁, hrows, List.length_append, List.length_singleton, Nat.cast_add, Nat.cast_one]
      · rw [hs', hs₂]
        dsimp only
        rw [hevents']
        dsimp only [State.taken]
        rw [hevents, List.append_assoc, List.singleton_append]

/-! ## The records -/

/-- A row that calls have added. `made` says that the processor made its event itself. -/
structure LogEntry where
  row : EventRow
  made : Bool
  terminal : made = true → row.eventType = lit "task_terminal"

/-- The row ends a task: it is a tool call or response of the task with a terminal state, and the
task is under way in the rows before. -/
def Finishes (before : List EventRow) (row : EventRow) (task state : Bytes) : Prop :=
  row.tracked = some (task, state) ∧ isTerminalState state = true ∧
    Opened Pending (before.filterMap EventRow.tracked) task

/-- The rows that calls have added, from the given number on. A row is followed by a completion
record exactly when it ends a task. -/
structure Recorded (first : Nat) (runID : Bytes) (calls : List Call) (log : List LogEntry) :
    Prop where
  numbered : ∀ i x, log[i]? = some x →
    x.row.runID = runID ∧ x.row.seqIndex = ((first + i : Nat) : Int)
  handedIn : List.Forall₂ (fun call x => ∃ e, call.event = some e ∧ StoredAs e x.row) calls
    (log.filter fun x => !x.made)
  head : ∀ x rest, log = x :: rest → x.made = false
  next : Adjacent (fun before x y => ∀ task state,
    y.made = true ∧ y.row.taskID = task ∧ y.row.taskState = state ↔
      Finishes (before.map LogEntry.row) x.row task state) log

/-- The last row needs no completion record. -/
def Settled (log : List LogEntry) : Prop :=
  ∀ before x, log = before ++ [x] →
    ∀ task state, ¬ Finishes (before.map LogEntry.row) x.row task state

theorem tracked_storedAs {e : Event} {row : EventRow} (h : StoredAs e row) :
    row.tracked = e.tracked := by
  obtain ⟨e', ⟨_, _, _, _, _, rfl⟩, henc⟩ := h
  obtain ⟨_, _, -, -, rfl⟩ := encodeEvent_eq_ok henc
  rfl

theorem tracked_terminal {row : EventRow} (h : row.eventType = lit "task_terminal") :
    row.tracked = none := by
  unfold EventRow.tracked trackedAs
  rw [h]
  exact if_neg fun htool => absurd htool.1 (by decide)

theorem Recorded.nil (first : Nat) (runID : Bytes) : Recorded first runID [] [] where
  numbered := by simp
  handedIn := .nil
  head := by simp
  next := .nil

theorem Settled.nil : Settled [] := by
  intro before x h
  simp at h

section

variable {first : Nat} {runID : Bytes} {calls : List Call} {log : List LogEntry}

theorem numbered_concat {y : LogEntry}
    (h : ∀ i x, log[i]? = some x → x.row.runID = runID ∧ x.row.seqIndex = ((first + i : Nat) : Int))
    (hrun : y.row.runID = runID) (hseq : y.row.seqIndex = ((first + log.length : Nat) : Int)) :
    ∀ i x, (log ++ [y])[i]? = some x →
      x.row.runID = runID ∧ x.row.seqIndex = ((first + i : Nat) : Int) := by
  intro i x hx
  by_cases hi : i < log.length
  · rw [List.getElem?_append_left hi] at hx
    exact h i x hx
  · rw [List.getElem?_append_right (by omega)] at hx
    obtain ⟨hi', rfl⟩ := List.getElem?_eq_some_iff.mp hx
    have heq : i = log.length := by
      simp at hi'
      omega
    subst heq
    simpa using ⟨hrun, hseq⟩

/-- The row of an event that was handed in. -/
theorem Recorded.handIn (h : Recorded first runID calls log) (hsettled : Settled log) {call : Call}
    {e : Event} (hevent : call.event = some e) {row : EventRow} (hstored : StoredAs e row)
    (hrun : row.runID = runID) (hseq : row.seqIndex = ((first + log.length : Nat) : Int)) :
    Recorded first runID (calls ++ [call]) (log ++ [⟨row, false, Bool.noConfusion⟩]) where
  numbered := numbered_concat h.numbered hrun hseq
  handedIn := by
    rw [List.filter_append]
    exact List.rel_append h.handedIn (.cons ⟨e, hevent, hstored⟩ .nil)
  head := by
    intro x rest hlog
    cases log with
    | nil =>
      cases hlog
      rfl
    | cons x' rest' =>
      cases hlog
      exact h.head _ _ rfl
  next := by
    refine adjacent_concat.mpr ⟨h.next, fun before x hlast task state => ?_⟩
    exact iff_of_false (fun hmade => Bool.noConfusion hmade.1) (hsettled before x hlast task state)

/-- The completion record after the row of an event. -/
theorem Recorded.complete {x : LogEntry} (h : Recorded first runID calls (log ++ [x]))
    {task state : Bytes} (hfinishes : Finishes (log.map LogEntry.row) x.row task state)
    {row : EventRow} (htype : row.eventType = lit "task_terminal") (htask : row.taskID = task)
    (hstate : row.taskState = state) (hrun : row.runID = runID)
    (hseq : row.seqIndex = ((first + (log.length + 1) : Nat) : Int)) :
    Recorded first runID calls (log ++ [x] ++ [⟨row, true, fun _ => htype⟩]) where
  numbered := numbered_concat h.numbered hrun (by simpa using hseq)
  handedIn := by
    rw [List.filter_append]
    simpa using h.handedIn
  head := by
    intro x' rest hlog
    cases log with
    | nil =>
      cases hlog
      exact h.head _ _ rfl
    | cons x₁ rest' =>
      cases hlog
      exact h.head _ _ rfl
  next := by
    refine adjacent_concat.mpr ⟨h.next, fun before x' hlast task' state' => ?_⟩
    obtain ⟨rfl, heq⟩ := List.append_inj' hlast rfl
    cases heq
    constructor
    · rintro ⟨-, rfl, rfl⟩
      dsimp only at *
      rw [htask, hstate]
      exact hfinishes
    · intro hfinishes'
      cases hfinishes.1.symm.trans hfinishes'.1
      exact ⟨rfl, htask, hstate⟩

theorem Recorded.runIDs (h : Recorded first runID calls log) : ∀ x ∈ log, x.row.runID = runID := by
  intro x hx
  obtain ⟨i, hi⟩ := List.getElem?_of_mem hx
  exact (h.numbered i x hi).1

/-- **A row is followed by a completion record exactly when it ends a task.** -/
theorem Recorded.completions (h : Recorded first runID calls log) (hsettled : Settled log)
    {before after : List LogEntry} {x : LogEntry} (hlog : log = before ++ x :: after)
    (task state : Bytes) :
    (∃ y ∈ after.head?, y.made = true ∧ y.row.taskID = task ∧ y.row.taskState = state) ↔
      Finishes (before.map LogEntry.row) x.row task state := by
  cases after with
  | nil =>
    refine iff_of_false ?_ (hsettled before x hlog task state)
    simp
  | cons y after =>
    rw [← h.next before x y after hlog task state]
    simp

/-- When no event that is handed in is a completion record, these are the ones with the type. -/
theorem Recorded.made_iff (h : Recorded first runID calls log)
    (hcalls : ∀ call ∈ calls, ∀ e, call.event = some e → e.eventType ≠ lit "task_terminal")
    {y : LogEntry} (hy : y ∈ log) : y.row.eventType = lit "task_terminal" ↔ y.made = true := by
  constructor
  · intro htype
    by_contra hmade
    have hmem : y ∈ log.filter fun x => !x.made :=
      List.mem_filter.mpr ⟨hy, by simpa using hmade⟩
    obtain ⟨call, hcall, e, hevent, e', ⟨_, _, _, _, _, rfl⟩, henc⟩ :=
      mem_of_forall₂_right h.handedIn hmem
    obtain ⟨_, _, -, -, hrow⟩ := encodeEvent_eq_ok henc
    rw [hrow] at htype
    exact hcalls call hcall e hevent htype
  · exact y.terminal

end

/-- What holds after calls whose stores succeed. -/
theorem AllStored.recorded {s : State} {runID : Bytes} {calls : List Call}
    (h : AllStored c strict (newEventProcessor s runID) calls) :
    ∃ log, (processAll c strict (newEventProcessor s runID) calls).db.events =
        s.db.events ++ log.map LogEntry.row ∧
      (processAll c strict (newEventProcessor s runID) calls).runID = runID ∧
      Recorded (s.db.rowsOf runID).length runID calls log ∧ Settled log ∧
      (log.map LogEntry.row).filterMap EventRow.tracked =
        (calls.filterMap Call.event).filterMap Event.tracked ∧
      Mirrors Pending (processAll c strict (newEventProcessor s runID) calls).taskStates
        ((calls.filterMap Call.event).filterMap Event.tracked) := by
  -- The calls are added at the end, as their rows are.
  induction calls using List.reverseRecOn with
  | nil => exact ⟨[], by simp [processAll, newEventProcessor], rfl, .nil _ _, .nil, rfl, .empty⟩
  | append_singleton calls call ih =>
    obtain ⟨hcalls, hcall⟩ := (allStored_append c strict).mp h
    obtain ⟨log, hevents, hrunID, hrecorded, hsettled, htracked, hstates⟩ := ih hcalls
    rw [processAll_concat]
    generalize processAll c strict (newEventProcessor s runID) calls = s₁ at *
    obtain ⟨e, row, hevent, hstored, hnext, hrunID', hstates', hrows⟩ :=
      StoresOk.step c strict hcall.1
    have hall : (log.map LogEntry.row).filter (·.runID = runID) = log.map LogEntry.row := by
      refine List.filter_eq_self.mpr fun row hrow => ?_
      obtain ⟨x, hx, rfl⟩ := List.mem_map.mp hrow
      simpa using hrecorded.runIDs x hx
    have hcount : (s₁.db.rowsOf s₁.runID).length = (s.db.rowsOf runID).length + log.length := by
      rw [DB.rowsOf, hevents, hrunID, List.filter_append, hall, List.length_append, List.length_map]
      rfl
    have hseq : row.seqIndex = (((s.db.rowsOf runID).length + log.length : Nat) : Int) := by
      rw [hnext.2, hcount]
    have hrecorded' := hrecorded.handIn hsettled hevent hstored (hnext.1.trans hrunID) hseq
    have hhistory : ((calls ++ [call]).filterMap Call.event).filterMap Event.tracked =
        (calls.filterMap Call.event).filterMap Event.tracked ++ e.tracked.toList := by
      rw [List.filterMap_append, List.filterMap_append]
      cases htr : e.tracked <;> simp [hevent, htr]
    have hmirrors : Mirrors Pending (processEvent c strict s₁ call).2.taskStates
        (((calls ++ [call]).filterMap Call.event).filterMap Event.tracked) := by
      rw [hstates', hhistory]
      exact mirrors_nextStates hstates e
    have hrow : row.tracked = e.tracked := tracked_storedAs hstored
    have hfinishes : s₁.completionDue e = true ↔
        ∃ task state, Finishes (log.map LogEntry.row) row task state := by
      rw [completionDue_iff hstates]
      unfold Finishes
      rw [htracked, hrow]
    rcases hrows with ⟨hno, hevents'⟩ | ⟨hyes, row', hterminal, hrun', hseq', hevents'⟩
    · refine ⟨log ++ [⟨row, false, Bool.noConfusion⟩], ?_, hrunID'.trans hrunID, hrecorded', ?_, ?_,
        hmirrors⟩
      · rw [hevents', hevents, List.map_append, List.append_assoc]
        rfl
      · intro before x hlog task state hfin
        obtain ⟨rfl, heq⟩ := List.append_inj' hlog rfl
        cases heq
        exact Bool.eq_false_iff.mp hno (hfinishes.mpr ⟨task, state, hfin⟩)
      · rw [hhistory, ← htracked, ← hrow, List.map_append, List.filterMap_append]
        cases htr : row.tracked <;> simp [htr]
    · obtain ⟨task, state, hfin⟩ := hfinishes.mp hyes
      obtain ⟨-, htask, hstate⟩ := tracked_eq_some (hrow.symm.trans hfin.1)
      have hrecorded'' := hrecorded'.complete hfin hterminal.eventType
        (hterminal.taskID.trans htask) (hterminal.taskState.trans hstate) (hrun'.trans hrunID)
        (by rw [hseq', hseq]; push_cast; ring)
      refine ⟨_, ?_, hrunID'.trans hrunID, hrecorded'', ?_, ?_, hmirrors⟩
      · rw [hevents', hevents]
        simp
      · -- A completion record is no tool event, so it ends no task.
        intro before x hlog task state hfin'
        obtain ⟨-, heq⟩ := List.append_inj' hlog rfl
        cases heq
        cases (tracked_terminal hterminal.eventType).symm.trans hfin'.1
      · rw [hhistory, ← htracked, ← hrow, List.map_append, List.map_append, List.filterMap_append,
          List.filterMap_append]
        cases htr : row.tracked <;> simp [htr, tracked_terminal hterminal.eventType]

/-- **Completion records are exact.** Let an event processor handle any sequence of calls whose
stores succeed. The rows that it adds are numbered one after the other, and are the rows of the
events in their order with completion records in between. A row is followed by the completion record
of a task with a state exactly when it is a tool call or response of the task with that state, which
is terminal, and an earlier tool event of the task was not terminal, with no terminal one since.
When no event that was handed in has their type, the completion records are the `task_terminal`
rows. And after each of the calls the map has exactly the tasks whose latest tool event is not
terminal, with its state. -/
theorem completion_records_exact {s : State} {runID : Bytes} {calls : List Call}
    (h : AllStored c strict (newEventProcessor s runID) calls) :
    (∃ log, (processAll c strict (newEventProcessor s runID) calls).db.events =
        s.db.events ++ log.map LogEntry.row ∧
      Recorded (s.db.rowsOf runID).length runID calls log ∧
      (∀ before x after, log = before ++ x :: after → ∀ task state,
        (∃ y ∈ after.head?, y.made = true ∧ y.row.taskID = task ∧ y.row.taskState = state) ↔
          Finishes (before.map LogEntry.row) x.row task state) ∧
      ((∀ call ∈ calls, ∀ e, call.event = some e → e.eventType ≠ lit "task_terminal") →
        ∀ before row after, log.map LogEntry.row = before ++ row :: after → ∀ task state,
          (∃ row' ∈ after.head?, row'.eventType = lit "task_terminal" ∧ row'.taskID = task ∧
            row'.taskState = state) ↔ Finishes before row task state)) ∧
    ∀ n task state, (processAll c strict (newEventProcessor s runID) (calls.take n)).taskStates.get?
        task = some state ↔
      IsLatest (((calls.take n).filterMap Call.event).filterMap Event.tracked) task state ∧
        isTerminalState state = false := by
  refine ⟨?_, fun n => ?_⟩
  · obtain ⟨log, hevents, -, hrecorded, hsettled, -, -⟩ := h.recorded
    refine ⟨log, hevents, hrecorded, fun before x after hlog => hrecorded.completions hsettled hlog,
      fun hcalls before row after hrows task state => ?_⟩
    obtain ⟨before', rest, rfl, rfl, hrest⟩ := List.map_eq_append_iff.mp hrows
    obtain ⟨x, after', rfl, rfl, rfl⟩ := List.map_eq_cons_iff.mp hrest
    rw [← hrecorded.completions hsettled rfl task state]
    cases after' with
    | nil => simp
    | cons y after' =>
      have hy : y ∈ before' ++ x :: y :: after' := by simp
      simp [hrecorded.made_iff hcalls hy]
  · rw [← List.take_append_drop n calls] at h
    obtain ⟨-, -, -, -, -, -, hstates⟩ := ((allStored_append c strict).mp h).1.recorded
    exact hstates

/-- A call of one task, in the given state. -/
def taskCall (id state : Bytes) : Call where
  event := some { newEvent with
    id
    timestamp := recordedEnv.now
    eventType := lit "tool_call"
    method := lit "tools/call"
    taskID := lit "task-1"
    taskState := state }
  completion := { id := lit "done-" ++ id, now := recordedEnv.now }

/-- A call that starts a task, and one that ends it. -/
def taskCalls : List Call :=
  [taskCall (lit "call-1") (lit "working"), taskCall (lit "call-2") (lit "completed")]

theorem allStored_taskCalls :
    AllStored recordedCrypto true (newEventProcessor recordedGenesis (lit "run-1")) taskCalls := by
  obtain ⟨hready, hids, hrows⟩ := ready_recorded
  have hcall : ∀ call ∈ taskCalls, CallOk call := by
    intro call hmem
    simp only [taskCalls, List.mem_cons, List.not_mem_nil, or_false] at hmem
    rcases hmem with rfl | rfl
    · exact ⟨⟨_, rfl, by decide, exists_reads_of_mapLen rfl, exists_reads_of_mapLen rfl⟩, rfl, rfl,
        by decide⟩
    · exact ⟨⟨_, rfl, by decide, exists_reads_of_mapLen rfl, exists_reads_of_mapLen rfl⟩, rfl, rfl,
        by decide⟩
  have hfresh : ∀ id ∈ taskCalls.flatMap Call.ids,
      id ∉ (newEventProcessor recordedGenesis (lit "run-1")).ids := by
    rw [hids]
    decide
  obtain ⟨hok, -⟩ := processAll_ok recordedCrypto true taskCalls hready hcall (by decide) hfresh
    (by rw [hrows]; decide)
  exact allStored_of_allOk recordedCrypto hok

/-- The task is in the map after the first call, and not after the second one. -/
theorem completion_records_taskCalls :
    AllStored recordedCrypto true (newEventProcessor recordedGenesis (lit "run-1")) taskCalls ∧
    (processAll recordedCrypto true (newEventProcessor recordedGenesis (lit "run-1"))
      (taskCalls.take 1)).taskStates.get? (lit "task-1") = some (lit "working") ∧
    ∀ state, (processAll recordedCrypto true (newEventProcessor recordedGenesis (lit "run-1"))
      (taskCalls.take 2)).taskStates.get? (lit "task-1") ≠ some state := by
  obtain ⟨-, hstates⟩ := completion_records_exact recordedCrypto true allStored_taskCalls
  refine ⟨allStored_taskCalls, (hstates 1 _ _).mpr ⟨⟨[], [], rfl, by simp⟩, by decide⟩,
    fun state hget => ?_⟩
  obtain ⟨hlatest, hpending⟩ := (hstates 2 _ _).mp hget
  have hhistory : ((taskCalls.take 2).filterMap Call.event).filterMap Event.tracked =
      [(lit "task-1", lit "working")] ++ [(lit "task-1", lit "completed")] := rfl
  rw [hhistory, isLatest_concat] at hlatest
  rcases hlatest with ⟨-, rfl⟩ | ⟨hne, -⟩
  · exact absurd hpending (by decide)
  · exact hne rfl

end Logryph
