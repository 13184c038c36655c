import Logryph.LedgerOk

/-!
# What a ProcessEvent leaves behind

In strict mode a `ProcessEvent` ends in one of a few ways: the event was not stored, it was stored
and nothing else was due, it was stored together with the event that completes its task, or it was
stored and the second event was not, which trips an assertion.

* `State.completionDue` — whether an event completes its task
* `processEvent_outcome` — the ways in which a call can end
* `Outcome.events` — what each of them adds to the store
-/

namespace Logryph

open Infra

variable (c : Crypto)

/-! ## Completions -/

/-- An event completes its task: the task was seen in another state, and this one is its last. -/
def State.completionDue (s : State) (e : Event) : Bool :=
  (e.eventType = lit "tool_call" || e.eventType = lit "tool_response") && e.taskID ≠ [] &&
    ((s.taskStates.get? e.taskID).isSome && s.taskStates.get? e.taskID ≠ some e.taskState &&
      isTerminalState e.taskState)

/-- The completion event that a call makes in a state. -/
def State.completion (s : State) (env : CompletionEnv) (e : Event) : Event :=
  completionEvent env e.taskID e.taskState (getEvent env.pick s.pool).1

/-- The state in which it is persisted. -/
def State.taken (s : State) (env : CompletionEnv) : State :=
  { s with pool := (getEvent env.pick s.pool).2 }

/-- Putting a completion event back never fails. -/
theorem completion_fits {s : State} (hpool : ∀ p ∈ s.pool, Clean p) (env : CompletionEnv)
    (e : Event) : mapLen (s.completion env e).params ≤ maxEventFields ∧
      mapLen (s.completion env e).response ≤ maxEventFields := by
  obtain ⟨hclean, -⟩ := clean_getEvent hpool env.pick
  obtain ⟨m, hm, hentries⟩ := completionEvent_params hclean env e.taskID e.taskState
  constructor
  · rw [State.completion, hm, mapLen, SortedMap.size, hentries]
    exact show 2 ≤ 256 by decide
  · exact hclean.2.2.le.trans (Nat.zero_le _)

/-- What `createTaskCompletionEvent` does in strict mode: it stores its event, or panics. -/
theorem createTaskCompletionEvent_cases {s : State} (hpool : ∀ p ∈ s.pool, Clean p)
    (env : CompletionEnv) {e : Event} (htask : e.taskID ≠ []) (hstate : e.taskState ≠ []) :
    (∃ e' s₁, persistEvent c true env.faults (s.taken env) (s.completion env e) = (.ok e', s₁) ∧
      createTaskCompletionEvent c true env e.taskID e.taskState s
        = (.ok (), { s₁ with pool := clearEvent e' :: s₁.pool })) ∨
    ∃ f s₁ msg, persistEvent c true env.faults (s.taken env) (s.completion env e) = (.error f, s₁) ∧
      createTaskCompletionEvent c true env e.taskID e.taskState s = (.error (.panic msg), s₁) := by
  obtain ⟨hparams, hresponse⟩ := completion_fits hpool env e
  rw [createTaskCompletionEvent_eq c true env s htask hstate, ← State.taken, ← State.completion]
  cases hpersist : persistEvent c true env.faults (s.taken env) (s.completion env e) with
  | mk r s₁ =>
    rcases r with (msg | msg) | e'
    · exact Or.inr ⟨_, s₁, _, rfl, rfl⟩
    · exact Or.inr ⟨_, s₁, msg, rfl, rfl⟩
    · refine Or.inl ⟨e', s₁, rfl, ?_⟩
      rcases persistEvent_cases c true env.faults (s.taken env) (s.completion env e) with
        ⟨f, h⟩ | ⟨e₁, f, -, h⟩ | ⟨e₁, row, db, hprep, -, -, h⟩
      · cases hpersist.symm.trans h
      · cases hpersist.symm.trans h
      · cases hpersist.symm.trans h
        exact State.putEvent_ok true (by rw [hprep.fields]; exact hparams)
          (by rw [hprep.fields]; exact hresponse)

/-! ## The ways to end -/

/-- How a `ProcessEvent` of `e` ends in strict mode. -/
inductive Outcome (s : State) (call : Call) (e : Event) : Except Fault Unit × State → Prop
  /-- The event was not stored. -/
  | refused {f : Fault} {s' : State}
      (persisted : persistEvent c true call.faults s e = (.error f, s')) :
      Outcome s call e (.error f, s')
  /-- The event was stored, and its task goes on or there is none. -/
  | stored {e' : Event} {s₁ : State} {taskStates : SortedMap Bytes Bytes}
      (persisted : persistEvent c true call.faults s e = (.ok e', s₁))
      (due : s.completionDue e = false) :
      Outcome s call e (.ok (), { s₁ with taskStates })
  /-- The event was stored, and after it the one that completes its task. -/
  | completed {e' e₂ : Event} {s₁ s₂ : State} {taskStates : SortedMap Bytes Bytes}
      {pool : List Event}
      (persisted : persistEvent c true call.faults s e = (.ok e', s₁))
      (due : s.completionDue e = true)
      (completed : persistEvent c true call.completion.faults (s₁.taken call.completion)
        (s₁.completion call.completion e) = (.ok e₂, s₂)) :
      Outcome s call e (.ok (), { s₂ with taskStates, pool })
  /-- The event was stored, and the one that completes its task was not. -/
  | broken {e' : Event} {s₁ s₂ : State} {f : Fault} {msg : Bytes}
      (persisted : persistEvent c true call.faults s e = (.ok e', s₁))
      (due : s.completionDue e = true)
      (refused : persistEvent c true call.completion.faults (s₁.taken call.completion)
        (s₁.completion call.completion e) = (.error f, s₂)) :
      Outcome s call e (.error (.panic msg), s₂)

/-- Persisting an event gives it a number, links and hashes, and leaves the rest alone. -/
theorem persistEvent_eq_ok {strict : Bool} {faults : RepoFaults} {s s₁ : State} {e e' : Event}
    (h : persistEvent c strict faults s e = (.ok e', s₁)) :
    Prepared c strict s.core e e' ∧ ∃ row db, encodeEvent e' = .ok row ∧
      s.db.addEvent row = some db ∧ s₁ = { s with db, signed := s.signed ++ [e'] } := by
  rcases persistEvent_cases c strict faults s e with
    ⟨f, hp⟩ | ⟨e₁, f, -, hp⟩ | ⟨e₁, row, db, hprep, henc, hadd, hp⟩
  · cases h.symm.trans hp
  · cases h.symm.trans hp
  · cases h.symm.trans hp
    exact ⟨hprep, row, db, henc, hadd, rfl⟩

theorem persistEvent_eq_error {strict : Bool} {faults : RepoFaults} {s s₁ : State} {e : Event}
    {f : Fault} (h : persistEvent c strict faults s e = (.error f, s₁)) :
    ∃ signed, s₁ = { s with signed } := by
  rcases persistEvent_cases c strict faults s e with
    ⟨f', hp⟩ | ⟨e₁, f', -, hp⟩ | ⟨e₁, row, db, -, -, -, hp⟩
  · cases h.symm.trans hp
    exact ⟨s.signed, rfl⟩
  · cases h.symm.trans hp
    exact ⟨_, rfl⟩
  · cases h.symm.trans hp

/-- **How a `ProcessEvent` ends.** -/
theorem processEvent_outcome {s : State} {call : Call} {e : Event} (hpool : ∀ p ∈ s.pool, Clean p)
    (hevent : call.event = some e) : Outcome c s call e (processEvent c true s call) := by
  unfold processEvent
  rw [hevent]
  dsimp only
  cases hpersist : persistEvent c true call.faults s e with
  | mk r s₁ =>
    cases r with
    | error f => exact .refused hpersist
    | ok e' =>
      obtain ⟨hprep, row, db, -, -, hs₁⟩ := persistEvent_eq_ok c hpersist
      have htype : e'.eventType = e.eventType := by rw [hprep.fields]
      have htaskID : e'.taskID = e.taskID := by rw [hprep.fields]
      have hstate : e'.taskState = e.taskState := by rw [hprep.fields]
      have htasks : s₁.taskStates = s.taskStates := by rw [hs₁]
      have hpool₁ : ∀ p ∈ s₁.pool, Clean p := by
        rw [hs₁]
        exact hpool
      dsimp only
      rw [htype, htaskID]
      cases htool : (e.eventType = lit "tool_call" || e.eventType = lit "tool_response") &&
          e.taskID ≠ [] with
      | false =>
        have hdue : s.completionDue e = false := by rw [State.completionDue, htool]; rfl
        exact @Outcome.stored c s call e e' s₁ s₁.taskStates hpersist hdue
      | true =>
        have hne : e.taskID ≠ [] := by
          rw [Bool.and_eq_true, decide_eq_true_eq] at htool
          exact htool.2
        rw [if_pos rfl]
        have hdue : s.completionDue e = s₁.endsTask e' := by
          rw [State.completionDue, htool, State.endsTask, htasks, htaskID, hstate]
          rfl
        have hcomp : s₁.completion call.completion e' = s₁.completion call.completion e := by
          rw [State.completion, htaskID, hstate, State.completion]
        rcases trackTaskState_cases c true call.completion s₁ (htaskID.symm ▸ hne) with
          ⟨hno, htrack⟩ | ⟨hyes, s₃, hcases⟩
        · rw [htrack]
          exact .stored hpersist (hdue.trans hno)
        · rcases createTaskCompletionEvent_cases c hpool₁ call.completion (htaskID.symm ▸ hne)
            (isTerminalState_ne_nil (State.isTerminalState_of_endsTask hyes)) with
            ⟨e₂, s₂, hp₂, hcreate⟩ | ⟨f, s₂, msg, hp₂, hcreate⟩
          · rcases hcases with ⟨hc, htrack⟩ | ⟨f, hc, htrack⟩
            · cases hc.symm.trans hcreate
              rw [htrack]
              rw [hcomp] at hp₂
              exact @Outcome.completed c s call e e' e₂ s₁ s₂ _ _ hpersist (hdue.trans hyes) hp₂
            · cases hc.symm.trans hcreate
          · rcases hcases with ⟨hc, htrack⟩ | ⟨f', hc, htrack⟩
            · cases hc.symm.trans hcreate
            · cases hc.symm.trans hcreate
              rw [htrack]
              rw [hcomp] at hp₂
              exact .broken hpersist (hdue.trans hyes) hp₂

/-! ## The pool -/

/-- The pool has no part in storing the genesis event. -/
theorem insertGenesis_pool (strict : Bool) (env : GenesisEnv) (agentName : Bytes) (s : State)
    (pool : List Event) (e : Event) : insertGenesis c strict env agentName { s with pool } e
      = ((insertGenesis c strict env agentName s e).1,
        { (insertGenesis c strict env agentName s e).2 with pool }) := by
  unfold insertGenesis
  cases inContext (lit "calculating genesis hash")
      (calculateEventHash c strict e.prevHash e.payload) with
  | error f => rfl
  | ok currentHash =>
    dsimp only
    rcases insertRun strict env.insertRun s.db env.runID agentName currentHash
      s.signer.getPublicKey with ⟨f | u, db⟩
    · rfl
    · dsimp only
      rcases storeEvent strict env.storeEvent db (e.signedWith c s.signer currentHash)
        with ⟨f | u, db₁⟩ <;> rfl

section

variable (strict : Bool) {s : State} (h : ∀ p ∈ s.pool, Clean p)

include h

theorem clean_persistEvent (faults : RepoFaults) (e : Event) :
    ∀ p ∈ (persistEvent c strict faults s e).2.pool, Clean p := by
  rcases persistEvent_cases c strict faults s e with
    ⟨f, hp⟩ | ⟨e₁, f, -, hp⟩ | ⟨e₁, row, db, -, -, -, hp⟩
  · rw [hp]
    exact h
  · rw [hp]
    exact h
  · rw [hp]
    exact h

theorem clean_createTaskCompletionEvent (env : CompletionEnv) (taskID state : Bytes) :
    ∀ p ∈ (createTaskCompletionEvent c strict env taskID state s).2.pool, Clean p := by
  by_cases hnil : taskID = [] ∨ state = []
  · obtain ⟨r, hr⟩ := createTaskCompletionEvent_nil c strict env s hnil
    rw [hr]
    exact h
  obtain ⟨htask, hstate⟩ := not_or.mp hnil
  have hpersist := clean_persistEvent c strict (s := s.taken env) (clean_getEvent h env.pick).2
    env.faults (completionEvent env taskID state (getEvent env.pick s.pool).1)
  rw [createTaskCompletionEvent_eq c strict env s htask hstate, ← State.taken]
  revert hpersist
  rcases persistEvent c strict env.faults (s.taken env) _ with ⟨(msg | msg) | e, s₁⟩
  · intro hpersist
    cases strict with
    | true => exact hpersist
    | false => exact clean_putEvent hpersist _
  · exact id
  · exact fun hpersist => clean_putEvent hpersist e

theorem clean_trackTaskState (env : CompletionEnv) (e : Event) :
    ∀ p ∈ (trackTaskState c strict env s e).2.pool, Clean p := by
  by_cases htask : e.taskID = []
  · obtain ⟨r, htrack⟩ := trackTaskState_nil c strict env s htask
    rw [htrack]
    exact h
  have hcreate := clean_createTaskCompletionEvent c strict h env e.taskID e.taskState
  rcases trackTaskState_cases c strict env s htask with
    ⟨-, htrack⟩ | ⟨-, s₁, ⟨hc, htrack⟩ | ⟨f, hc, htrack⟩⟩
  · rw [htrack]
    exact h
  · rw [htrack]
    rw [hc] at hcreate
    exact hcreate
  · rw [htrack]
    rw [hc] at hcreate
    exact hcreate

theorem clean_processEvent (call : Call) :
    ∀ p ∈ (processEvent c strict s call).2.pool, Clean p := by
  unfold processEvent
  split
  · exact h
  · next e _ =>
    have hpersist := clean_persistEvent c strict h call.faults e
    revert hpersist
    rcases persistEvent c strict call.faults s e with ⟨f | e₁, s₁⟩
    · exact id
    · intro hpersist
      dsimp only
      split
      · exact clean_trackTaskState c strict hpersist call.completion e₁
      · exact hpersist

theorem clean_createGenesisBlock (env : GenesisEnv) (agentName : Bytes) :
    ∀ p ∈ (createGenesisBlock c strict env s agentName).2.pool, Clean p := by
  unfold createGenesisBlock
  dsimp only
  have hpool : (fillGenesis c strict env agentName { s with pool := (getEvent env.pick s.pool).2 }
      (getEvent env.pick s.pool).1).2.2.pool = (getEvent env.pick s.pool).2 := by
    unfold fillGenesis
    split
    · rfl
    · dsimp only
      rw [insertGenesis_pool]
  revert hpool
  generalize fillGenesis c strict env agentName { s with pool := (getEvent env.pick s.pool).2 }
    (getEvent env.pick s.pool).1 = filled
  obtain ⟨e, r, s₁⟩ := filled
  intro hpool
  have hclean : ∀ p ∈ (s₁.putEvent strict e).2.pool, Clean p := by
    refine clean_putEvent ?_ e
    rw [show s₁.pool = _ from hpool]
    exact (clean_getEvent h env.pick).2
  revert hclean
  dsimp only
  rcases s₁.putEvent strict e with ⟨f | u, s₂⟩ <;> exact id

end

/-! ## Rows -/

/-- The rows that were added to a database, and nothing else. -/
def DB.Added (db db' : DB) (rows : List EventRow) : Prop :=
  db'.events = db.events ++ rows ∧ db'.runs = db.runs

theorem DB.Added.refl (db : DB) : db.Added db [] := ⟨(List.append_nil _).symm, rfl⟩

theorem DB.Added.trans {db db₁ db₂ : DB} {rows rows' : List EventRow} (h : db.Added db₁ rows)
    (h' : db₁.Added db₂ rows') : db.Added db₂ (rows ++ rows') :=
  ⟨by rw [h'.1, h.1, List.append_assoc], h'.2.trans h.2⟩

/-- The row of an event, as it was stored in the run of a state. -/
def RowOf (s : State) (e : Event) (row : EventRow) : Prop :=
  ∃ e', Prepared c true s.core e e' ∧ encodeEvent e' = .ok row

/-- A persisted event is one more row. -/
theorem persistEvent_added {faults : RepoFaults} {s s₁ : State} {e e' : Event}
    (h : persistEvent c true faults s e = (.ok e', s₁)) :
    ∃ row, RowOf c s e row ∧ s.db.Added s₁.db [row] := by
  obtain ⟨hprep, row, db, henc, hadd, rfl⟩ := persistEvent_eq_ok c h
  obtain ⟨-, hevents, hruns⟩ := DB.addEvent_eq_some hadd
  exact ⟨row, ⟨e', hprep, henc⟩, hevents, hruns⟩

/-- **What a call adds to the store**: nothing, the event's row, or that row and the row of the
completion event directly after it. -/
theorem Outcome.events {s : State} {call : Call} {e : Event} {out : Except Fault Unit × State}
    (h : Outcome c s call e out) :
    (s.db.Added out.2.db [] ∧ out.2.taskStates = s.taskStates ∧ ∃ f, out.1 = .error f ∧
      (persistEvent c true call.faults s e).1 = .error f) ∨
    ∃ row, RowOf c s e row ∧
      (s.completionDue e = false ∧ out.1 = .ok () ∧ s.db.Added out.2.db [row] ∨
        s.completionDue e = true ∧
          ((∃ msg, out.1 = .error (.panic msg)) ∧ s.db.Added out.2.db [row] ∨
            out.1 = .ok () ∧ ∃ (s₁ : State) (row' : EventRow), s.db.Added s₁.db [row] ∧
              RowOf c (s₁.taken call.completion) (s₁.completion call.completion e) row' ∧
              s.db.Added out.2.db [row, row'])) := by
  cases h with
  | refused persisted =>
    obtain ⟨signed, rfl⟩ := persistEvent_eq_error c persisted
    exact Or.inl ⟨.refl _, rfl, _, rfl, by rw [persisted]⟩
  | stored persisted due =>
    obtain ⟨row, hrow, hadded⟩ := persistEvent_added c persisted
    exact Or.inr ⟨row, hrow, Or.inl ⟨due, rfl, hadded⟩⟩
  | completed persisted due completed =>
    obtain ⟨row, hrow, hadded⟩ := persistEvent_added c persisted
    obtain ⟨row', hrow', hadded'⟩ := persistEvent_added c completed
    refine Or.inr ⟨row, hrow, Or.inr ⟨due, Or.inr ⟨rfl, _, row', hadded, hrow', ?_⟩⟩⟩
    exact hadded.trans hadded'
  | broken persisted due refused =>
    obtain ⟨row, hrow, hadded⟩ := persistEvent_added c persisted
    obtain ⟨signed, rfl⟩ := persistEvent_eq_error c refused
    exact Or.inr ⟨row, hrow, Or.inr ⟨due, Or.inl ⟨⟨_, rfl⟩, hadded⟩⟩⟩

end Logryph
