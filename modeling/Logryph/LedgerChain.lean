import Logryph.Infra.LinkedLog
import Logryph.Ledger

/-!
# The chain invariant of the ledger

The processor takes the number of an event from a count of rows and its link from a separate
query for the row with the largest number. The two agree because the rows of a run are a linked
log (`View.IsLog`), and that is what each `persistEvent` preserves.

* `Persist` — everything one `persistEvent` can do to the store and to the record of signed events
* `processEvent_steps` — a `ProcessEvent` is a sequence of such steps, at most two, however it ends
* `Persist.logStep` — each step appends a linked row or none: the store refines an append-only log
* `ledger_chain` — so the rows of a run form a chain, after any sequence of calls
-/

namespace Logryph

open Infra Relation

variable (c : Crypto) (strict : Bool)

/-! ## What one call can do -/

/-- The part of the state that the chain is about. -/
structure Core where
  db : DB
  signer : Signer
  runID : Bytes
  signed : List Event

def State.core (s : State) : Core := ⟨s.db, s.signer, s.runID, s.signed⟩

/-- The rows of the run, in the order in which they were stored. -/
def Core.rows (s : Core) : List EventRow := s.db.rowsOf s.runID

/-- `e'` is `e` after it was numbered, linked, hashed and signed in state `s`. -/
structure Prepared (s : Core) (e e' : Event) : Prop where
  fields : e' = { e with
    seqIndex := e'.seqIndex, runID := s.runID, prevHash := e'.prevHash,
    currentHash := e'.currentHash, signature := s.signer.signHash c e'.currentHash }
  seq : e'.seqIndex = s.rows.length
  link : e'.seqIndex = 0 ∧ e'.prevHash = zeroHash ∨
    ∃ row, s.db.lastRow s.runID = some row ∧ row.seqIndex + 1 = e'.seqIndex ∧
      row.currentHash = e'.prevHash
  hash : calculateEventHash c strict e'.prevHash e'.payload = .ok e'.currentHash

/-- One `persistEvent` of `e` that got as far as signing. Storing may then fail. -/
inductive Persist (e : Event) : Core → Core → Prop
  | unstored {s : Core} {e' : Event} (h : Prepared c strict s e e') :
    Persist e s { s with signed := s.signed ++ [e'] }
  | stored {s : Core} {e' : Event} {row : EventRow} {db : DB} (h : Prepared c strict s e e')
    (henc : encodeEvent e' = .ok row) (hadd : s.db.addEvent row = some db) :
    Persist e s { s with db, signed := s.signed ++ [e'] }

/-- A `persistEvent` of some event with the given property. -/
def PersistStep (P : Event → Prop) (s s' : Core) : Prop := ∃ e, P e ∧ Persist c strict e s s'

theorem mapError_eq_ok {α ε ε' : Type} {f : ε → ε'} {x : Except ε α} {a : α} :
    x.mapError f = .ok a ↔ x = .ok a := by
  cases x <;> simp [Except.mapError]

theorem getRunStats_eq_ok {fault : Option Fault} {db : DB} {runID : Bytes} {st : RunStats}
    (h : getRunStats strict fault db runID = .ok st) :
    runID ≠ [] ∧ st.totalEvents = (db.rowsOf runID).length := by
  obtain ⟨_, hck, h⟩ := bind_eq_ok.mp h
  rw [check_eq_ok, decide_eq_true_eq] at hck
  cases fault with
  | some f => cases h
  | none =>
    cases h
    exact ⟨hck, rfl⟩

theorem getLastEvent_eq_ok {fault : Option Fault} {db : DB} {runID : Bytes} {n : Nat} {hash : Bytes}
    (h : getLastEvent strict fault db runID = .ok (n, hash)) :
    db.lastRow runID = none ∧ n = 0 ∧ hash = [] ∨
      ∃ row, db.lastRow runID = some row ∧ row.seqIndex = n ∧ row.currentHash = hash := by
  obtain ⟨-, -, h⟩ := bind_eq_ok.mp h
  cases fault with
  | some f => cases h
  | none =>
    dsimp only at h
    split at h
    · next hrow =>
      cases h
      exact Or.inl ⟨hrow, rfl, rfl⟩
    · next row hrow =>
      split at h
      · cases h
      · next hneg =>
        cases h
        exact Or.inr ⟨row, hrow, by omega, rfl⟩

theorem assignSequenceAndPrevHash_eq_ok {faults : RepoFaults} {s : State} {e e' : Event}
    (h : assignSequenceAndPrevHash strict faults s e = .ok e') :
    e' = { e with seqIndex := e'.seqIndex, runID := s.runID, prevHash := e'.prevHash } ∧
      e'.seqIndex = s.core.rows.length ∧
      (e'.seqIndex = 0 ∧ e'.prevHash = zeroHash ∨
        ∃ row, s.db.lastRow s.runID = some row ∧ row.seqIndex + 1 = e'.seqIndex ∧
          row.currentHash = e'.prevHash) := by
  obtain ⟨st, hst, h⟩ := bind_eq_ok.mp h
  obtain ⟨-, htotal⟩ := getRunStats_eq_ok strict (mapError_eq_ok.mp hst)
  obtain ⟨⟨lastIndex, lastHash⟩, hlast, h⟩ := bind_eq_ok.mp h
  rw [inContext_eq_ok] at hlast
  dsimp only at h
  split at h
  · next hzero =>
    obtain ⟨-, -, h⟩ := bind_eq_ok.mp h
    cases h
    exact ⟨rfl, htotal, Or.inl ⟨hzero, rfl⟩⟩
  · next hpos =>
    obtain ⟨_, hne, h⟩ := bind_eq_ok.mp h
    obtain ⟨_, hgap, h⟩ := bind_eq_ok.mp h
    rw [check_eq_ok, decide_eq_true_eq] at hne hgap
    cases h
    refine ⟨rfl, htotal, Or.inr ?_⟩
    rcases getLastEvent_eq_ok strict hlast with ⟨-, -, hnil⟩ | ⟨row, hrow, hn, hhash⟩
    · exact absurd hnil hne
    · refine ⟨row, hrow, ?_, hhash⟩
      dsimp only
      omega

theorem hashAndSignEvent_eq_ok {signer : Signer} {e e' : Event}
    (h : hashAndSignEvent c strict signer e = .ok e') :
    ∃ hash, calculateEventHash c strict e.prevHash e.payload = .ok hash ∧
      e' = e.signedWith c signer hash := by
  obtain ⟨-, -, h⟩ := bind_eq_ok.mp h
  obtain ⟨hash, hhash, h⟩ := bind_eq_ok.mp h
  rw [inContext_eq_ok] at hhash
  cases h
  exact ⟨hash, hhash, rfl⟩

/-- **What `persistEvent` does.** Either nothing, or it signs the prepared event and stores it,
or it signs the event and storing fails. Only a stored event is returned. -/
theorem persistEvent_cases (faults : RepoFaults) (s : State) (e : Event) :
    (∃ f, persistEvent c strict faults s e = (.error f, s)) ∨
    (∃ e' f, Prepared c strict s.core e e' ∧
      persistEvent c strict faults s e = (.error f, { s with signed := s.signed ++ [e'] })) ∨
    ∃ e' row db, Prepared c strict s.core e e' ∧ encodeEvent e' = .ok row ∧
      s.db.addEvent row = some db ∧
      persistEvent c strict faults s e = (.ok e', { s with db, signed := s.signed ++ [e'] }) := by
  unfold persistEvent
  cases hassign : assignSequenceAndPrevHash strict faults s e with
  | error f => exact Or.inl ⟨f, rfl⟩
  | ok e₁ =>
    dsimp only
    cases hhash : hashAndSignEvent c strict s.signer e₁ with
    | error f => exact Or.inl ⟨f, rfl⟩
    | ok e' =>
      obtain ⟨hfields, hseq, hlink⟩ := assignSequenceAndPrevHash_eq_ok strict hassign
      obtain ⟨hash, hcalc, rfl⟩ := hashAndSignEvent_eq_ok c strict hhash
      have hprep : Prepared c strict s.core e (e₁.signedWith c s.signer hash) :=
        ⟨by rw [hfields]; rfl, hseq, hlink, hcalc⟩
      dsimp only
      rcases storeEvent_cases strict faults.storeEvent s.db (e₁.signedWith c s.signer hash) with
        ⟨f, hst⟩ | ⟨row, db, henc, -, -, -, hadd, hst⟩
      · rw [hst]
        exact Or.inr (Or.inl ⟨_, f, hprep, rfl⟩)
      · rw [hst]
        exact Or.inr (Or.inr ⟨_, row, db, hprep, henc, hadd, rfl⟩)

/-- `persistEvent` is at most one step on the core, and touches nothing else. -/
theorem persistEvent_steps (faults : RepoFaults) (s : State) (e : Event) :
    ReflTransGen (PersistStep c strict (· = e)) s.core (persistEvent c strict faults s e).2.core ∧
      (persistEvent c strict faults s e).2.taskStates = s.taskStates ∧
      (persistEvent c strict faults s e).2.pool = s.pool := by
  rcases persistEvent_cases c strict faults s e with
    ⟨f, h⟩ | ⟨e', f, hprep, h⟩ | ⟨e', row, db, hprep, henc, hadd, h⟩
  · rw [h]
    exact ⟨.refl, rfl, rfl⟩
  · rw [h]
    exact ⟨.single ⟨e, rfl, .unstored hprep⟩, rfl, rfl⟩
  · rw [h]
    exact ⟨.single ⟨e, rfl, .stored hprep henc hadd⟩, rfl, rfl⟩

/-- The events that a call may store: its own, and a completion event of the time it is given. -/
def Call.Submits (call : Call) (e : Event) : Prop :=
  call.event = some e ∨ e.timestamp = call.completion.now

theorem PersistStep.mono {P Q : Event → Prop} (hPQ : ∀ e, P e → Q e) {s s' : Core}
    (h : ReflTransGen (PersistStep c strict P) s s') :
    ReflTransGen (PersistStep c strict Q) s s' := by
  refine h.lift id fun a b hab => ?_
  obtain ⟨e, he, hstep⟩ := hab
  exact ⟨e, hPQ e he, hstep⟩

@[simp] theorem State.putEvent_core (s : State) (e : Event) :
    (s.putEvent strict e).2.core = s.core := rfl

/-- The end of `createTaskCompletionEvent`, after its event was persisted or not. -/
def afterCompletion (e : Event) : Except Fault Event × State → Except Fault Unit × State
  | (.ok e, s) => s.putEvent strict e
  | (.error (.panic msg), s) => (.error (.panic msg), s)
  | (.error (.error msg), s) =>
    if strict then
      (.error (assertionFailed strict (lit "persist task completion event failed: " ++ msg)), s)
    else s.putEvent strict e

theorem afterCompletion_core (e : Event) (x : Except Fault Event × State) :
    (afterCompletion strict e x).2.core = x.2.core := by
  rcases x with ⟨(msg | msg) | e', s⟩
  · cases strict with
    | true => rfl
    | false => rfl
  · rfl
  · rfl

theorem createTaskCompletionEvent_nil (env : CompletionEnv) {taskID state : Bytes} (s : State)
    (h : taskID = [] ∨ state = []) :
    ∃ r, createTaskCompletionEvent c strict env taskID state s = (r, s) := by
  unfold createTaskCompletionEvent
  rcases h with rfl | rfl
  · cases strict with
    | true => exact ⟨_, rfl⟩
    | false => exact ⟨_, rfl⟩
  · rcases quietCheck strict (taskID ≠ []) (lit "taskID must not be empty") with f | _ | _
    · exact ⟨_, rfl⟩
    · exact ⟨_, rfl⟩
    · cases strict with
      | true => exact ⟨_, rfl⟩
      | false => exact ⟨_, rfl⟩

theorem createTaskCompletionEvent_eq (env : CompletionEnv) {taskID state : Bytes} (s : State)
    (htask : taskID ≠ []) (hstate : state ≠ []) :
    createTaskCompletionEvent c strict env taskID state s =
      afterCompletion strict (completionEvent env taskID state (getEvent env.pick s.pool).1)
        (persistEvent c strict env.faults { s with pool := (getEvent env.pick s.pool).2 }
          (completionEvent env taskID state (getEvent env.pick s.pool).1)) := by
  unfold createTaskCompletionEvent
  rw [decide_eq_true htask, decide_eq_true hstate]
  rfl

theorem createTaskCompletionEvent_steps (env : CompletionEnv) (taskID state : Bytes) (s : State) :
    ReflTransGen (PersistStep c strict fun e => e.timestamp = env.now) s.core
      (createTaskCompletionEvent c strict env taskID state s).2.core := by
  by_cases hnil : taskID = [] ∨ state = []
  · obtain ⟨r, h⟩ := createTaskCompletionEvent_nil c strict env s hnil
    rw [h]
  obtain ⟨htask, hstate⟩ := not_or.mp hnil
  rw [createTaskCompletionEvent_eq c strict env s htask hstate]
  have hsteps := (persistEvent_steps c strict env.faults
    { s with pool := (getEvent env.pick s.pool).2 }
    (completionEvent env taskID state (getEvent env.pick s.pool).1)).1
  have hmono := PersistStep.mono c strict (Q := fun e => e.timestamp = env.now)
    (fun e he => by rw [he]; rfl) hsteps
  rw [afterCompletion_core]
  exact hmono

/-- Whether an event ends a task that was in another state before. -/
def State.endsTask (s : State) (e : Event) : Bool :=
  (s.taskStates.get? e.taskID).isSome && s.taskStates.get? e.taskID ≠ some e.taskState &&
    isTerminalState e.taskState

theorem isTerminalState_ne_nil {state : Bytes} (h : isTerminalState state = true) : state ≠ [] := by
  intro hnil
  rw [hnil] at h
  exact absurd h (by decide)

theorem State.isTerminalState_of_endsTask {s : State} {e : Event} (h : s.endsTask e = true) :
    isTerminalState e.taskState = true := by
  rw [State.endsTask, Bool.and_eq_true] at h
  exact h.2

theorem trackTaskState_nil (env : CompletionEnv) (s : State) {e : Event} (htask : e.taskID = []) :
    ∃ r, trackTaskState c strict env s e = (r, s) := by
  unfold trackTaskState
  rw [htask]
  cases strict with
  | true => exact ⟨_, rfl⟩
  | false => exact ⟨_, rfl⟩

/-- What `trackTaskState` does for an event of a task. -/
theorem trackTaskState_cases (env : CompletionEnv) (s : State) {e : Event}
    (htask : e.taskID ≠ []) :
    s.endsTask e = false ∧ trackTaskState c strict env s e = (.ok (), { s with
      taskStates := if isTerminalState e.taskState then s.taskStates
        else s.taskStates.insert e.taskID e.taskState }) ∨
    s.endsTask e = true ∧ ∃ s₁,
      (createTaskCompletionEvent c strict env e.taskID e.taskState s = (.ok (), s₁) ∧
        trackTaskState c strict env s e
          = (.ok (), { s₁ with taskStates := s₁.taskStates.erase e.taskID }) ∨
      ∃ f, createTaskCompletionEvent c strict env e.taskID e.taskState s = (.error f, s₁) ∧
        trackTaskState c strict env s e = (.error f, s₁)) := by
  unfold trackTaskState quietCheck
  rw [if_pos (by simpa using htask)]
  dsimp only
  rw [← State.endsTask]
  cases hends : s.endsTask e with
  | false =>
    refine Or.inl ⟨rfl, ?_⟩
    rw [if_neg (by simp)]
    dsimp only
    split
    · rfl
    · rfl
  | true =>
    refine Or.inr ⟨rfl, ?_⟩
    rw [if_pos rfl]
    rcases createTaskCompletionEvent c strict env e.taskID e.taskState s with ⟨f | u, s₁⟩
    · exact ⟨s₁, Or.inr ⟨f, rfl, rfl⟩⟩
    · refine ⟨s₁, Or.inl ⟨rfl, ?_⟩⟩
      dsimp only
      rw [if_pos (State.isTerminalState_of_endsTask hends)]

theorem trackTaskState_steps (env : CompletionEnv) (s : State) (e : Event) :
    ReflTransGen (PersistStep c strict fun e => e.timestamp = env.now) s.core
      (trackTaskState c strict env s e).2.core := by
  by_cases htask : e.taskID = []
  · obtain ⟨r, h⟩ := trackTaskState_nil c strict env s htask
    rw [h]
  have hcreate := createTaskCompletionEvent_steps c strict env e.taskID e.taskState s
  rcases trackTaskState_cases c strict env s htask with ⟨-, h⟩ | ⟨-, s₁, ⟨hc, h⟩ | ⟨f, hc, h⟩⟩
  · rw [h]
    exact .refl
  · rw [h]
    rw [hc] at hcreate
    exact hcreate
  · rw [h]
    rw [hc] at hcreate
    exact hcreate

/-- **A `ProcessEvent` is a sequence of persist steps**, however it ends. -/
theorem processEvent_steps (s : State) (call : Call) :
    ReflTransGen (PersistStep c strict call.Submits) s.core
      (processEvent c strict s call).2.core := by
  unfold processEvent
  split
  · exact .refl
  · next e he =>
    have hsteps := PersistStep.mono c strict (P := (· = e)) (Q := call.Submits)
      (fun e' he' => Or.inl (he' ▸ he)) (persistEvent_steps c strict call.faults s e).1
    split
    · next h => rw [h] at hsteps; exact hsteps
    · next e' s' h =>
      rw [h] at hsteps
      split
      · exact hsteps.trans (PersistStep.mono c strict (fun _ he => Or.inr he)
          (trackTaskState_steps c strict call.completion s' e'))
      · exact hsteps

/-- The run lemma: so is a whole sequence of calls. -/
theorem processAll_steps (calls : List Call) (s : State) :
    ReflTransGen (PersistStep c strict fun e => ∃ call ∈ calls, call.Submits e) s.core
      (processAll c strict s calls).core := by
  induction calls generalizing s with
  | nil => exact .refl
  | cons call calls ih =>
    have hhead := PersistStep.mono c strict (Q := fun e => ∃ call' ∈ call :: calls, call'.Submits e)
      (fun e he => ⟨call, List.mem_cons_self, he⟩) (processEvent_steps c strict s call)
    have htail := PersistStep.mono c strict (Q := fun e => ∃ call' ∈ call :: calls, call'.Submits e)
      (fun e ⟨call', hmem, he⟩ => ⟨call', List.mem_cons_of_mem _ hmem, he⟩)
      (ih (processEvent c strict s call).2)
    exact hhead.trans htail

/-! ## The rows are a log -/

/-- Rows as entries of a linked log. -/
def rowView : View EventRow Bytes where
  num := EventRow.seqIndex
  prev := EventRow.prevHash
  cur := EventRow.currentHash
  start := zeroHash

/-- A row whose hash and signature are those of the payload that it denotes. -/
def RowSound (signer : Signer) (row : EventRow) : Prop :=
  calculateEventHash c strict row.prevHash row.payload = .ok row.currentHash ∧
    row.signature = signer.signHash c row.currentHash

/-- The two orders of the queries, on a log. -/
theorem DB.orderedRows_of_isLog {db : DB} {runID : Bytes} (h : rowView.IsLog (db.rowsOf runID)) :
    db.orderedRows runID = db.rowsOf runID := h.insertionSort_eq

theorem DB.lastRow_of_isLog {db : DB} {runID : Bytes} (h : rowView.IsLog (db.rowsOf runID)) :
    db.lastRow runID = (db.rowsOf runID).getLast? := h.head?_insertionSort

/-- The row of a prepared event is linked to the rows before it, and sound. -/
theorem Prepared.follows {s : Core} {e e' : Event} {row : EventRow}
    (h : Prepared c strict s e e') (henc : encodeEvent e' = .ok row)
    (hlog : rowView.IsLog s.rows) :
    rowView.Follows s.rows row ∧ RowSound c strict s.signer row ∧ row.runID = s.runID := by
  obtain ⟨params, response, hp, hr, hrow⟩ := encodeEvent_eq_ok henc
  have hseq : row.seqIndex = s.rows.length := by rw [hrow, ← h.seq]
  have hprev : row.prevHash = e'.prevHash := by rw [hrow]
  have hcur : row.currentHash = e'.currentHash := by rw [hrow]
  have hsig : row.signature = e'.signature := by rw [hrow]
  have hrun : row.runID = e'.runID := by rw [hrow]
  refine ⟨⟨hseq, ?_⟩, ⟨?_, ?_⟩, ?_⟩
  · show row.prevHash = rowView.tip s.rows
    rw [hprev]
    rcases h.link with ⟨hzero, hlink⟩ | ⟨last, hlast, -, hlink⟩
    · rw [hlink, List.length_eq_zero_iff.mp (h.seq.symm.trans hzero)]
      rfl
    · have : s.rows.getLast? = some last := by
        rw [← hlast]
        exact (DB.lastRow_of_isLog hlog).symm
      rw [View.tip, this]
      exact hlink.symm
  · -- the row denotes the payload that was hashed
    obtain ⟨hok, -, x, hx, hh⟩ := (calculateEventHash_eq_ok c strict).mp h.hash
    obtain ⟨w, hw⟩ := exists_normalForm hx
    have hcongr : hashInput e'.prevHash row.payload = some x := by
      rw [← hx]
      exact hashInput_congr ((normalForm_rowPayload henc hw).trans hw.symm)
    rw [hprev, hcur]
    exact (calculateEventHash_eq_ok c strict).mpr ⟨hok, rfl, x, hcongr, hh⟩
  · rw [hsig, hcur, h.fields]
  · rw [hrun, h.fields]

/-- **A persist step appends one linked, sound row to the run, or none.** -/
theorem Persist.logStep {e : Event} {s s' : Core} (h : Persist c strict e s s')
    (hlog : rowView.IsLog s.rows) :
    rowView.LogStep (RowSound c strict s.signer) s.rows s'.rows ∧ s'.signer = s.signer ∧
      s'.runID = s.runID := by
  cases h with
  | unstored _ => exact ⟨Or.inl rfl, rfl, rfl⟩
  | stored h henc hadd =>
    obtain ⟨hfollows, hsound, hrun⟩ := h.follows c strict henc hlog
    obtain ⟨-, hevents, -⟩ := DB.addEvent_eq_some hadd
    refine ⟨Or.inr ⟨_, hfollows, hsound, ?_⟩, rfl, rfl⟩
    have := DB.rowsOf_append hevents
    rwa [hrun] at this

/-- The store refines the append-only log. -/
theorem logSteps_of_steps {P : Event → Prop} {s s' : Core}
    (h : ReflTransGen (PersistStep c strict P) s s') (hlog : rowView.IsLog s.rows)
    (hsound : ∀ row ∈ s.rows, RowSound c strict s.signer row) :
    ReflTransGen (rowView.LogStep (RowSound c strict s.signer)) s.rows s'.rows ∧
      s'.signer = s.signer ∧ s'.runID = s.runID := by
  induction h with
  | refl => exact ⟨.refl, rfl, rfl⟩
  | tail _ hstep ih =>
    obtain ⟨hsteps, hsigner, hrun⟩ := ih
    obtain ⟨e, -, hpersist⟩ := hstep
    obtain ⟨hnext, hsigner', hrun'⟩ :=
      hpersist.logStep c strict (View.isLog_of_steps hsteps hlog hsound).1
    rw [hsigner] at hnext
    exact ⟨hsteps.tail hnext, hsigner'.trans hsigner, hrun'.trans hrun⟩

/-! ## Genesis -/

/-- Storing the genesis event is a persist step in the store with the run's own row. -/
theorem insertGenesis_eq_ok {env : GenesisEnv} {s s' : State} {agentName runID : Bytes} {e : Event}
    (h : insertGenesis c strict env agentName s e = (.ok runID, s'))
    (hempty : s.db.rowsOf env.runID = []) (hrun : e.runID = env.runID) (hseq : e.seqIndex = 0)
    (hprev : e.prevHash = zeroHash) :
    ∃ db, db.events = s.db.events ∧
      Persist c strict e ⟨db, s.signer, runID, s.signed⟩ ⟨s'.db, s'.signer, runID, s'.signed⟩ ∧
      (s'.db.rowsOf runID).length = 1 ∧ runID ≠ [] := by
  unfold insertGenesis at h
  cases hcalc : calculateEventHash c strict e.prevHash e.payload with
  | error f =>
    rw [hcalc] at h
    cases h
  | ok hash =>
    rw [hcalc] at h
    dsimp only [inContext] at h
    rcases insertRun_cases strict env.insertRun s.db env.runID agentName hash
      s.signer.getPublicKey with ⟨f, hir⟩ | ⟨db, haddRun, hir⟩
    · rw [hir] at h
      cases h
    · rw [hir] at h
      dsimp only at h
      obtain ⟨-, hevents⟩ := DB.addRun_eq_some haddRun
      rcases storeEvent_cases strict env.storeEvent db (e.signedWith c s.signer hash) with
        ⟨f, hst⟩ | ⟨row, db', henc, hck, -, -, hadd, hst⟩
      · rw [hst] at h
        cases h
      · rw [hst] at h
        cases h
        have hrows : db.rowsOf env.runID = [] := (DB.rowsOf_congr hevents _).trans hempty
        have hprep : Prepared c strict ⟨db, s.signer, env.runID, s.signed⟩ e
            (e.signedWith c s.signer hash) :=
          ⟨by rw [← hrun]; rfl, hseq.trans (congrArg List.length hrows).symm, Or.inl ⟨hseq, hprev⟩,
            hcalc⟩
        obtain ⟨_, _, -, -, hrow⟩ := encodeEvent_eq_ok henc
        have hid : row.runID = env.runID := by rw [hrow, ← hrun]; rfl
        have happ := DB.rowsOf_append (DB.addEvent_eq_some hadd).2.1
        rw [hid, hrows] at happ
        exact ⟨db, hevents, .stored hprep henc hadd, congrArg List.length happ,
          hid ▸ ((insertChecks_eq_ok strict).mp hck).2.1⟩

/-- A successful `CreateGenesisBlock` is a persist step of its event, on a store that holds no
other event of the run. -/
theorem createGenesisBlock_eq_ok {env : GenesisEnv} {s s' : State} {agentName runID : Bytes}
    (h : createGenesisBlock c strict env s agentName = (.ok runID, s'))
    (hempty : s.db.rowsOf env.runID = []) :
    ∃ e db, (e.timestamp = env.now ∧ e.parentID = (getEvent env.pick s.pool).1.parentID) ∧
      db.events = s.db.events ∧
      Persist c strict e ⟨db, s.signer, runID, s.signed⟩ (newEventProcessor s' runID).core ∧
      (newEventProcessor s' runID).core.rows.length = 1 ∧ runID ≠ [] := by
  unfold createGenesisBlock at h
  dsimp only at h
  cases hm : (getEvent env.pick s.pool).1.params with
  | none =>
    rw [fillGenesis, hm] at h
    dsimp only at h
    split at h
    · cases h
    · cases h
  | some m =>
    rw [fillGenesis, hm] at h
    dsimp only at h
    split at h
    · cases h
    · next s₂ hput =>
      cases hr : insertGenesis c strict env agentName
        { s with pool := (getEvent env.pick s.pool).2 }
        (genesisEvent env s.signer agentName (getEvent env.pick s.pool).1 m) with
      | mk r s₁ =>
        rw [hr] at h hput
        cases h
        have hcore := congrArg State.core (congrArg Prod.snd hput)
        rw [State.putEvent_core] at hcore
        obtain ⟨db, hevents, hstep, hlen, hne⟩ :=
          insertGenesis_eq_ok c strict hr hempty rfl rfl rfl
        have hdb : s₁.db = s'.db := congrArg Core.db hcore
        have hsigner : s₁.signer = s'.signer := congrArg Core.signer hcore
        have hsigned : s₁.signed = s'.signed := congrArg Core.signed hcore
        rw [hdb, hsigner, hsigned] at hstep
        rw [hdb] at hlen
        exact ⟨genesisEvent env s.signer agentName (getEvent env.pick s.pool).1 m, db, ⟨rfl, rfl⟩,
          hevents, hstep, hlen, hne⟩

/-! ## The chain -/

/-- The rows of a run form an unbroken chain. -/
structure ChainOk (signer : Signer) (rows : List EventRow) : Prop where
  nonempty : rows ≠ []
  numbered : rows.map EventRow.seqIndex = (List.range rows.length).map Int.ofNat
  first : ∀ row ∈ rows.head?, row.prevHash = zeroHash
  linked : rows.IsChain fun a b => b.prevHash = a.currentHash
  sound : ∀ row ∈ rows, RowSound c strict signer row

theorem chainOk_of_isLog {signer : Signer} {rows : List EventRow} (hne : rows ≠ [])
    (hlog : rowView.IsLog rows) (hsound : ∀ row ∈ rows, RowSound c strict signer row) :
    ChainOk c strict signer rows :=
  ⟨hne, hlog.map_num, hlog.prev_head, hlog.isChain, hsound⟩

/-- What holds in every state of a run: the rows are a log of sound rows, and the first is there. -/
structure RunInv (signer : Signer) (runID : Bytes) (s : Core) : Prop where
  signer_eq : s.signer = signer
  runID_eq : s.runID = runID
  nonempty : s.rows ≠ []
  isLog : rowView.IsLog s.rows
  sound : ∀ row ∈ s.rows, RowSound c strict signer row

theorem RunInv.steps {signer : Signer} {runID : Bytes} {P : Event → Prop} {s s' : Core}
    (h : RunInv c strict signer runID s) (hsteps : ReflTransGen (PersistStep c strict P) s s') :
    RunInv c strict signer runID s' := by
  obtain ⟨hlogSteps, hsigner, hrun⟩ :=
    logSteps_of_steps c strict hsteps h.isLog (h.signer_eq.symm ▸ h.sound)
  obtain ⟨hlog, hsound⟩ := View.isLog_of_steps hlogSteps h.isLog (h.signer_eq.symm ▸ h.sound)
  rw [h.signer_eq] at hsound
  refine ⟨hsigner.trans h.signer_eq, hrun.trans h.runID_eq, ?_, hlog, hsound⟩
  have hlen : s.rows.length ≤ s'.rows.length := View.length_le_of_steps hlogSteps
  intro hnil
  rw [hnil, List.length_nil, Nat.le_zero, List.length_eq_zero_iff] at hlen
  exact h.nonempty hlen

/-- A run starts with the invariant. -/
theorem runInv_of_genesis {env : GenesisEnv} {signer : Signer} {pool : List Event}
    {agentName runID : Bytes} {s : State}
    (h : createGenesisBlock c strict env (initialState signer pool) agentName = (.ok runID, s)) :
    RunInv c strict signer runID (newEventProcessor s runID).core := by
  obtain ⟨e, db, -, hevents, hstep, hlen, -⟩ := createGenesisBlock_eq_ok c strict h rfl
  have hrows : db.rowsOf runID = [] := DB.rowsOf_congr hevents runID
  have hlog : rowView.IsLog (Core.rows ⟨db, signer, runID, []⟩) := by
    rw [Core.rows, hrows]
    exact .nil
  obtain ⟨hlogStep, hsigner, -⟩ := hstep.logStep c strict hlog
  obtain ⟨hlog', hsound⟩ := hlogStep.isLog hlog (by
    intro row hrow
    rw [Core.rows, hrows] at hrow
    cases hrow)
  refine ⟨hsigner, rfl, fun hnil => ?_, hlog', hsound⟩
  rw [hnil] at hlen
  cases hlen

/-- The run lemma: the invariant holds after every sequence of calls. -/
theorem runInv_processAll {env : GenesisEnv} {signer : Signer} {pool : List Event}
    {agentName runID : Bytes} {s : State}
    (hgen : createGenesisBlock c strict env (initialState signer pool) agentName = (.ok runID, s))
    (calls : List Call) :
    RunInv c strict signer runID (processAll c strict (newEventProcessor s runID) calls).core :=
  (runInv_of_genesis c strict hgen).steps c strict (processAll_steps c strict calls _)

theorem RunInv.rows_eq {signer : Signer} {runID : Bytes} {s : State}
    (h : RunInv c strict signer runID s.core) : s.core.rows = s.db.rowsOf runID :=
  congrArg s.db.rowsOf h.runID_eq

/-- **The chain invariant of the ledger.** After `CreateGenesisBlock` on an empty store and any
sequence of `ProcessEvent` calls, whichever of them fail, the rows of the run are numbered without
a gap, linked from the zero hash on, and each is hashed and signed over its own payload. -/
theorem ledger_chain {env : GenesisEnv} {signer : Signer} {pool : List Event}
    {agentName runID : Bytes} {s : State}
    (hgen : createGenesisBlock c strict env (initialState signer pool) agentName = (.ok runID, s))
    (calls : List Call) :
    ChainOk c strict signer
      ((processAll c strict (newEventProcessor s runID) calls).db.orderedRows runID) := by
  have hinv := runInv_processAll c strict hgen calls
  have hne := hinv.nonempty
  have hlog := hinv.isLog
  have hsound := hinv.sound
  rw [hinv.rows_eq] at hne hlog hsound
  rw [DB.orderedRows_of_isLog hlog]
  exact chainOk_of_isLog c strict hne hlog hsound

theorem ledger_chain_recorded : ChainOk recordedCrypto true recordedSigner
    ((recordedRun 3).db.orderedRows (lit "run-1")) :=
  ledger_chain recordedCrypto true createGenesisBlock_recorded (recordedCalls.take 3)

end Logryph
