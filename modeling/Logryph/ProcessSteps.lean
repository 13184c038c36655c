import Logryph.LedgerChain
import Logryph.Worker

/-!
# `ProcessEvent` step by step

The calls to the repository are where another goroutine can come in between. `ProcessPc` says which
of them is next: `GetRunStats` gives the event its number, `GetLastEvent` its link, hash and
signature, and `StoreEvent` writes it. An event that completes a task is followed by the same three
calls for its completion event.

* `iterate_processStep` — without anyone in between, the steps are `processEvent`
* `processStep_spec` — what one step does to the rows of the run: nothing, or one more row
* `RowsStep.runInv` — a step keeps the chain, as long as the link that its event was given is still
  right (`Fresh`)
-/

namespace Logryph

open Infra

/-- The event that is being written: the one that was handed in, or the one that completes the task
of an event that was written before. -/
inductive Target where
  | main
  | completion (e : Event)

/-- What a `ProcessEvent` does next. -/
inductive ProcessPc where
  /-- `GetRunStats`. -/
  | stats (target : Target) (e : Event)
  /-- `GetLastEvent`; the event has its number. -/
  | last (target : Target) (e : Event)
  /-- `StoreEvent`; the event is linked, hashed and signed. -/
  | store (target : Target) (e : Event)
  /-- `trackTaskState`; the event is stored. -/
  | track (e : Event)
  | ended (result : Except Fault Unit)

/-- The failures of the repository that a step meets with. -/
def Worker.HandleEnv.faultsFor (env : Worker.HandleEnv) : Target → RepoFaults
  | .main => env.faults
  | .completion _ => env.completion.faults

variable (c : Crypto) (strict : Bool)

/-- The end of `assignSequenceAndPrevHash`: the event is linked to the last one. -/
def linkEvent (e : Event) (lastIndex : Nat) (lastHash : Bytes) : Except Fault Event :=
  if e.seqIndex = 0 then do
    check strict (lastHash = []) (lit "expected empty last hash for seq 0")
    .ok { e with prevHash := zeroHash }
  else do
    check strict (lastHash ≠ []) (lit "prev_hash must be non-empty: seq=" ++ natText e.seqIndex)
    check strict (e.seqIndex = lastIndex + 1) (lit "sequence gap detected: prev=" ++
      natText lastIndex ++ lit ", curr=" ++ natText e.seqIndex)
    .ok { e with prevHash := lastHash }

/-- The end of `trackTaskState` after the completion event was put back. -/
def completed (main : Event) : Except Fault Unit × State → ProcessPc × State
  | (.error f, s) => (.ended (.error f), s)
  | (.ok (), s) => (.ended (.ok ()), { s with taskStates := s.taskStates.erase main.taskID })

/-- A `persistEvent` has failed. -/
def persistFailed (s : State) (target : Target) (e : Event) (f : Fault) : ProcessPc × State :=
  match target, f with
  | .main, f => (.ended (.error f), s)
  | .completion _, .panic msg => (.ended (.error (.panic msg)), s)
  | .completion main, .error msg =>
    if strict then
      (.ended (.error
        (assertionFailed strict (lit "persist task completion event failed: " ++ msg))), s)
    else completed main (s.putEvent strict e)

/-- A `persistEvent` has stored its event. -/
def persistDone (s : State) (e : Event) : Target → ProcessPc × State
  | .main =>
    if (e.eventType = lit "tool_call" || e.eventType = lit "tool_response") && e.taskID ≠ [] then
      (.track e, s)
    else (.ended (.ok ()), s)
  | .completion main => completed main (s.putEvent strict e)

/-- One step. -/
def processStep (env : Worker.HandleEnv) (s : State) : ProcessPc → ProcessPc × State
  | .stats target e =>
    match (getRunStats strict (env.faultsFor target).runStats s.db s.runID).mapError
        (statsFault strict) with
    | .error f => persistFailed strict s target e f
    | .ok stats => (.last target { e with seqIndex := stats.totalEvents, runID := s.runID }, s)
  | .last target e =>
    match inContext (lit "getting last event")
        (getLastEvent strict (env.faultsFor target).lastEvent s.db s.runID) with
    | .error f => persistFailed strict s target e f
    | .ok (lastIndex, lastHash) =>
      match linkEvent strict e lastIndex lastHash with
      | .error f => persistFailed strict s target e f
      | .ok e₁ =>
        match hashAndSignEvent c strict s.signer e₁ with
        | .error f => persistFailed strict s target e₁ f
        | .ok e₂ => (.store target e₂, { s with signed := s.signed ++ [e₂] })
  | .store target e =>
    match storeEvent strict (env.faultsFor target).storeEvent s.db e with
    | (.error f, db) => persistFailed strict { s with db } target e f
    | (.ok (), db) => persistDone strict { s with db } e target
  | .track e =>
    let oldState := s.taskStates.get? e.taskID
    if oldState.isSome && oldState ≠ some e.taskState && isTerminalState e.taskState then
      let (e', pool) := getEvent env.completion.pick s.pool
      (.stats (.completion e) (completionEvent env.completion e.taskID e.taskState e'),
        { s with pool })
    else if isTerminalState e.taskState then (.ended (.ok ()), s)
    else (.ended (.ok ()), { s with taskStates := s.taskStates.insert e.taskID e.taskState })
  | .ended result => (.ended result, s)

/-! ## The steps together -/

/-- Where a goroutine is, and the state that it works on. -/
def stepPair (env : Worker.HandleEnv) (x : ProcessPc × State) : ProcessPc × State :=
  processStep c strict env x.2 x.1

/-- What follows a `persistEvent`. -/
def afterPersist (target : Target) (e : Event) : Except Fault Event × State → ProcessPc × State
  | (.error f, s) => persistFailed strict s target e f
  | (.ok e', s) => persistDone strict s e' target

theorem assignSequenceAndPrevHash_eq (faults : RepoFaults) (s : State) (e : Event) :
    assignSequenceAndPrevHash strict faults s e = (do
      let stats ← (getRunStats strict faults.runStats s.db s.runID).mapError (statsFault strict)
      let (lastIndex, lastHash) ←
        inContext (lit "getting last event") (getLastEvent strict faults.lastEvent s.db s.runID)
      linkEvent strict { e with seqIndex := stats.totalEvents, runID := s.runID } lastIndex
        lastHash) := rfl

theorem completed_ended (main : Event) (x : Except Fault Unit × State) :
    ∃ result, (completed main x).1 = .ended result := by
  rcases x with ⟨f | u, s⟩ <;> exact ⟨_, rfl⟩

theorem persistFailed_ended (s : State) (target : Target) (e : Event) (f : Fault) :
    ∃ result, (persistFailed strict s target e f).1 = .ended result := by
  unfold persistFailed
  split
  · exact ⟨_, rfl⟩
  · exact ⟨_, rfl⟩
  · split
    · exact ⟨_, rfl⟩
    · exact completed_ended _ _

theorem stepPair_ended {env : Worker.HandleEnv} {x : ProcessPc × State}
    {result : Except Fault Unit} (h : x.1 = .ended result) : stepPair c strict env x = x := by
  obtain ⟨pc, s⟩ := x
  cases h
  rfl

/-- The number, link and hashes of an event make no difference once its persisting has failed. -/
theorem persistFailed_congr (s : State) (target : Target) (f : Fault) {e e' : Event}
    (h : e' = { e with
      seqIndex := e'.seqIndex, runID := e'.runID, prevHash := e'.prevHash,
      currentHash := e'.currentHash, signature := e'.signature }) :
    persistFailed strict s target e' f = persistFailed strict s target e f := by
  rw [h]
  rfl

/-- Linking an event changes nothing else in it. -/
theorem linkEvent_fields {e e' : Event} {lastIndex : Nat} {lastHash : Bytes}
    (h : linkEvent strict e lastIndex lastHash = .ok e') :
    e' = { e with prevHash := e'.prevHash } := by
  unfold linkEvent at h
  split at h
  · rw [bind_eq_ok] at h
    obtain ⟨-, -, h⟩ := h
    cases h
    rfl
  · rw [bind_eq_ok] at h
    obtain ⟨-, -, h⟩ := h
    rw [bind_eq_ok] at h
    obtain ⟨-, -, h⟩ := h
    cases h
    rfl

/-- Three steps are a `persistEvent`. -/
theorem stepPair_persist (env : Worker.HandleEnv) (target : Target) (s : State) (e : Event) :
    (stepPair c strict env)^[3] (.stats target e, s)
      = afterPersist strict target e (persistEvent c strict (env.faultsFor target) s e) := by
  have hfail : ∀ s₁ e₁ f, stepPair c strict env (persistFailed strict s₁ target e₁ f)
      = persistFailed strict s₁ target e₁ f := by
    intro s₁ e₁ f
    obtain ⟨result, h⟩ := persistFailed_ended strict s₁ target e₁ f
    exact stepPair_ended c strict h
  show stepPair c strict env (stepPair c strict env (processStep c strict env s (.stats target e)))
    = _
  rw [processStep, persistEvent, assignSequenceAndPrevHash_eq]
  cases (getRunStats strict (env.faultsFor target).runStats s.db s.runID).mapError
      (statsFault strict) with
  | error f =>
    dsimp only
    rw [hfail, hfail]
    rfl
  | ok stats =>
    show stepPair c strict env (processStep c strict env s (.last target _)) = _
    rw [processStep]
    cases inContext (lit "getting last event")
        (getLastEvent strict (env.faultsFor target).lastEvent s.db s.runID) with
    | error f =>
      dsimp only
      rw [hfail]
      exact persistFailed_congr strict s target f rfl
    | ok last =>
      obtain ⟨lastIndex, lastHash⟩ := last
      dsimp only [Bind.bind, Except.bind]
      cases hlink : linkEvent strict { e with seqIndex := stats.totalEvents, runID := s.runID }
          lastIndex lastHash with
      | error f =>
        dsimp only
        rw [hfail]
        exact persistFailed_congr strict s target f rfl
      | ok e₁ =>
        have hlinked := linkEvent_fields strict hlink
        dsimp only
        cases hsign : hashAndSignEvent c strict s.signer e₁ with
        | error f =>
          dsimp only
          rw [hfail]
          exact persistFailed_congr strict s target f (by rw [hlinked])
        | ok e₂ =>
          obtain ⟨hash, -, rfl⟩ := hashAndSignEvent_eq_ok c strict hsign
          show processStep c strict env _ (.store target _) = _
          rw [processStep]
          dsimp only
          rcases storeEvent strict (env.faultsFor target).storeEvent s.db
            (e₁.signedWith c s.signer hash) with ⟨f | u, db⟩
          · exact persistFailed_congr strict _ target f (by rw [hlinked]; rfl)
          · rfl

/-- **Without anyone in between, the steps are `ProcessEvent`.** -/
theorem iterate_processStep (env : Worker.HandleEnv) (s : State) (e : Event) :
    (stepPair c strict env)^[7] (.stats .main e, s)
      = (.ended (processEvent c strict s ⟨some e, env.faults, env.completion⟩).1,
        (processEvent c strict s ⟨some e, env.faults, env.completion⟩).2) := by
  have hsplit : (stepPair c strict env)^[7] (.stats .main e, s)
      = (stepPair c strict env)^[3] (stepPair c strict env
        ((stepPair c strict env)^[3] (.stats .main e, s))) := rfl
  have hstay : ∀ n result s₁, (stepPair c strict env)^[n] (.ended result, s₁)
      = (.ended result, s₁) := fun n result s₁ =>
    Function.iterate_fixed (stepPair_ended c strict rfl) n
  rw [hsplit, stepPair_persist]
  unfold processEvent
  dsimp only [Worker.HandleEnv.faultsFor]
  rcases persistEvent c strict env.faults s e with ⟨f | e₁, s₁⟩
  · exact hstay 4 _ _
  · dsimp only [afterPersist, persistDone]
    split
    · next htool =>
      show (stepPair c strict env)^[3] (processStep c strict env s₁ (.track e₁)) = _
      have htask : e₁.taskID ≠ [] := by
        rw [Bool.and_eq_true, decide_eq_true_eq] at htool
        exact htool.2
      unfold trackTaskState quietCheck
      rw [if_pos (by simpa using htask), processStep]
      dsimp only
      rw [← State.endsTask]
      cases hends : s₁.endsTask e₁ with
      | true =>
        have hterminal := State.isTerminalState_of_endsTask hends
        have hstate := isTerminalState_ne_nil hterminal
        rw [if_pos rfl, if_pos rfl, stepPair_persist]
        rw [createTaskCompletionEvent_eq c strict env.completion s₁ htask hstate, hterminal]
        dsimp only [Worker.HandleEnv.faultsFor]
        rcases persistEvent c strict env.completion.faults _ _ with ⟨(msg | msg) | e₂, s₂⟩
        · dsimp only [afterPersist, persistFailed, afterCompletion]
          split
          · rfl
          · rcases s₂.putEvent strict _ with ⟨f | u, s₃⟩ <;> rfl
        · rfl
        · dsimp only [afterPersist, persistDone, afterCompletion]
          rcases s₂.putEvent strict e₂ with ⟨f | u, s₃⟩ <;> rfl
      | false =>
        rw [if_neg Bool.false_ne_true, if_neg Bool.false_ne_true]
        dsimp only
        split
        · exact hstay 3 _ _
        · exact hstay 3 _ _
    · exact hstay 4 _ _

/-! ## Somebody in between -/

/-- The step is a `StoreEvent` that succeeds. -/
def stores (env : Worker.HandleEnv) (s : State) : ProcessPc → Bool
  | .store target e => (storeEvent strict (env.faultsFor target).storeEvent s.db e).1.isOk
  | _ => false

/-- What the event was given is still right: the run it belongs to, and its number and link. -/
def Fresh (s : Core) : ProcessPc → Prop
  | .last _ e => e.runID = s.runID
  | .store _ e' => ∃ e, Prepared c strict s e e'
  | _ => True

/-- The record of signed events has no part in it. -/
theorem Fresh.of_signed {s s' : Core} {pc : ProcessPc} (h : Fresh c strict s pc)
    (hdb : s'.db = s.db) (hsigner : s'.signer = s.signer) (hrun : s'.runID = s.runID) :
    Fresh c strict s' pc := by
  obtain ⟨db, signer, runID, signed⟩ := s
  obtain ⟨db', signer', runID', signed'⟩ := s'
  cases hdb
  cases hsigner
  cases hrun
  cases pc with
  | stats target e => trivial
  | last target e => exact h
  | store target e =>
    obtain ⟨e₀, hprep⟩ := h
    exact ⟨e₀, hprep.fields, hprep.seq, hprep.link, hprep.hash⟩
  | track e => trivial
  | ended result => trivial

@[simp] theorem completed_core (main : Event) (x : Except Fault Unit × State) :
    (completed main x).2.core = x.2.core := by
  rcases x with ⟨f | u, s⟩ <;> rfl

@[simp] theorem persistFailed_core (s : State) (target : Target) (e : Event) (f : Fault) :
    (persistFailed strict s target e f).2.core = s.core := by
  unfold persistFailed
  split
  · rfl
  · rfl
  · split
    · rfl
    · rw [completed_core, State.putEvent_core]

@[simp] theorem persistDone_core (s : State) (e : Event) (target : Target) :
    (persistDone strict s e target).2.core = s.core := by
  unfold persistDone
  split
  · split <;> rfl
  · rw [completed_core, State.putEvent_core]

theorem fresh_completed (s : Core) (main : Event) (x : Except Fault Unit × State) :
    Fresh c strict s (completed main x).1 := by
  rcases x with ⟨f | u, s⟩ <;> trivial

theorem fresh_persistFailed (s' : Core) (s : State) (target : Target) (e : Event) (f : Fault) :
    Fresh c strict s' (persistFailed strict s target e f).1 := by
  obtain ⟨result, h⟩ := persistFailed_ended strict s target e f
  rw [h]
  trivial

theorem fresh_persistDone (s' : Core) (s : State) (e : Event) (target : Target) :
    Fresh c strict s' (persistDone strict s e target).1 := by
  unfold persistDone
  split
  · split <;> trivial
  · exact fresh_completed c strict s' _ _

/-- A link that passes the checks is right, even if the number is an old one. -/
theorem prepared_of_linkEvent {signer : Signer} {runID : Bytes} {s : State} {fault : Option Fault}
    {e e₁ e₂ : Event} {lastIndex : Nat} {lastHash : Bytes}
    (hinv : RunInv c strict signer runID s.core) (hrun : e.runID = s.runID)
    (hlast : getLastEvent strict fault s.db s.runID = .ok (lastIndex, lastHash))
    (hlink : linkEvent strict e lastIndex lastHash = .ok e₁)
    (hsign : hashAndSignEvent c strict s.signer e₁ = .ok e₂) :
    Prepared c strict s.core e e₂ := by
  obtain ⟨hash, hhash, rfl⟩ := hashAndSignEvent_eq_ok c strict hsign
  -- the run has a last row, and its number is one less than the number of rows
  obtain ⟨l, row, hrows⟩ := (List.eq_nil_or_concat' s.core.rows).resolve_left hinv.nonempty
  have hlastRow : s.db.lastRow s.runID = some row := by
    have hlog : s.db.lastRow s.runID = s.core.rows.getLast? := DB.lastRow_of_isLog hinv.isLog
    rw [hlog, hrows, List.getLast?_concat]
  have hnum : row.seqIndex = l.length := View.IsLog.num_last (hrows ▸ hinv.isLog)
  have hne : row.currentHash ≠ [] := by
    have hsound := hinv.sound row (by rw [hrows]; exact List.mem_append_right _ (.head _))
    intro hnil
    have hlen := calculateEventHash_length c strict hsound.1
    rw [hnil] at hlen
    cases hlen
  have hsame : row.seqIndex = lastIndex ∧ row.currentHash = lastHash := by
    rcases getLastEvent_eq_ok strict hlast with ⟨hnone, -, -⟩ | ⟨row', hrow', hidx, hcur⟩
    · rw [hlastRow] at hnone
      cases hnone
    · rw [hlastRow] at hrow'
      cases hrow'
      exact ⟨hidx, hcur⟩
  unfold linkEvent at hlink
  split at hlink
  · obtain ⟨_, hck, -⟩ := bind_eq_ok.mp hlink
    rw [check_eq_ok, decide_eq_true_eq] at hck
    exact absurd (hsame.2.trans hck) hne
  · obtain ⟨-, -, hlink⟩ := bind_eq_ok.mp hlink
    obtain ⟨_, hgap, hlink⟩ := bind_eq_ok.mp hlink
    rw [check_eq_ok, decide_eq_true_eq] at hgap
    cases hlink
    have hcore : s.core.runID = e.runID := hrun.symm
    refine ⟨by rw [hcore]; rfl, ?_, Or.inr ⟨row, hlastRow, ?_, hsame.2⟩, hhash⟩
    · rw [hrows, List.length_append, List.length_singleton]
      show e.seqIndex = l.length + 1
      omega
    · show row.seqIndex + 1 = e.seqIndex
      omega

/-- A step leaves the rows alone, or adds the row of the event that it stores. -/
inductive RowsStep (env : Worker.HandleEnv) (s : State) (pc : ProcessPc) (s' : State) : Prop
  | unchanged (stored : stores strict env s pc = false) (db : s'.db = s.db)
  | stored {target : Target} {e : Event} {row : EventRow} (store : pc = .store target e)
    (stored : stores strict env s pc = true) (encoded : encodeEvent e = .ok row)
    (added : s.db.addEvent row = some s'.db)

/-- **What one step does**: it keeps what the event was given right, signs at most one event, and
adds at most one row. -/
theorem processStep_spec {signer : Signer} {runID : Bytes} {s : State} {pc : ProcessPc}
    (hinv : RunInv c strict signer runID s.core) (hfresh : Fresh c strict s.core pc)
    (env : Worker.HandleEnv) :
    RowsStep strict env s pc (processStep c strict env s pc).2 ∧
      (processStep c strict env s pc).2.signer = s.signer ∧
      (processStep c strict env s pc).2.runID = s.runID ∧
      Fresh c strict (processStep c strict env s pc).2.core (processStep c strict env s pc).1 := by
  have hcore : ∀ {s' : State}, s'.core = s.core → s'.db = s.db ∧ s'.signer = s.signer ∧
      s'.runID = s.runID := by
    intro s' h
    exact ⟨congrArg Core.db h, congrArg Core.signer h, congrArg Core.runID h⟩
  cases pc with
  | stats target e =>
    rw [processStep]
    cases (getRunStats strict (env.faultsFor target).runStats s.db s.runID).mapError
        (statsFault strict) with
    | error f =>
      obtain ⟨hdb, hsigner, hrun⟩ := hcore (persistFailed_core strict s target e f)
      exact ⟨.unchanged rfl hdb, hsigner, hrun, fresh_persistFailed c strict _ s target e f⟩
    | ok stats => exact ⟨.unchanged rfl rfl, rfl, rfl, rfl⟩
  | last target e =>
    rw [processStep]
    cases hlast : inContext (lit "getting last event")
        (getLastEvent strict (env.faultsFor target).lastEvent s.db s.runID) with
    | error f =>
      obtain ⟨hdb, hsigner, hrun⟩ := hcore (persistFailed_core strict s target e f)
      exact ⟨.unchanged rfl hdb, hsigner, hrun, fresh_persistFailed c strict _ s target e f⟩
    | ok last =>
      obtain ⟨lastIndex, lastHash⟩ := last
      dsimp only
      cases hlink : linkEvent strict e lastIndex lastHash with
      | error f =>
        obtain ⟨hdb, hsigner, hrun⟩ := hcore (persistFailed_core strict s target e f)
        exact ⟨.unchanged rfl hdb, hsigner, hrun, fresh_persistFailed c strict _ s target e f⟩
      | ok e₁ =>
        dsimp only
        cases hsign : hashAndSignEvent c strict s.signer e₁ with
        | error f =>
          obtain ⟨hdb, hsigner, hrun⟩ := hcore (persistFailed_core strict s target e₁ f)
          exact ⟨.unchanged rfl hdb, hsigner, hrun, fresh_persistFailed c strict _ s target e₁ f⟩
        | ok e₂ =>
          have hprep := prepared_of_linkEvent c strict hinv hfresh (inContext_eq_ok.mp hlast) hlink
            hsign
          exact ⟨.unchanged rfl rfl, rfl, rfl, e, hprep.fields, hprep.seq, hprep.link, hprep.hash⟩
  | store target e =>
    rw [processStep]
    rcases storeEvent_cases strict (env.faultsFor target).storeEvent s.db e with
      ⟨f, hst⟩ | ⟨row, db, henc, -, -, -, hadd, hst⟩
    · have hstored : stores strict env s (.store target e) = false := by rw [stores, hst]; rfl
      rw [hst]
      obtain ⟨hdb, hsigner, hrun⟩ := hcore (persistFailed_core strict s target e f)
      exact ⟨.unchanged hstored hdb, hsigner, hrun, fresh_persistFailed c strict _ s target e f⟩
    · have hstored : stores strict env s (.store target e) = true := by rw [stores, hst]; rfl
      rw [hst]
      have hdone := persistDone_core strict { s with db } e target
      refine ⟨.stored rfl hstored henc ?_, congrArg Core.signer hdone, congrArg Core.runID hdone,
        fresh_persistDone c strict _ { s with db } e target⟩
      rw [hadd]
      exact congrArg some (congrArg Core.db hdone).symm
  | track e =>
    rw [processStep]
    dsimp only
    split
    · exact ⟨.unchanged rfl rfl, rfl, rfl, trivial⟩
    · split <;> exact ⟨.unchanged rfl rfl, rfl, rfl, trivial⟩
  | ended result => exact ⟨.unchanged rfl rfl, rfl, rfl, trivial⟩

/-- **A step keeps the chain**, and a row that it adds is the next one of the run. -/
theorem RowsStep.runInv {signer : Signer} {runID : Bytes} {env : Worker.HandleEnv} {s s' : State}
    {pc : ProcessPc} (h : RowsStep strict env s pc s') (hinv : RunInv c strict signer runID s.core)
    (hfresh : Fresh c strict s.core pc) (hsigner : s'.signer = s.signer)
    (hrun : s'.runID = s.runID) :
    RunInv c strict signer runID s'.core ∧
      (stores strict env s pc = false ∧ s'.core.rows = s.core.rows ∨
        stores strict env s pc = true ∧ ∃ target e row, pc = .store target e ∧
          encodeEvent e = .ok row ∧ s'.core.rows = s.core.rows ++ [row]) := by
  cases h with
  | unchanged stored db =>
    have hrows : s'.core.rows = s.core.rows := by
      show s'.db.rowsOf s'.runID = s.db.rowsOf s.runID
      rw [db, hrun]
    refine ⟨⟨hsigner.trans hinv.signer_eq, hrun.trans hinv.runID_eq, ?_, ?_, ?_⟩,
      Or.inl ⟨stored, hrows⟩⟩
    · rw [hrows]
      exact hinv.nonempty
    · rw [hrows]
      exact hinv.isLog
    · rw [hrows]
      exact hinv.sound
  | @stored target e row hstore stored encoded added =>
    subst hstore
    obtain ⟨e₀, hprep⟩ := hfresh
    obtain ⟨hfollows, hsound, hrowRun⟩ := hprep.follows c strict encoded hinv.isLog
    obtain ⟨-, hevents, -⟩ := DB.addEvent_eq_some added
    have hrows : s'.core.rows = s.core.rows ++ [row] := by
      have happend := DB.rowsOf_append hevents
      rw [show row.runID = s.runID from hrowRun] at happend
      show s'.db.rowsOf s'.runID = s.db.rowsOf s.runID ++ [row]
      rw [hrun]
      exact happend
    have hstep : rowView.LogStep (RowSound c strict signer) s.core.rows s'.core.rows :=
      Or.inr ⟨row, hfollows, hinv.signer_eq ▸ hsound, hrows⟩
    obtain ⟨hlog, hall⟩ := hstep.isLog hinv.isLog hinv.sound
    have hne : s'.core.rows ≠ [] := by
      rw [hrows]
      simp
    exact ⟨⟨hsigner.trans hinv.signer_eq, hrun.trans hinv.runID_eq, hne, hlog, hall⟩,
      Or.inr ⟨stored, target, e, row, rfl, encoded, hrows⟩⟩

end Logryph
