import Logryph.AppendLog
import Logryph.AuditRun

/-!
# Reading a ledger that is being written

`VerifyChain` may be run at any time, by another process, while the worker goes on. It then sees
the rows that were stored by then. What it needs beyond the chain is that every row was written for
an event whose time can be read back, so we follow what is known of the events from `Submit` to the
store.

* `Pipeline.Supplied` — a property of all events that get into the pipeline
* `DB.Grew` — the store has the rows that it had, and further ones of events with the property
* `Pipeline.Carries.step` — the step lemma
* `verify_while_recording` — the ledger verifies at every point of a run, and what was read before
  is a part of what is read later
-/

namespace Logryph

open Infra

/-! ## The events of a step -/

/-- The event that a `ProcessEvent` has in hand. -/
def ProcessPc.event : ProcessPc → Option Event
  | stats _ e => some e
  | last _ e => some e
  | store _ e => some e
  | track e => some e
  | ended _ => none

/-- The property says nothing about what `persistEvent` fills in. -/
def Unnumbered (P : Event → Prop) : Prop := ∀ {e e'}, Numbered e e' → P e → P e'

/-- What a call may complete a task with has the property. -/
def Worker.HandleEnv.Supplied (P : Event → Prop) (env : Worker.HandleEnv) : Prop :=
  ∀ taskID state e, P (completionEvent env.completion taskID state e)

section

variable {c : Crypto} {strict : Bool} {P : Event → Prop}

theorem event_persistFailed (s : State) (target : Target) (e : Event) (f : Fault) :
    (persistFailed strict s target e f).1.event = none := by
  obtain ⟨result, h⟩ := persistFailed_ended strict s target e f
  rw [h]
  rfl

theorem event_persistDone {s : State} {e : Event} {target : Target} :
    ∀ x ∈ (persistDone strict s e target).1.event, x = e := by
  intro x hx
  cases target with
  | main =>
    rw [persistDone] at hx
    split at hx
    · exact (Option.mem_some_iff.mp hx).symm
    · cases hx
  | completion main =>
    obtain ⟨result, h⟩ := completed_ended main (s.putEvent strict e)
    rw [persistDone, h] at hx
    cases hx

/-- Every event of a `ProcessEvent` is the one that it was given, or completes a task. -/
theorem ProcessPc.event_step (hP : Unnumbered P) {env : Worker.HandleEnv} (henv : env.Supplied P)
    {s : State} {pc : ProcessPc} (h : ∀ e ∈ pc.event, P e) :
    ∀ e ∈ (processStep c strict env s pc).1.event, P e := by
  intro x hx
  cases pc with
  | stats target e =>
    rw [processStep] at hx
    split at hx
    · rw [event_persistFailed] at hx
      cases hx
    · cases hx
      exact hP ⟨_, _, _, _, _, rfl⟩ (h e rfl)
  | last target e =>
    rw [processStep] at hx
    split at hx
    · rw [event_persistFailed] at hx
      cases hx
    · split at hx
      · rw [event_persistFailed] at hx
        cases hx
      · next e₁ hlink =>
        split at hx
        · rw [event_persistFailed] at hx
          cases hx
        · next e₂ hsign =>
          cases hx
          obtain ⟨hash, -, rfl⟩ := hashAndSignEvent_eq_ok c strict hsign
          have hlinked : Numbered e e₁ := ⟨_, _, _, _, _, linkEvent_fields strict hlink⟩
          exact hP (hlinked.trans ⟨_, _, _, _, _, rfl⟩) (h e rfl)
  | store target e =>
    rw [processStep] at hx
    split at hx
    · rw [event_persistFailed] at hx
      cases hx
    · rw [event_persistDone x hx]
      exact h e rfl
  | track e =>
    rw [processStep] at hx
    dsimp only at hx
    split at hx
    · cases hx
      exact henv _ _ _
    · split at hx <;> cases hx
  | ended result => cases hx

end

/-! ## The rows -/

/-- The store has grown by the rows of events with the property. -/
structure DB.Grew (P : Event → Prop) (base db : DB) : Prop where
  runs : db.runs = base.runs
  events : ∃ added, db.events = base.events ++ added ∧
    ∀ row ∈ added, ∃ e, P e ∧ encodeEvent e = .ok row

theorem DB.grew_refl (P : Event → Prop) (db : DB) : DB.Grew P db db :=
  ⟨rfl, [], (List.append_nil _).symm, List.forall_mem_nil _⟩

/-- One more row. -/
theorem DB.Grew.add {P : Event → Prop} {base db db' : DB} {e : Event} {row : EventRow}
    (h : DB.Grew P base db) (he : P e) (henc : encodeEvent e = .ok row)
    (hadd : db.addEvent row = some db') : DB.Grew P base db' := by
  obtain ⟨hruns, added, hevents, hadded⟩ := h
  obtain ⟨-, happend, hsame⟩ := DB.addEvent_eq_some hadd
  refine ⟨hsame.trans hruns, added ++ [row], by rw [happend, hevents, List.append_assoc],
    fun x hx => ?_⟩
  rcases List.mem_append.mp hx with hx | hx
  · exact hadded x hx
  · rw [List.mem_singleton.mp hx]
    exact ⟨e, he, henc⟩

theorem DB.Grew.isPrefix_rowsOf {P : Event → Prop} {base db : DB} (h : DB.Grew P base db)
    (runID : Bytes) : base.rowsOf runID <+: db.rowsOf runID := by
  obtain ⟨-, added, hevents, -⟩ := h
  rw [DB.rowsOf, DB.rowsOf, hevents, List.filter_append]
  exact List.prefix_append _ _

/-- A row of the store was there before, or belongs to an event with the property. -/
theorem DB.Grew.mem_cases {P : Event → Prop} {base db : DB} (h : DB.Grew P base db) {runID : Bytes}
    {row : EventRow} (hrow : row ∈ db.rowsOf runID) :
    row ∈ base.rowsOf runID ∨ ∃ e, P e ∧ encodeEvent e = .ok row := by
  obtain ⟨-, added, hevents, hadded⟩ := h
  rw [DB.rowsOf, hevents, List.filter_append, List.mem_append] at hrow
  exact hrow.imp_right fun hrow => hadded row (List.mem_of_mem_filter hrow)

/-! ## The system -/

section

variable {c : Crypto} {strict : Bool} {P : Event → Prop} {base : DB} {env : Worker.HandleEnv}
  {m m' : Memory} {q q' : List Event} {signer : Signer} {runID : Bytes}

/-- What a loop takes from the buffer, and what it stores. -/
theorem LoopStep.carries {pc pc' : LoopPc} (h : LoopStep c strict env m q pc m' pc' q')
    (hP : Unnumbered P) (henv : env.Supplied P)
    (hinv : RunInv c strict signer runID m.worker.state.core)
    (hfresh : ∀ x ∈ pc.processing, Fresh c strict m.worker.state.core x) (hq : ∀ e ∈ q, P e)
    (hhand : ∀ x ∈ pc.processing, ∀ e ∈ x.event, P e)
    (hgrew : DB.Grew P base m.worker.state.db) :
    (∀ e ∈ q', P e) ∧ (∀ x ∈ pc'.processing, ∀ e ∈ x.event, P e) ∧
      DB.Grew P base m'.worker.state.db := by
  cases h with
  | take first =>
    rw [first, List.forall_mem_cons] at hq
    refine ⟨hq.2, fun x hx e he => ?_, hgrew⟩
    cases hx
    cases he
    exact hq.1
  | @process j item pc going =>
    obtain ⟨hrows, -⟩ := processStep_spec c strict hinv (hfresh pc rfl) env
    refine ⟨hq, fun x hx => ?_, ?_⟩
    · cases hx
      exact ProcessPc.event_step hP henv (hhand pc rfl)
    · cases hrows with
      | unchanged stored db =>
        rw [← db] at hgrew
        exact hgrew
      | @stored target e row store stored encoded added =>
        subst store
        exact hgrew.add (hhand _ rfl e rfl) encoded added
  | _ => exact ⟨hq, fun x hx => (by cases hx), hgrew⟩

theorem ConsumerStep.carries {pc pc' : ConsumerPc} (h : ConsumerStep c strict env m q pc m' pc' q')
    (hP : Unnumbered P) (henv : env.Supplied P)
    (hinv : RunInv c strict signer runID m.worker.state.core)
    (hfresh : ∀ x ∈ pc.processing, Fresh c strict m.worker.state.core x) (hq : ∀ e ∈ q, P e)
    (hhand : ∀ x ∈ pc.processing, ∀ e ∈ x.event, P e)
    (hgrew : DB.Grew P base m.worker.state.db) :
    (∀ e ∈ q', P e) ∧ (∀ x ∈ pc'.processing, ∀ e ∈ x.event, P e) ∧
      DB.Grew P base m'.worker.state.db := by
  cases h with
  | loop step going => exact step.carries hP henv hinv hfresh hq hhand hgrew
  | leave step => exact step.carries hP henv hinv hfresh hq hhand hgrew
  | _ => exact ⟨hq, fun x hx => (by cases hx), hgrew⟩

theorem ShutdownStep.carries {goOn : Bool} {pc pc' : ShutdownPc}
    (h : ShutdownStep c strict env goOn m q pc m' pc' q') (hP : Unnumbered P)
    (henv : env.Supplied P) (hinv : RunInv c strict signer runID m.worker.state.core)
    (hfresh : ∀ x ∈ pc.processing, Fresh c strict m.worker.state.core x) (hq : ∀ e ∈ q, P e)
    (hhand : ∀ x ∈ pc.processing, ∀ e ∈ x.event, P e)
    (hgrew : DB.Grew P base m.worker.state.db) :
    (∀ e ∈ q', P e) ∧ (∀ x ∈ pc'.processing, ∀ e ∈ x.event, P e) ∧
      DB.Grew P base m'.worker.state.db := by
  cases h with
  | loop step going => exact step.carries hP henv hinv hfresh hq hhand hgrew
  | leave step => exact step.carries hP henv hinv hfresh hq hhand hgrew
  | _ => exact ⟨hq, fun x hx => (by cases hx), hgrew⟩

/-- `Submit` pushes its own event only. -/
theorem SubmitStep.mem_queue {e x : Event} {pc pc' : SubmitPc}
    (h : SubmitStep m e q pc m' pc' q') (hx : x ∈ q') : x ∈ q ∨ x = e := by
  cases h with
  | push room =>
    rcases List.mem_append.mp hx with hx | hx
    · exact Or.inl hx
    · exact Or.inr (List.mem_singleton.mp hx)
  | _ => exact Or.inl hx

end

namespace Pipeline

/-- The events that an action brings in have the property. -/
def Action.Supplied (P : Event → Prop) : Action → Prop
  | .submit e => P e
  | .tick event => ∀ e ∈ event, P e
  | .consume env => env.Supplied P
  | .shutdown env _ => env.Supplied P
  | _ => True

variable {c : Crypto} {strict : Bool} {P : Event → Prop} {base : DB} {signer : Signer}
  {runID : Bytes}

/-- The property holds of all events in the pipeline, and of those that were stored since. -/
structure Carries (P : Event → Prop) (base : DB) (p : Pipeline) (q : List Event) : Prop where
  submits : ∀ call ∈ p.submits, P call.event
  queue : ∀ e ∈ q, P e
  consumer : ∀ pc ∈ p.consumer.processing, ∀ e ∈ pc.event, P e
  shutdown : ∀ pc ∈ p.shutdown.processing, ∀ e ∈ pc.event, P e
  grew : DB.Grew P base p.memory.worker.state.db

/-- **The step lemma.** -/
theorem Carries.step {p p' : Pipeline} {a : Action} {q q' : List Event} (h : p.Carries P base q)
    (hP : Unnumbered P) (hsupplied : a.Supplied P) (hlinked : p.Linked c strict signer runID q)
    (hstep : Step c strict p q a p' q') : p'.Carries P base q' := by
  cases hstep with
  | submit =>
    refine ⟨fun call hcall => ?_, h.queue, h.consumer, h.shutdown, h.grew⟩
    rcases List.mem_append.mp hcall with hcall | hcall
    · exact h.submits call hcall
    · rw [List.mem_singleton.mp hcall]
      exact hsupplied
  | @next i event anchor pc pc' memory q' call step =>
    have hevent : P event := h.submits _ (List.mem_of_getElem? call)
    refine ⟨fun x hx => ?_, fun x hx => ?_, h.consumer, h.shutdown, ?_⟩
    · rcases List.mem_or_eq_of_mem_set hx with hx | rfl
      · exact h.submits x hx
      · exact hevent
    · rcases step.mem_queue hx with hx | rfl
      · exact h.queue x hx
      · exact hevent
    · have hgrew := h.grew
      rwa [← step.state] at hgrew
  | consume before step =>
    subst before
    obtain ⟨hq, hhand, hgrew⟩ :=
      step.carries hP hsupplied hlinked.chain hlinked.consumer h.queue h.consumer h.grew
    exact ⟨h.submits, hq, hhand, h.shutdown, hgrew⟩
  | @tick i event running free =>
    refine ⟨fun call hcall => ?_, h.queue, h.consumer, h.shutdown, h.grew⟩
    rcases List.mem_append.mp hcall with hcall | hcall
    · exact h.submits call hcall
    · obtain ⟨e, he, rfl⟩ := Option.map_eq_some_iff.mp (Option.mem_toList.mp hcall)
      exact hsupplied e he
  | quit free => exact ⟨h.submits, h.queue, h.consumer, h.shutdown, h.grew⟩
  | shutdown before step =>
    subst before
    obtain ⟨hq, hhand, hgrew⟩ :=
      step.carries hP hsupplied hlinked.chain hlinked.shutdown h.queue h.shutdown h.grew
    exact ⟨h.submits, hq, h.consumer, hhand, hgrew⟩

/-- The invariant of a run in which no loop comes in the way of the other. -/
structure Recording (c : Crypto) (strict : Bool) (signer : Signer) (runID : Bytes)
    (P : Event → Prop) (base : DB) (p : Pipeline) (q : List Event) : Prop where
  linked : p.Linked c strict signer runID q
  carries : p.Carries P base q

theorem Recording.next (hP : Unnumbered P) {a : Action} {p p' : Pipeline} {q : List Event}
    (h : Recording c strict signer runID P base p q) (halone : p.storesAlone strict a = true)
    (hsupplied : a.Supplied P) (hstep : p.step c strict a = some p') :
    ∃ q', Recording c strict signer runID P base p' q' := by
  obtain ⟨q', hcases, hholds, -⟩ := step_cases c strict h.linked.holds hstep
  exact ⟨q', h.linked.step c strict halone hcases hholds,
    h.carries.step hP hsupplied h.linked hcases⟩

/-- **The run lemma.** -/
theorem Recording.run (hP : Unnumbered P) {actions : List Action} {p p' : Pipeline}
    {q : List Event} (h : Recording c strict signer runID P base p q)
    (hok : along (step c strict) (storesAlone strict) p actions = true)
    (hsupplied : ∀ a ∈ actions, a.Supplied P)
    (hrun : runSteps (step c strict) p actions = some p') :
    ∃ q', Recording c strict signer runID P base p' q' := by
  refine runSteps_inv_on (fun p => ∃ q, Recording c strict signer runID P base p q) ?_ ⟨q, h⟩ hok
    hsupplied hrun
  rintro p a p' ⟨q, hq⟩ halone hsupplied hstep
  exact hq.next hP halone hsupplied hstep

/-- Whatever the store holds is a new base. -/
theorem Recording.rebase {p : Pipeline} {q : List Event}
    (h : Recording c strict signer runID P base p q) :
    Recording c strict signer runID P p.memory.worker.state.db p q :=
  ⟨h.linked, { h.carries with grew := DB.grew_refl P _ }⟩

/-- The run starts with the genesis row. -/
theorem recording_initial {env : GenesisEnv} {pool : List Event} {agentName : Bytes} {s : State}
    (hgen : createGenesisBlock c strict env (initialState signer pool) agentName = (.ok runID, s))
    {zero : Event} {capacity : Int} {ringBuffer : Buffer Event}
    (hnew : Buffer.new strict zero capacity = .ok ringBuffer) (mode : BackpressureMode) :
    Recording c strict signer runID P s.db
      (initial ringBuffer (newEventProcessor s runID) mode) [] where
  linked := linked_initial c strict hgen hnew mode
  carries := ⟨List.forall_mem_nil _, List.forall_mem_nil _, fun x hx => (by cases hx),
    fun x hx => (by cases hx), DB.grew_refl P _⟩

/-- All rows of the run pass, at any point of it. -/
theorem Recording.rowsPass {p : Pipeline} {q : List Event}
    (h : Recording c strict signer runID (fun e => e.timestamp.Representable) base p q)
    (hown : ∀ m, c.verify signer.publicKey m (c.sign signer.privateKey m) = true)
    (hbase : ∀ row ∈ base.rowsOf runID, TimestampOk row) :
    RowsPass c strict signer (p.rows runID) := by
  have hne := h.linked.chain.nonempty
  have hlog := h.linked.chain.isLog
  have hsound := h.linked.chain.sound
  rw [h.linked.chain.rows_eq] at hne hlog hsound
  rw [rows, DB.orderedRows_of_isLog hlog]
  refine rowsPass_of_isLog c strict hown hne hlog hsound fun row hrow => ?_
  rcases h.carries.grew.mem_cases hrow with hrow | ⟨e, he, henc⟩
  · exact hbase row hrow
  · exact timestampOk_of_encodeEvent henc he

theorem unnumbered_representable : Unnumbered fun e => e.timestamp.Representable := by
  rintro e e' ⟨_, _, _, _, _, rfl⟩ h
  exact h

/-- **The ledger verifies while it is being written.** Take any run of the worker in which no loop
stores an event between the `GetLastEvent` and the `StoreEvent` of the other (before `Shutdown`
that is every run), and two points of it. At the first one `VerifyChain` accepts the store as it is
then, and counts every row up to its limit. The events that are read there are the first ones of
those that are read later: none is changed, removed or put in between. -/
theorem verify_while_recording {env : GenesisEnv} {pool : List Event} {agentName : Bytes}
    {s : State} (hown : ∀ m, c.verify signer.publicKey m (c.sign signer.privateKey m) = true)
    (hgen : createGenesisBlock c strict env (initialState signer pool) agentName = (.ok runID, s))
    {zero : Event} {capacity : Int} {ringBuffer : Buffer Event}
    (hnew : Buffer.new strict zero capacity = .ok ringBuffer) (mode : BackpressureMode)
    {before after : List Action} {p p' : Pipeline} (hnow : env.now.Representable)
    (htimes : ∀ a ∈ before ++ after, a.Supplied fun e => e.timestamp.Representable)
    (hok : along (step c strict) (storesAlone strict)
      (initial ringBuffer (newEventProcessor s runID) mode) (before ++ after) = true)
    (hrun : runSteps (step c strict) (initial ringBuffer (newEventProcessor s runID) mode) before
      = some p) (hrun' : runSteps (step c strict) p after = some p') :
    verifyChain c strict (getAllEvents strict {} p.memory.worker.state.db) runID signer
        = .ok { valid := true, totalEvents := min maxEventRows (p.rows runID).length } ∧
      ∃ seen seen', getAllEvents strict {} p.memory.worker.state.db runID = .ok seen ∧
        getAllEvents strict {} p'.memory.worker.state.db runID = .ok seen' ∧ seen <+: seen' := by
  obtain ⟨-, -, -, -, -, -, hrunID⟩ := createGenesisBlock_eq_ok c strict hgen rfl
  obtain ⟨hbefore, hafter⟩ := (along_append hrun).mp hok
  rw [List.forall_mem_append] at htimes
  obtain ⟨q, hrec⟩ := (recording_initial hgen hnew mode).run unnumbered_representable hbefore
    htimes.1 hrun
  obtain ⟨q', hrec'⟩ := hrec.run unnumbered_representable hafter htimes.2 hrun'
  obtain ⟨_, hlater⟩ := hrec.rebase.run unnumbered_representable hafter htimes.2 hrun'
  -- the genesis row is there from the start
  have hbase : ∀ row ∈ s.db.rowsOf runID, TimestampOk row := by
    have hsigned := signedInv_of_genesis c strict hgen fun e he => he ▸ hnow
    intro row hrow
    obtain ⟨e, -, -, htime⟩ := hsigned.exists_signed c strict hrow
    exact htime
  have hpass := hrec.rowsPass hown hbase
  have hpass' := hrec'.rowsPass hown hbase
  have hmax : 0 < maxEventRows := by decide
  refine ⟨?_, ?_⟩
  · refine ((verifyChain_store c strict).mpr ⟨hrunID, rfl, hpass.take c strict hmax, ?_⟩).1
    rw [rows, DB.orderedRows, List.length_insertionSort]
  · have hgrown : p.rows runID <+: p'.rows runID := by
      have hlog := hrec.linked.chain.isLog
      have hlog' := hrec'.linked.chain.isLog
      rw [hrec.linked.chain.rows_eq] at hlog
      rw [hrec'.linked.chain.rows_eq] at hlog'
      rw [rows, rows, DB.orderedRows_of_isLog hlog, DB.orderedRows_of_isLog hlog']
      exact hlater.carries.grew.isPrefix_rowsOf runID
    obtain ⟨seen', hscan', -⟩ := (hpass'.take c strict hmax).verified c strict
      (List.length_take_le _ _)
    obtain ⟨seen, hscan, hseen⟩ := exists_forall₂_of_isPrefix hscan' (hgrown.take maxEventRows)
    exact ⟨seen, seen', (getAllEvents_eq_ok strict).mpr ⟨hrunID, rfl, rfl, rfl, hscan⟩,
      (getAllEvents_eq_ok strict).mpr ⟨hrunID, rfl, rfl, rfl, hscan'⟩, hseen⟩

/-- The call is stored, and the response is in hand. -/
def halfRun : List Action := submitPair ++ List.replicate 9 (.consume completingEnv)

def otherHalf : List Action := List.replicate 9 (.consume completingEnv)

theorem supplied_halves : ∀ a ∈ halfRun ++ otherHalf,
    a.Supplied fun e => e.timestamp.Representable := by
  have hconsume : (Action.consume completingEnv).Supplied fun e => e.timestamp.Representable := by
    intro taskID state e
    show completingEnv.completion.now.Representable
    decide
  have hcall : recordedCall.timestamp.Representable := by decide
  have hresponse : recordedResponse.timestamp.Representable := by decide
  intro a ha
  simp only [halfRun, otherHalf, submitPair, List.mem_append, List.mem_cons, List.mem_replicate]
    at ha
  rcases ha with ((((rfl | ⟨-, rfl⟩) | rfl | ⟨-, rfl⟩) | ⟨-, rfl⟩) | ⟨-, rfl⟩)
  exacts [hcall, trivial, hresponse, trivial, hconsume, hconsume]

theorem verify_while_recording_halves : ∃ p p',
    runSteps (step recordedCrypto true) (recordedPipeline pairBuffer recordedGenesis) halfRun
      = some p ∧ runSteps (step recordedCrypto true) p otherHalf = some p' ∧
    (p.rows (lit "run-1")).length = 2 ∧ (p'.rows (lit "run-1")).length = 4 ∧
    verifyChain recordedCrypto true (getAllEvents true {} p.memory.worker.state.db) (lit "run-1")
      recordedSigner = .ok { valid := true, totalEvents := 2 } ∧
    ∃ seen seen', getAllEvents true {} p.memory.worker.state.db (lit "run-1") = .ok seen ∧
      getAllEvents true {} p'.memory.worker.state.db (lit "run-1") = .ok seen' ∧
      seen <+: seen' := by
  have hfacts : (runAlong (step recordedCrypto true) (storesAlone true)
      (recordedPipeline pairBuffer recordedGenesis) halfRun).any (fun p =>
        decide ((p.rows (lit "run-1")).length = 2) &&
          (runAlong (step recordedCrypto true) (storesAlone true) p otherHalf).any
            fun p' => (p'.rows (lit "run-1")).length = 4) = true := by decide +kernel
  obtain ⟨p, hok, hp, hfacts⟩ := exists_of_runAlong hfacts
  rw [Bool.and_eq_true, decide_eq_true_eq] at hfacts
  obtain ⟨p', hok', hp', hrows'⟩ := exists_of_runAlong hfacts.2
  have h := @verify_while_recording recordedCrypto true recordedSigner (lit "run-1") recordedEnv []
    (lit "agent") recordedGenesis recordedSigner_own createGenesisBlock_recorded {} 2 pairBuffer rfl
    .drop halfRun otherHalf p p' (by decide) supplied_halves ((along_append hp).mpr ⟨hok, hok'⟩) hp
    hp'
  rw [hfacts.1] at h
  exact ⟨p, p', hp, hp', hfacts.1, of_decide_eq_true hrows', h⟩

end Pipeline

end Logryph
