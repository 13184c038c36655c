import Logryph.LedgerOk

/-!
# Starting a worker

`Start` looks for a run in the store. It creates one if there is none, and goes on with the most
recent one otherwise. A process can stop at any time, and be started again on the same store.

Creating a run takes two writes, of the run and of its genesis event, and the next `Start` looks at
the first of them only.

* `createGenesisBlock_writes` — what the two writes leave behind
* `Recorder.Inv.step` — every step keeps the genesis event of every run, as long as no run is
  inserted without its event
* `runs_start_with_genesis` — so in every store that is reached each run starts with its genesis
-/

namespace Logryph

open Infra Relation

variable (c : Crypto) (strict : Bool)

/-! ## Start -/

/-- What a `Start` takes from outside. -/
structure StartEnv where
  hasRuns : Option Fault := none
  getRunID : Option Fault := none
  latest : Nat := 0
  genesis : GenesisEnv

/-- `Start`, up to the goroutines. -/
def start (env : StartEnv) (s : State) : Except Fault Unit × State :=
  match hasRuns env.hasRuns s.db with
  | .error f => (.error (f.wrap (lit "checking for existing runs")), s)
  | .ok false =>
    match createGenesisBlock c strict env.genesis s (lit "Logryph-Agent") with
    | (.error f, s) => (.error (f.wrap (lit "creating genesis block")), s)
    | (.ok runID, s) => (.ok (), newEventProcessor s runID)
  | .ok true =>
    match getRunID env.getRunID env.latest s.db with
    | .error f => (.error (f.wrap (lit "loading run ID")), s)
    | .ok runID => (.ok (), newEventProcessor s runID)

/-- A process that may have a running worker. -/
structure Recorder where
  state : State
  running : Bool := false

/-- What happens to a store. A process that stops during a call is a call that fails there, and
then a `stop`: the memory is lost, and the next process may have another key. -/
inductive StartAction where
  | start (env : StartEnv)
  | process (call : Call)
  | stop (signer : Signer) (pool : List Event)

/-- Whether the process goes on after a call. -/
def survives (running : Bool) : Except Fault Unit → Bool
  | .ok () => true
  | .error (.error _) => running
  | .error (.panic _) => false

namespace Recorder

def step (r : Recorder) : StartAction → Recorder
  | .start env =>
    let (res, state) := Logryph.start c strict env r.state
    { state, running := survives r.running res }
  | .process call =>
    if r.running then
      let (res, state) := processEvent c strict r.state call
      { state, running := survives r.running res }
    else r
  | .stop signer pool =>
    { state := { r.state with signer, pool, runID := [], taskStates := SortedMap.empty }
      running := false }

def run (r : Recorder) (actions : List StartAction) : Recorder := actions.foldl (step c strict) r

theorem step_start (r : Recorder) (env : StartEnv) : r.step c strict (.start env)
    = ⟨(Logryph.start c strict env r.state).2,
      survives r.running (Logryph.start c strict env r.state).1⟩ := rfl

theorem step_process {r : Recorder} (h : r.running = true) (call : Call) :
    r.step c strict (.process call) = ⟨(processEvent c strict r.state call).2,
      survives r.running (processEvent c strict r.state call).1⟩ := if_pos h

/-- A process that was not started, on an empty store. -/
def initial (signer : Signer) (pool : List Event) : Recorder :=
  { state := initialState signer pool }

end Recorder

/-! ## The writes -/

/-- Persist steps write rows of their own run. -/
theorem writes_of_steps {P : Event → Prop} {s s' : Core}
    (h : ReflTransGen (PersistStep c strict P) s s') :
    (∃ rows, s'.db.events = s.db.events ++ rows ∧ ∀ row ∈ rows, row.runID = s.runID) ∧
      s'.db.runs = s.db.runs ∧ s'.runID = s.runID := by
  induction h with
  | refl => exact ⟨⟨[], (List.append_nil _).symm, List.forall_mem_nil _⟩, rfl, rfl⟩
  | tail _ hstep ih =>
    obtain ⟨⟨rows, hevents, hrows⟩, hruns, hrun⟩ := ih
    obtain ⟨e, -, hpersist⟩ := hstep
    cases hpersist with
    | unstored _ => exact ⟨⟨rows, hevents, hrows⟩, hruns, hrun⟩
    | @stored e' row db hprep henc hadd =>
      obtain ⟨-, hadded, hsame⟩ := DB.addEvent_eq_some hadd
      obtain ⟨_, _, -, -, hrow⟩ := encodeEvent_eq_ok henc
      refine ⟨⟨rows ++ [row], ?_, fun r hr => ?_⟩, hsame.trans hruns, hrun⟩
      · rw [hadded, hevents, List.append_assoc]
      · rcases List.mem_append.mp hr with hr | hr
        · exact hrows r hr
        · rw [List.mem_singleton.mp hr, hrow, hprep.fields]
          exact hrun

/-- A `PutEvent` that fails panics. -/
theorem State.putEvent_error {s s' : State} {e : Event} {f : Fault}
    (h : s.putEvent strict e = (.error f, s')) : ∃ msg, f = .panic msg := by
  unfold State.putEvent at h
  rcases putEvent_cases strict s.pool e with ⟨-, -, hput⟩ | ⟨hlarge, -⟩
  · rw [hput] at h
    cases h
  · cases strict with
    | true =>
      obtain ⟨msg, hput⟩ := putEvent_panics s.pool (e := e) fun hfits => by
        rcases hlarge with hl | hl
        · exact absurd hfits.1 (not_le.mpr hl)
        · exact absurd hfits.2 (not_le.mpr hl)
      rw [hput] at h
      cases h
      exact ⟨msg, rfl⟩
    | false =>
      rcases putEvent_cases false s.pool e with ⟨-, -, hput⟩ | ⟨-, r, hput, hr⟩
      · rw [hput] at h
        cases h
      · rw [hput, hr.mpr rfl] at h
        cases h

/-- A run that was inserted has an id. -/
theorem insertRun_id_ne_nil {fault : Option Fault} {db db' : DB} {id agent hash key : Bytes}
    (h : insertRun strict fault db id agent hash key = (.ok (), db')) : id ≠ [] := by
  rintro rfl
  cases h

/-- Whatever was hashed can be stored. -/
theorem storable_of_hash {e : Event} {hash : Bytes} (hid : e.id ≠ [])
    (h : calculateEventHash c strict e.prevHash e.payload = .ok hash) : Storable e := by
  obtain ⟨-, -, x, hx, -⟩ := (calculateEventHash_eq_ok c strict).mp h
  obtain ⟨w, hw⟩ := exists_normalForm hx
  obtain ⟨_, p, r, -, hp, hr, -⟩ := normalForm_payload.mp hw
  exact ⟨hid, ⟨p, hp⟩, r, hr⟩

/-- The two writes of a genesis event: none of them, both, or the run alone, which takes a failure
of the second. -/
theorem insertGenesis_writes {env : GenesisEnv} {s : State} {agentName : Bytes} {e : Event}
    (hrun : e.runID = env.runID) (hseq : e.seqIndex = 0) :
    ((∃ f, (insertGenesis c strict env agentName s e).1 = .error f) ∧
      (insertGenesis c strict env agentName s e).2.db = s.db) ∨
    ∃ run : RunRow, run.id = env.runID ∧
      (insertGenesis c strict env agentName s e).2.db.runs = s.db.runs ++ [run] ∧
      ((∃ row, (insertGenesis c strict env agentName s e).2.db.events = s.db.events ++ [row] ∧
          row.runID = env.runID ∧ row.seqIndex = 0 ∧ row.eventType = e.eventType ∧
          row.currentHash = run.genesisHash ∧
          (insertGenesis c strict env agentName s e).1 = .ok env.runID) ∨
        (env.storeEvent ≠ none ∨ e.id = [] ∨ e.id ∈ s.db.events.map EventRow.id) ∧
          (∃ f, (insertGenesis c strict env agentName s e).1 = .error f) ∧
          (insertGenesis c strict env agentName s e).2.db.events = s.db.events) := by
  unfold insertGenesis
  cases hcalc : calculateEventHash c strict e.prevHash e.payload with
  | error f => exact Or.inl ⟨⟨_, rfl⟩, rfl⟩
  | ok hash =>
    dsimp only [inContext]
    rcases insertRun_cases strict env.insertRun s.db env.runID agentName hash
      s.signer.getPublicKey with ⟨f, hir⟩ | ⟨db, haddRun, hir⟩
    · rw [hir]
      exact Or.inl ⟨⟨_, rfl⟩, rfl⟩
    · rw [hir]
      dsimp only
      obtain ⟨hruns, hevents⟩ := DB.addRun_eq_some haddRun
      refine Or.inr ⟨⟨env.runID, agentName, hash, s.signer.getPublicKey⟩, rfl, ?_⟩
      rcases storeEvent_cases strict env.storeEvent db (e.signedWith c s.signer hash) with
        ⟨f, hst⟩ | ⟨row, db', henc, -, -, -, hadd, hst⟩
      · rw [hst]
        refine ⟨hruns, Or.inr ⟨?_, ⟨_, rfl⟩, hevents⟩⟩
        -- nothing else keeps an event that was hashed from being stored
        by_contra hnone
        rw [not_or, not_or, not_not] at hnone
        obtain ⟨hfault, hid, hfresh⟩ := hnone
        have hstorable := storable_of_hash c strict hid hcalc
        have hne : hash ≠ [] := by
          intro hnil
          have := calculateEventHash_length c strict hcalc
          rw [hnil] at this
          cases this
        obtain ⟨row, db', -, -, hok⟩ := storeEvent_ok strict db
          (e := e.signedWith c s.signer hash)
          ⟨hstorable.id, hstorable.params, hstorable.response⟩
          (show e.runID ≠ [] by rw [hrun]; exact insertRun_id_ne_nil strict hir) hne
          (s.signer.signHash_ne_nil c hash)
          (show e.seqIndex < 2 ^ 63 by rw [hseq]; decide)
          (show e.id ∉ db.events.map EventRow.id by rw [hevents]; exact hfresh)
        rw [hfault, hok] at hst
        cases hst
      · rw [hst]
        obtain ⟨-, hadded, hsame⟩ := DB.addEvent_eq_some hadd
        obtain ⟨_, _, -, -, hrow⟩ := encodeEvent_eq_ok henc
        refine ⟨hsame.trans hruns,
          Or.inl ⟨row, hadded.trans (by rw [hevents]), ?_, ?_, ?_, ?_, rfl⟩⟩
        · rw [hrow]
          exact hrun
        · rw [hrow]
          exact congrArg Int.ofNat hseq
        · rw [hrow]
          rfl
        · rw [hrow]
          rfl

/-- The deferred `PutEvent` writes nothing, and lets the result through unless it panics. -/
theorem createGenesisBlock_deferred (env : GenesisEnv) (s : State) (agentName : Bytes) :
    ∃ e r s₁, fillGenesis c strict env agentName { s with pool := (getEvent env.pick s.pool).2 }
        (getEvent env.pick s.pool).1 = (e, r, s₁) ∧
      (createGenesisBlock c strict env s agentName).2.db = s₁.db ∧
      ((createGenesisBlock c strict env s agentName).1 = r ∨
        ∃ msg, (createGenesisBlock c strict env s agentName).1 = .error (.panic msg)) := by
  generalize hfill : fillGenesis c strict env agentName
    { s with pool := (getEvent env.pick s.pool).2 } (getEvent env.pick s.pool).1 = filled
  obtain ⟨e, r, s₁⟩ := filled
  refine ⟨e, r, s₁, rfl, ?_⟩
  unfold createGenesisBlock
  dsimp only
  rw [hfill]
  dsimp only
  have hdb : (s₁.putEvent strict e).2.db = s₁.db := rfl
  cases hput : s₁.putEvent strict e with
  | mk q s₂ =>
    rw [hput] at hdb
    cases q with
    | error f =>
      obtain ⟨msg, rfl⟩ := State.putEvent_error strict hput
      exact ⟨hdb, Or.inr ⟨msg, rfl⟩⟩
    | ok u => exact ⟨hdb, Or.inl rfl⟩

/-- **What `CreateGenesisBlock` writes**: nothing, the run with its genesis event, or the run alone.
Only in the second case it can succeed, and only then it cannot return an error. -/
theorem createGenesisBlock_writes (env : GenesisEnv) (s : State) (agentName : Bytes) :
    ((∃ f, (createGenesisBlock c strict env s agentName).1 = .error f) ∧
      (createGenesisBlock c strict env s agentName).2.db = s.db) ∨
    ∃ run : RunRow, run.id = env.runID ∧
      (createGenesisBlock c strict env s agentName).2.db.runs = s.db.runs ++ [run] ∧
      ((∃ row, (createGenesisBlock c strict env s agentName).2.db.events = s.db.events ++ [row] ∧
          row.runID = env.runID ∧ row.seqIndex = 0 ∧ row.eventType = lit "genesis" ∧
          row.currentHash = run.genesisHash ∧
          ((createGenesisBlock c strict env s agentName).1 = .ok env.runID ∨
            ∃ msg, (createGenesisBlock c strict env s agentName).1 = .error (.panic msg))) ∨
        (env.storeEvent ≠ none ∨ env.id = [] ∨ env.id ∈ s.db.events.map EventRow.id) ∧
          (∃ f, (createGenesisBlock c strict env s agentName).1 = .error f) ∧
          (createGenesisBlock c strict env s agentName).2.db.events = s.db.events) := by
  obtain ⟨e, r, s₁, hfill, hdb, hres⟩ := createGenesisBlock_deferred c strict env s agentName
  have herror : (∃ f, r = .error f) →
      ∃ f, (createGenesisBlock c strict env s agentName).1 = .error f := by
    rintro ⟨f, rfl⟩
    rcases hres with hres | ⟨msg, hres⟩
    · exact ⟨f, hres⟩
    · exact ⟨_, hres⟩
  rw [hdb]
  unfold fillGenesis at hfill
  cases hm : (getEvent env.pick s.pool).1.params with
  | none =>
    rw [hm] at hfill
    cases hfill
    exact Or.inl ⟨herror ⟨_, rfl⟩, rfl⟩
  | some m =>
    rw [hm] at hfill
    obtain ⟨rfl, hinsert⟩ := Prod.mk.inj hfill
    have hwrites := @insertGenesis_writes c strict env
      { s with pool := (getEvent env.pick s.pool).2 } agentName
      (genesisEvent env s.signer agentName (getEvent env.pick s.pool).1 m) rfl rfl
    rw [hinsert] at hwrites
    rcases hwrites with ⟨hf, hsame⟩ |
      ⟨run, hid, hruns, ⟨row, hevents, hrun, hseq, htype, hhash, hok⟩ | ⟨hwhy, hf, hevents⟩⟩
    · exact Or.inl ⟨herror hf, hsame⟩
    · rw [show r = .ok env.runID from hok] at hres
      exact Or.inr ⟨run, hid, hruns, Or.inl ⟨row, hevents, hrun, hseq, htype, hhash, hres⟩⟩
    · exact Or.inr ⟨run, hid, hruns, Or.inr ⟨hwhy, herror hf, hevents⟩⟩

/-! ## Every run starts with its genesis -/

/-- The run has its genesis event at the start. -/
def HasGenesis (db : DB) (run : RunRow) : Prop :=
  ∃ row ∈ db.rowsOf run.id, row.seqIndex = 0 ∧ row.eventType = lit "genesis" ∧
    row.currentHash = run.genesisHash

/-- Every event belongs to a run that starts with its genesis event. -/
def GenesisFirst (db : DB) : Prop :=
  ∀ row ∈ db.events, ∃ run ∈ db.runs, run.id = row.runID ∧ HasGenesis db run

/-- Rows that are added leave the genesis event in its place. -/
theorem HasGenesis.append {db db' : DB} {run : RunRow} {rows : List EventRow}
    (h : HasGenesis db run) (hevents : db'.events = db.events ++ rows) : HasGenesis db' run := by
  obtain ⟨row, hmem, hrow⟩ := h
  refine ⟨row, ?_, hrow⟩
  rw [DB.rowsOf, hevents, List.filter_append]
  exact List.mem_append_left _ hmem

/-- A start in which no run is inserted without its event: neither a failure nor the end of the
process comes between the two writes. -/
def StartAction.Whole : StartAction → Prop
  | .start env => env.genesis.storeEvent = none ∧ env.genesis.id ≠ []
  | .process _ => True
  | .stop _ _ => True

namespace Recorder

/-- What holds in every store that is reached. -/
structure Inv (r : Recorder) : Prop where
  genesis : ∀ run ∈ r.state.db.runs, HasGenesis r.state.db run
  known : ∀ row ∈ r.state.db.events, row.runID ∈ r.state.db.runs.map RunRow.id
  current : r.running = true → r.state.runID ∈ r.state.db.runs.map RunRow.id

theorem Inv.genesisFirst {r : Recorder} (h : r.Inv) : GenesisFirst r.state.db := by
  intro row hrow
  obtain ⟨run, hmem, hid⟩ := List.mem_map.mp (h.known row hrow)
  exact ⟨run, hmem, hid, h.genesis run hmem⟩

theorem Inv.events_nil {r : Recorder} (h : r.Inv) (hnone : r.state.db.runs = []) :
    r.state.db.events = [] := by
  refine List.eq_nil_iff_forall_not_mem.mpr fun row hrow => ?_
  have hknown := h.known row hrow
  rw [hnone] at hknown
  cases hknown

theorem Inv.idle {r : Recorder} (h : r.Inv) (hnone : r.state.db.runs = []) :
    r.running = false := by
  refine Bool.eq_false_iff.mpr fun hrun => ?_
  have hcurrent := h.current hrun
  rw [hnone] at hcurrent
  cases hcurrent

/-- A store that has a run with its genesis event, and nothing else. -/
theorem inv_of_genesis {s : State} {running : Bool} {run : RunRow} {row : EventRow}
    (hruns : s.db.runs = [run]) (hevents : s.db.events = [row]) (hrow : row.runID = run.id)
    (hgenesis : row.seqIndex = 0 ∧ row.eventType = lit "genesis" ∧
      row.currentHash = run.genesisHash)
    (hcurrent : running = true → s.runID = run.id) : Inv ⟨s, running⟩ where
  genesis := by
    rw [hruns]
    refine List.forall_mem_singleton.mpr ⟨row, ?_, hgenesis⟩
    rw [DB.rowsOf, hevents, List.mem_filter, decide_eq_true_eq]
    exact ⟨List.mem_singleton_self row, hrow⟩
  known := by
    rw [hevents, hruns]
    exact List.forall_mem_singleton.mpr (List.mem_singleton.mpr hrow)
  current hrun := by
    rw [hruns]
    exact List.mem_singleton.mpr (hcurrent hrun)

theorem inv_initial (signer : Signer) (pool : List Event) : (initial signer pool).Inv :=
  ⟨List.forall_mem_nil _, List.forall_mem_nil _, fun h => by cases h⟩

end Recorder

/-- What a `Start` does: it fails before it has written anything, goes on with a run of the store,
or creates one. -/
theorem start_cases (env : StartEnv) (s : State) :
    (∃ f, start c strict env s = (.error f, s)) ∨
    (∃ runID ∈ s.db.runs.map RunRow.id,
      start c strict env s = (.ok (), newEventProcessor s runID)) ∨
    s.db.runs = [] ∧ ∃ r s₁,
      createGenesisBlock c strict env.genesis s (lit "Logryph-Agent") = (r, s₁) ∧
      ((∃ f, r = .error f ∧
          start c strict env s = (.error (f.wrap (lit "creating genesis block")), s₁)) ∨
        ∃ runID, r = .ok runID ∧ start c strict env s = (.ok (), newEventProcessor s₁ runID)) := by
  unfold start hasRuns
  cases env.hasRuns with
  | some f => exact Or.inl ⟨_, rfl⟩
  | none =>
    dsimp only
    cases hruns : s.db.runs with
    | nil =>
      dsimp only [List.isEmpty_nil, Bool.not_true]
      cases hcreate : createGenesisBlock c strict env.genesis s (lit "Logryph-Agent") with
      | mk r s₁ =>
        refine Or.inr (Or.inr ⟨rfl, r, s₁, rfl, ?_⟩)
        cases r with
        | error f => exact Or.inl ⟨f, rfl, rfl⟩
        | ok runID => exact Or.inr ⟨runID, rfl, rfl⟩
    | cons run runs =>
      dsimp only [List.isEmpty_cons, Bool.not_false]
      unfold getRunID
      cases env.getRunID with
      | some f => exact Or.inl ⟨_, rfl⟩
      | none =>
        dsimp only
        rw [hruns]
        have hlt : env.latest % (run :: runs).length < (run :: runs).length :=
          Nat.mod_lt _ (by simp)
        rw [List.getElem?_eq_getElem hlt]
        exact Or.inr (Or.inl ⟨_, List.mem_map_of_mem (List.getElem_mem hlt), rfl⟩)

namespace Recorder

/-- A start with both writes keeps the invariant, and leaves no run behind if it fails. -/
theorem Inv.start {r : Recorder} (h : r.Inv) {env : StartEnv}
    (hwhole : (StartAction.start env).Whole) :
    (r.step c strict (.start env)).Inv ∧
      ∀ msg, (Logryph.start c strict env r.state).1 = .error (.error msg) →
        (Logryph.start c strict env r.state).2.db.runs = r.state.db.runs := by
  rw [step_start]
  rcases start_cases c strict env r.state with ⟨f, hstart⟩ | ⟨runID, hmem, hstart⟩ |
    ⟨hnone, res, s₁, hcreate, hstart⟩
  · rw [hstart]
    refine ⟨⟨h.genesis, h.known, fun hrun => h.current ?_⟩, fun msg _ => rfl⟩
    cases f with
    | error msg => exact hrun
    | panic msg => cases hrun
  · rw [hstart]
    refine ⟨⟨h.genesis, h.known, fun _ => hmem⟩, fun msg hf => ?_⟩
    cases hf
  · -- without a run there are no events either, and no worker that runs
    have hempty := h.events_nil hnone
    have hidle := h.idle hnone
    have hstate : (Logryph.start c strict env r.state).2.db = s₁.db := by
      rcases hstart with ⟨f, -, hs⟩ | ⟨runID, -, hs⟩
      · rw [hs]
      · rw [hs]
        rfl
    have hfailed : ∀ f, res = .error f →
        survives r.running (Logryph.start c strict env r.state).1 = false := by
      rintro f rfl
      rcases hstart with ⟨f', hf, hs⟩ | ⟨runID, hf, -⟩
      · rw [hs, hidle]
        cases f' <;> rfl
      · cases hf
    have hwrites := createGenesisBlock_writes c strict env.genesis r.state (lit "Logryph-Agent")
    rw [hcreate, hnone, hempty] at hwrites
    simp only [List.nil_append] at hwrites
    rcases hwrites with ⟨⟨f, hf⟩, hsame⟩ |
      ⟨run, hid, hruns, ⟨row, hevents, hrow, hseq, htype, hhash, hres⟩ | ⟨hwhy, -, -⟩⟩
    · have hdb : (Logryph.start c strict env r.state).2.db = r.state.db := hstate.trans hsame
      refine ⟨⟨?_, ?_, fun hrun => ?_⟩, fun msg _ => by rw [hdb]⟩
      · rw [hdb]
        exact h.genesis
      · rw [hdb]
        exact h.known
      · rw [hfailed f hf] at hrun
        cases hrun
    · rw [← hid] at hrow
      refine ⟨inv_of_genesis (hstate ▸ hruns) (hstate ▸ hevents) hrow ⟨hseq, htype, hhash⟩
        fun hrun => ?_, fun msg hf => ?_⟩
      · rw [hid]
        rcases hres with hok | ⟨msg, hpanic⟩
        · rcases hstart with ⟨f, hf, -⟩ | ⟨runID, hrun', hs⟩
          · cases hf.symm.trans hok
          · rw [hs]
            cases hrun'.symm.trans hok
            rfl
        · rw [hfailed _ hpanic] at hrun
          cases hrun
      · rcases hstart with ⟨f, hres', hs⟩ | ⟨runID, -, hs⟩
        · rcases hres with hok | ⟨msg', hpanic⟩
          · cases hres'.symm.trans hok
          · cases hres'.symm.trans hpanic
            rw [hs] at hf
            cases hf
        · rw [hs] at hf
          cases hf
    · rcases hwhy with hfault | hid' | hused
      · exact absurd hwhole.1 hfault
      · exact absurd hid' hwhole.2
      · cases hused

/-- The step lemma. -/
theorem Inv.step {r : Recorder} (h : r.Inv) {a : StartAction} (hwhole : a.Whole) :
    (r.step c strict a).Inv := by
  cases a with
  | start env => exact (h.start c strict hwhole).1
  | process call =>
    cases hrun : r.running with
    | false =>
      have hsame : r.step c strict (.process call) = r := if_neg (by rw [hrun]; decide)
      rw [hsame]
      exact h
    | true =>
      rw [step_process c strict hrun]
      obtain ⟨⟨rows, hevents, hrows⟩, hruns, hid⟩ :=
        writes_of_steps c strict (processEvent_steps c strict r.state call)
      replace hevents : (processEvent c strict r.state call).2.db.events
        = r.state.db.events ++ rows := hevents
      replace hruns : (processEvent c strict r.state call).2.db.runs = r.state.db.runs := hruns
      replace hid : (processEvent c strict r.state call).2.runID = r.state.runID := hid
      refine ⟨fun run hmem => ?_, fun row hmem => ?_, fun _ => ?_⟩
      · rw [hruns] at hmem
        exact (h.genesis run hmem).append hevents
      · rw [hruns]
        rw [hevents] at hmem
        rcases List.mem_append.mp hmem with hmem | hmem
        · exact h.known row hmem
        · rw [hrows row hmem]
          exact h.current hrun
      · rw [hruns, hid]
        exact h.current hrun
  | stop signer pool => exact ⟨h.genesis, h.known, fun hrun => by cases hrun⟩

/-- The run lemma. -/
theorem Inv.run {r : Recorder} (h : r.Inv) : ∀ {actions : List StartAction},
    (∀ a ∈ actions, a.Whole) → (r.run c strict actions).Inv := by
  intro actions hwhole
  induction actions generalizing r with
  | nil => exact h
  | cons a actions ih =>
    rw [List.forall_mem_cons] at hwhole
    exact ih (h.step c strict hwhole.1) hwhole.2

end Recorder

/-- **Every run starts with its genesis**, in every store that is reached from an empty one by
starts, calls of the processor and stops, whichever of them fail, as long as no start fails or stops
between its two writes; and such a start that returns an error leaves no run behind. -/
theorem runs_start_with_genesis (signer : Signer) (pool : List Event) (actions : List StartAction)
    (hwhole : ∀ a ∈ actions, a.Whole) :
    GenesisFirst ((Recorder.initial signer pool).run c strict actions).state.db ∧
    ∀ env, (StartAction.start env).Whole → ∀ msg,
      (start c strict env ((Recorder.initial signer pool).run c strict actions).state).1
        = .error (.error msg) →
      (start c strict env ((Recorder.initial signer pool).run c strict actions).state).2.db.runs
        = ((Recorder.initial signer pool).run c strict actions).state.db.runs := by
  have hinv := (Recorder.inv_initial signer pool).run c strict hwhole
  exact ⟨hinv.genesisFirst, fun env hstart => (hinv.start c strict hstart).2⟩

/-! ## A start that stops half-way -/

def startEnv (storeEvent : Option Fault) : StartEnv where
  genesis := { recordedEnv with storeEvent }

/-- A start, a call of a tool, and another start on the same store. -/
theorem runs_start_with_genesis_recorded :
    GenesisFirst ((Recorder.initial recordedSigner []).run recordedCrypto true
      [.start (startEnv none), .process { event := some recordedCall, completion :=
        { id := lit "evt-3", now := .zero } }, .start (startEnv none)]).state.db := by
  refine (runs_start_with_genesis recordedCrypto true recordedSigner [] _ ?_).1
  simp only [List.forall_mem_cons, StartAction.Whole, true_and]
  exact ⟨⟨rfl, by decide⟩, ⟨rfl, by decide⟩, List.forall_mem_nil _⟩

/-- A start whose second write fails, a second start, and a call. -/
def halfStarted : List StartAction :=
  [.start (startEnv (some (.error (lit "disk I/O error")))), .start (startEnv none),
    .process { event := some { id := lit "evt-1", eventType := lit "tool_call" }
               completion := { id := lit "evt-2", now := .zero } }]

theorem halfStarted_events : ((Recorder.initial recordedSigner []).run recordedCrypto true
    halfStarted).state.db.events.map (fun row => (row.runID, row.seqIndex, row.eventType))
      = [(lit "run-1", 0, lit "tool_call")] := by
  decide +kernel

/-- **A run without a genesis event**: the failed start leaves its run behind, the next one takes it
over, and the first event of the run is a call of a tool. -/
theorem run_without_genesis :
    (start recordedCrypto true (startEnv (some (.error (lit "disk I/O error"))))
      (initialState recordedSigner [])).1 = .error (.error (lit "creating genesis block: " ++
        lit "inserting genesis event: inserting event: disk I/O error")) ∧
    ((Recorder.initial recordedSigner []).run recordedCrypto true
      (halfStarted.take 1)).state.db.runs.map RunRow.id = [lit "run-1"] ∧
    ¬ GenesisFirst ((Recorder.initial recordedSigner []).run recordedCrypto true
      halfStarted).state.db := by
  refine ⟨by decide +kernel, by decide +kernel, fun hfirst => ?_⟩
  have hevents := halfStarted_events
  generalize ((Recorder.initial recordedSigner []).run recordedCrypto true
    halfStarted).state.db = db at hevents hfirst
  obtain ⟨row, hrow, hcolumns⟩ := List.map_eq_singleton_iff.mp hevents
  obtain ⟨run, -, -, g, hg, -, htype, -⟩ :=
    hfirst row (by rw [hrow]; exact List.mem_singleton_self row)
  have hmem : g ∈ db.events := List.mem_of_mem_filter hg
  rw [hrow, List.mem_singleton] at hmem
  rw [hmem, (Prod.mk.inj (Prod.mk.inj hcolumns).2).2] at htype
  exact absurd htype (by decide)

end Logryph
