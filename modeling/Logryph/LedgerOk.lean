import Logryph.LedgerChain

/-!
# When the processor succeeds

The assertions of the processor compare what two queries return, and the hash has conditions of
its own. With a repository that does not fail, an id that is not in use and maps that can be
written as JSON, none of them trips.

* `persistEvent_ok` — `persistEvent` stores the event
* `processEvent_ok` — `ProcessEvent` succeeds, with the completion event if there is one
* `createGenesisBlock_ok` — `CreateGenesisBlock` succeeds on an empty store
-/

namespace Logryph

open Infra Relation

variable (c : Crypto) (strict : Bool)

/-! ## One event -/

/-- An event that can be hashed and stored, at any place of a run. -/
structure Storable (e : Event) : Prop where
  id : e.id ≠ []
  params : ∃ w, Reads e.params.value w
  response : ∃ w, Reads e.response.value w

theorem count_eq_length_iff_replicate {l : Bytes} {a : UInt8} {n : Nat} (h : l.length = n) :
    l.count a = n ↔ l = List.replicate n a := by
  subst h
  rw [List.count_eq_length]
  constructor
  · exact fun hall => List.eq_replicate_length.mpr fun b hb => (hall b hb).symm
  · exact fun heq b hb => (List.eq_replicate_length.mp heq b hb).symm

/-- Every hash is accepted as a previous hash. -/
theorem prevHashOk_of_length {p : Bytes} (h : p.length = 64) : PrevHashOk p := by
  constructor
  · rintro rfl
    cases h
  · by_cases hz : p = zeroHash
    · exact Or.inr hz
    · exact Or.inl fun hc => hz ((count_eq_length_iff_replicate h).mp hc)

/-- An event that is linked and whose maps can be read has a hash. -/
theorem exists_calculateEventHash {e : Event} (h : Storable e) (hprev : e.prevHash.length = 64)
    (hseq : e.seqIndex < 2 ^ 64) :
    ∃ hash, calculateEventHash c strict e.prevHash e.payload = .ok hash := by
  obtain ⟨p, hp⟩ := h.params
  obtain ⟨r, hr⟩ := h.response
  obtain ⟨x, hx⟩ := Float64.exists_ofRat?_natCast hseq
  obtain ⟨y, hy⟩ := exists_hashInput (p := e.prevHash)
    (normalForm_payload_of hx hp hr : normalForm e.payload = _)
  exact ⟨_, (calculateEventHash_eq_ok c strict).mpr
    ⟨prevHashOk_of_length hprev, rfl, y, hy, rfl⟩⟩

theorem exists_marshal {v w : Value} (h : Reads v w) : ∃ text, marshal v = some text := by
  obtain ⟨u, ⟨j, htree, -⟩, -⟩ := h
  exact ⟨_, by rw [marshal, htree]; rfl⟩

/-- An event whose maps can be read has a row. -/
theorem exists_encodeEvent {e : Event} {p r : Value} (hp : Reads e.params.value p)
    (hr : Reads e.response.value r) : ∃ row, encodeEvent e = .ok row := by
  obtain ⟨params, hparams⟩ := exists_marshal hp
  obtain ⟨response, hresponse⟩ := exists_marshal hr
  unfold encodeEvent
  rw [hparams, hresponse]
  exact ⟨_, rfl⟩

/-- Storing a new event succeeds. -/
theorem storeEvent_ok (db : DB) {e : Event} (h : Storable e) (hrun : e.runID ≠ [])
    (hhash : e.currentHash ≠ []) (hsig : e.signature ≠ []) (hseq : e.seqIndex < 2 ^ 63)
    (hfresh : e.id ∉ db.events.map EventRow.id) :
    ∃ row db', encodeEvent e = .ok row ∧ db.addEvent row = some db' ∧
      storeEvent strict none db e = (.ok (), db') := by
  obtain ⟨p, hp⟩ := h.params
  obtain ⟨r, hr⟩ := h.response
  obtain ⟨row, henc⟩ := exists_encodeEvent hp hr
  obtain ⟨_, _, -, -, hrow⟩ := encodeEvent_eq_ok henc
  have hchecks : insertChecks strict row = .ok () := by
    rw [insertChecks_eq_ok, hrow]
    exact ⟨h.id, hrun, hhash, hsig⟩
  have hnum : row.seqIndex = e.seqIndex := by rw [hrow]
  have hroom : ¬ 2 ^ 63 ≤ row.seqIndex := by
    rw [hnum]
    omega
  have hid : row.id ∉ db.events.map EventRow.id := by
    rw [hrow]
    exact hfresh
  refine ⟨row, _, henc, dif_neg hid, ?_⟩
  rw [storeEvent, henc]
  dsimp only
  rw [insertEvent, hchecks]
  dsimp only
  rw [if_neg hroom, DB.addEvent, dif_neg hid]

/-! ## persistEvent -/

/-- A state in which the next event can be stored. -/
structure Ready (signer : Signer) (runID : Bytes) (s : State) : Prop where
  inv : RunInv c strict signer runID s.core
  runID_ne : runID ≠ []
  pool : ∀ e ∈ s.pool, Clean e

/-- The ids that are in use. -/
def State.ids (s : State) : List Bytes := s.db.events.map EventRow.id

/-- Storing a prepared event leaves a state in which the next one can be stored. -/
theorem Ready.stored {signer : Signer} {runID : Bytes} {s : State} {e e' : Event} {row : EventRow}
    {db : DB} (h : Ready c strict signer runID s) (hprep : Prepared c strict s.core e e')
    (henc : encodeEvent e' = .ok row) (hadd : s.db.addEvent row = some db) :
    let s' : State := { s with db, signed := s.signed ++ [e'] }
    Ready c strict signer runID s' ∧ s'.ids = s.ids ++ [e.id] ∧
      s'.core.rows.length = s.core.rows.length + 1 := by
  intro s'
  have hstep : Persist c strict e s.core s'.core := .stored hprep henc hadd
  obtain ⟨-, hevents, -⟩ := DB.addEvent_eq_some hadd
  obtain ⟨_, _, -, -, hrow⟩ := encodeEvent_eq_ok henc
  refine ⟨⟨h.inv.steps c strict (.single ⟨e, trivial, hstep⟩ :
    ReflTransGen (PersistStep c strict fun _ => True) _ _), h.runID_ne, h.pool⟩, ?_, ?_⟩
  · show db.events.map EventRow.id = _
    rw [hevents, List.map_append, List.map_singleton, hrow, hprep.fields]
    rfl
  · have hrun : row.runID = s.runID := by
      rw [hrow, hprep.fields]
      rfl
    show (db.rowsOf s.runID).length = (s.db.rowsOf s.runID).length + 1
    rw [← hrun, DB.rowsOf_append hevents, List.length_append]
    rfl

theorem getRunStats_ok (db : DB) {runID : Bytes} (hrun : runID ≠ []) :
    ∃ st, getRunStats strict none db runID = .ok st ∧
      st.totalEvents = (db.rowsOf runID).length := by
  refine ⟨_, bind_eq_ok.mpr ⟨(), ?_, rfl⟩, rfl⟩
  rw [check_eq_ok, decide_eq_true_eq]
  exact hrun

theorem getLastEvent_ok {db : DB} {runID : Bytes} {row : EventRow} {n : Nat} (hrun : runID ≠ [])
    (hrow : db.lastRow runID = some row) (hn : row.seqIndex = n) :
    getLastEvent strict none db runID = .ok (n, row.currentHash) := by
  refine bind_eq_ok.mpr ⟨(), ?_, ?_⟩
  · rw [check_eq_ok, decide_eq_true_eq]
    exact hrun
  · dsimp only
    rw [hrow]
    dsimp only
    rw [hn, if_neg (by omega), Int.toNat_natCast]

/-- The two queries agree on a log. -/
theorem assignSequenceAndPrevHash_ok {signer : Signer} {runID : Bytes} {s : State}
    (h : Ready c strict signer runID s) (e : Event) :
    ∃ last ∈ s.core.rows, assignSequenceAndPrevHash strict {} s e = .ok { e with
      seqIndex := s.core.rows.length, runID := s.runID, prevHash := last.currentHash } := by
  have hrun : s.runID ≠ [] := fun hnil => h.runID_ne (h.inv.runID_eq.symm.trans hnil)
  obtain ⟨init, last, hrows⟩ := (List.eq_nil_or_concat' s.core.rows).resolve_left h.inv.nonempty
  have hlog : rowView.IsLog (init ++ [last]) := hrows ▸ h.inv.isLog
  have hmem : last ∈ s.core.rows := by
    rw [hrows]
    exact List.mem_append_right _ (List.mem_singleton_self _)
  have hlast : s.db.lastRow s.runID = some last := by
    refine (DB.lastRow_of_isLog h.inv.isLog : s.db.lastRow s.runID = _).trans ?_
    show s.core.rows.getLast? = some last
    rw [hrows, List.getLast?_concat]
  have hnum : last.seqIndex = init.length := hlog.num_last
  have hhash : last.currentHash ≠ [] := by
    intro hnil
    have := calculateEventHash_length c strict (h.inv.sound last hmem).1
    rw [hnil] at this
    cases this
  have hlen : s.core.rows.length = init.length + 1 := by
    rw [hrows, List.length_append]
    rfl
  obtain ⟨st, hst, htotal⟩ := getRunStats_ok strict s.db hrun
  have hseq : st.totalEvents = init.length + 1 := htotal.trans hlen
  refine ⟨last, hmem, ?_⟩
  unfold assignSequenceAndPrevHash
  refine bind_eq_ok.mpr ⟨st, mapError_eq_ok.mpr hst, ?_⟩
  refine bind_eq_ok.mpr ⟨_, inContext_eq_ok.mpr (getLastEvent_ok strict hrun hlast hnum), ?_⟩
  dsimp only
  rw [if_neg (by omega)]
  refine bind_eq_ok.mpr ⟨(), check_eq_ok.mpr (by simpa using hhash), ?_⟩
  refine bind_eq_ok.mpr ⟨(), check_eq_ok.mpr (by simpa using hseq), ?_⟩
  rw [hlen, hseq]

theorem hashAndSignEvent_ok (signer : Signer) {e : Event} {hash : Bytes}
    (hprev : e.prevHash.length = 64)
    (h : calculateEventHash c strict e.prevHash e.payload = .ok hash) :
    hashAndSignEvent c strict signer e = .ok (e.signedWith c signer hash) := by
  refine bind_eq_ok.mpr ⟨(), ?_, bind_eq_ok.mpr ⟨hash, inContext_eq_ok.mpr h, rfl⟩⟩
  rw [check_eq_ok, decide_eq_true_eq]
  intro hnil
  rw [hnil] at hprev
  cases hprev

/-- **`persistEvent` stores an event with a new id.** -/
theorem persistEvent_ok {signer : Signer} {runID : Bytes} {s : State} {e : Event}
    (h : Ready c strict signer runID s) (he : Storable e)
    (hfresh : e.id ∉ s.ids) (hroom : s.core.rows.length < 2 ^ 63) :
    ∃ e' row db, Prepared c strict s.core e e' ∧ encodeEvent e' = .ok row ∧
      s.db.addEvent row = some db ∧
      persistEvent c strict {} s e = (.ok e', { s with db, signed := s.signed ++ [e'] }) := by
  obtain ⟨last, hmem, hassign⟩ := assignSequenceAndPrevHash_ok c strict h e
  obtain ⟨-, hseq, hlink⟩ := assignSequenceAndPrevHash_eq_ok strict hassign
  have hlast : last.currentHash.length = 64 :=
    calculateEventHash_length c strict (h.inv.sound last hmem).1
  generalize he₁ : ({ e with
    seqIndex := s.core.rows.length, runID := s.runID, prevHash := last.currentHash } : Event) = e₁
    at hassign hseq hlink
  have hstorable : Storable e₁ := by
    rw [← he₁]
    exact ⟨he.id, he.params, he.response⟩
  have hprev : e₁.prevHash.length = 64 := by
    rw [← he₁]
    exact hlast
  obtain ⟨hash, hhash⟩ := exists_calculateEventHash c strict hstorable hprev (by omega)
  have hsign := hashAndSignEvent_ok c strict s.signer hprev hhash
  have hne : hash ≠ [] := by
    intro hnil
    have := calculateEventHash_length c strict hhash
    rw [hnil] at this
    cases this
  have hrun : e₁.runID ≠ [] := by
    rw [← he₁]
    exact fun hnil => h.runID_ne (h.inv.runID_eq.symm.trans hnil)
  obtain ⟨row, db, henc, hadd, hst⟩ := storeEvent_ok strict s.db
    (e := e₁.signedWith c s.signer hash) ⟨hstorable.id, hstorable.params, hstorable.response⟩ hrun
    hne (s.signer.signHash_ne_nil c hash) (show e₁.seqIndex < 2 ^ 63 by omega)
    (show e₁.id ∉ _ by rw [← he₁]; exact hfresh)
  refine ⟨e₁.signedWith c s.signer hash, row, db, ⟨by rw [← he₁]; rfl, hseq, hlink, hhash⟩, henc,
    hadd, ?_⟩
  unfold persistEvent
  rw [hassign]
  dsimp only
  rw [hsign]
  dsimp only
  rw [hst]

/-! ## ProcessEvent -/

theorem eq_empty_of_mapLen {o : Object} (h : mapLen o = 0) : o.getD SortedMap.empty
    = SortedMap.empty := by
  cases o with
  | none => rfl
  | some m => exact SortedMap.ext_entries (List.length_eq_zero_iff.mp h)

theorem exists_reads_of_mapLen {o : Object} (h : mapLen o = 0) : ∃ w, Reads o.value w := by
  cases o with
  | none => exact ⟨.nil, .nil, ⟨.null, rfl, rfl, by decide⟩, rfl⟩
  | some m =>
    have hnil : m.entries = [] := List.length_eq_zero_iff.mp h
    rw [Object.value, hnil]
    exact exists_reads_map (n := 0) (by decide) (List.forall_mem_nil _)

/-- The parameters of a completion event that comes from a clean one. -/
theorem completionEvent_params {e : Event} (h : Clean e) (env : CompletionEnv)
    (taskID state : Bytes) : ∃ m, (completionEvent env taskID state e).params = some m ∧
      m.entries = [(lit "state", .string state), (lit "task_id", .string taskID)] := by
  refine ⟨_, rfl, ?_⟩
  rw [eq_empty_of_mapLen h.2.1]
  rfl

theorem storable_completionEvent {e : Event} (h : Clean e) {env : CompletionEnv}
    (hid : env.id ≠ []) (taskID state : Bytes) :
    Storable (completionEvent env taskID state e) := by
  obtain ⟨m, hm, hentries⟩ := completionEvent_params h env taskID state
  refine ⟨hid, ?_, exists_reads_of_mapLen h.2.2⟩
  rw [hm, Object.value, hentries]
  refine exists_reads_map (n := 0) (by decide) ?_
  simp only [List.mem_cons, List.not_mem_nil, or_false]
  rintro m (rfl | rfl)
  · exact ⟨_, _, rfl, rfl, Nat.le_refl _⟩
  · exact ⟨_, _, rfl, rfl, Nat.le_refl _⟩

theorem State.putEvent_ok {s : State} {e : Event} (hp : mapLen e.params ≤ maxEventFields)
    (hr : mapLen e.response ≤ maxEventFields) :
    s.putEvent strict e = (.ok (), { s with pool := clearEvent e :: s.pool }) := by
  unfold State.putEvent Logryph.putEvent
  rw [if_pos hp, if_pos hr]

/-- What a call that succeeds leaves behind: the ids that it may have used, and room for more. -/
structure Leaves (signer : Signer) (runID : Bytes) (s s' : State) (used : List Bytes) : Prop where
  ready : Ready c strict signer runID s'
  ids : ∀ id ∈ s'.ids, id ∈ s.ids ∨ id ∈ used
  rows : s.core.rows.length ≤ s'.core.rows.length
  rows_le : s'.core.rows.length ≤ s.core.rows.length + used.length

theorem createTaskCompletionEvent_ok {signer : Signer} {runID : Bytes} {s : State}
    {env : CompletionEnv} {taskID state : Bytes} (h : Ready c strict signer runID s)
    (hfaults : env.faults = {}) (hid : env.id ≠ []) (hfresh : env.id ∉ s.ids)
    (hroom : s.core.rows.length < 2 ^ 63) (htask : taskID ≠ []) (hstate : state ≠ []) :
    ∃ s', createTaskCompletionEvent c strict env taskID state s = (.ok (), s') ∧
      Leaves c strict signer runID s s' [env.id] := by
  rw [createTaskCompletionEvent_eq c strict env s htask hstate, hfaults]
  obtain ⟨hclean, hpool⟩ := clean_getEvent h.pool env.pick
  generalize hget : getEvent env.pick s.pool = picked at hclean hpool
  obtain ⟨e, pool⟩ := picked
  dsimp only at hclean hpool ⊢
  have hready : Ready c strict signer runID { s with pool } := ⟨h.inv, h.runID_ne, hpool⟩
  obtain ⟨e', row, db, hprep, henc, hadd, hpersist⟩ := persistEvent_ok c strict hready
    (storable_completionEvent hclean hid taskID state) hfresh hroom
  obtain ⟨hready', hids, hrows⟩ := hready.stored c strict hprep henc hadd
  -- the event goes back to the pool with its two parameters
  have hparams : mapLen e'.params ≤ maxEventFields := by
    obtain ⟨m, hm, hentries⟩ := completionEvent_params hclean env taskID state
    rw [hprep.fields]
    dsimp only
    rw [hm, mapLen, SortedMap.size, hentries]
    exact show 2 ≤ 256 by decide
  have hresponse : mapLen e'.response ≤ maxEventFields := by
    rw [hprep.fields]
    exact hclean.2.2.le.trans (Nat.zero_le _)
  rw [hpersist, afterCompletion, State.putEvent_ok strict hparams hresponse]
  refine ⟨_, rfl, ⟨hready'.inv, h.runID_ne, ?_⟩, fun id hmem => ?_, ?_, ?_⟩
  · intro e he
    rcases List.mem_cons.mp he with rfl | he
    · exact clean_clearEvent hparams hresponse
    · exact hpool e he
  · have hmem' : id ∈ s.ids ++ [env.id] := by
      rw [← show _ = s.ids ++ [env.id] from hids]
      exact hmem
    rwa [List.mem_append] at hmem'
  · exact (Nat.le_succ _).trans hrows.ge
  · exact hrows.le

theorem Leaves.refl {signer : Signer} {runID : Bytes} {s : State} {used : List Bytes}
    (h : Ready c strict signer runID s) : Leaves c strict signer runID s s used :=
  ⟨h, fun _ hid => Or.inl hid, Nat.le_refl _, Nat.le_add_right _ _⟩

/-- The table of task states is not part of what is asked of a state. -/
theorem Leaves.withTasks {signer : Signer} {runID : Bytes} {s s' : State} {used : List Bytes}
    (h : Leaves c strict signer runID s s' used) (taskStates : SortedMap Bytes Bytes) :
    Leaves c strict signer runID s { s' with taskStates } used :=
  ⟨⟨h.ready.inv, h.ready.runID_ne, h.ready.pool⟩, h.ids, h.rows, h.rows_le⟩

theorem trackTaskState_ok {signer : Signer} {runID : Bytes} {s : State} {env : CompletionEnv}
    {e : Event} (h : Ready c strict signer runID s) (hfaults : env.faults = {}) (hid : env.id ≠ [])
    (hfresh : env.id ∉ s.ids) (hroom : s.core.rows.length < 2 ^ 63) (htask : e.taskID ≠ []) :
    ∃ s', trackTaskState c strict env s e = (.ok (), s') ∧
      Leaves c strict signer runID s s' [env.id] := by
  rcases trackTaskState_cases c strict env s htask with ⟨-, htrack⟩ | ⟨hends, s₁, hcases⟩
  · exact ⟨_, htrack, (Leaves.refl c strict h).withTasks c strict _⟩
  · obtain ⟨s', hs', hleaves⟩ := createTaskCompletionEvent_ok c strict h hfaults hid hfresh hroom
      htask (isTerminalState_ne_nil (State.isTerminalState_of_endsTask hends))
    rcases hcases with ⟨hc, htrack⟩ | ⟨f, hc, -⟩
    · cases hs'.symm.trans hc
      exact ⟨_, htrack, hleaves.withTasks c strict _⟩
    · cases hs'.symm.trans hc

/-- **`ProcessEvent` succeeds**, and leaves a state in which it can be called again. -/
theorem processEvent_ok {signer : Signer} {runID : Bytes} {s : State} {call : Call} {e : Event}
    (h : Ready c strict signer runID s) (hevent : call.event = some e) (hfaults : call.faults = {})
    (hfaults' : call.completion.faults = {}) (he : Storable e) (hfresh : e.id ∉ s.ids)
    (hid : call.completion.id ≠ []) (hfresh' : call.completion.id ∉ s.ids)
    (hne : call.completion.id ≠ e.id) (hroom : s.core.rows.length + 1 < 2 ^ 63) :
    ∃ s', processEvent c strict s call = (.ok (), s') ∧
      Leaves c strict signer runID s s' [e.id, call.completion.id] ∧
      s.core.rows.length < s'.core.rows.length := by
  obtain ⟨e', row, db, hprep, henc, hadd, hpersist⟩ := persistEvent_ok c strict h he hfresh
    (by omega)
  obtain ⟨hready, hids, hrows⟩ := h.stored c strict hprep henc hadd
  have hmem : ∀ id ∈ State.ids { s with db, signed := s.signed ++ [e'] },
      id ∈ s.ids ∨ id ∈ [e.id, call.completion.id] := by
    intro id hid
    rw [hids, List.mem_append, List.mem_singleton] at hid
    rcases hid with hid | rfl
    · exact Or.inl hid
    · exact Or.inr List.mem_cons_self
  unfold processEvent
  rw [hevent]
  dsimp only
  rw [hfaults, hpersist]
  dsimp only
  split
  · next hcond =>
    have htask : e'.taskID ≠ [] := by
      rw [Bool.and_eq_true, decide_eq_true_eq] at hcond
      exact hcond.2
    obtain ⟨s', hs', hleaves⟩ := trackTaskState_ok c strict hready hfaults' hid (by
      rw [hids, List.mem_append, List.mem_singleton]
      exact not_or.mpr ⟨hfresh', hne⟩) (hrows.trans_lt hroom) htask
    refine ⟨s', hs', ⟨hleaves.ready, fun id hid => ?_, ?_, ?_⟩, ?_⟩
    · rcases hleaves.ids id hid with hid | hid
      · exact hmem id hid
      · exact Or.inr (List.mem_cons_of_mem _ hid)
    · exact (Nat.le_succ _).trans (hrows.ge.trans hleaves.rows)
    · exact hleaves.rows_le.trans_eq (by rw [hrows]; rfl)
    · exact (Nat.lt_succ_self _).trans_le (hrows.ge.trans hleaves.rows)
  · refine ⟨_, rfl, ⟨hready, hmem, ?_, ?_⟩, ?_⟩
    · exact (Nat.le_succ _).trans hrows.ge
    · exact hrows.le.trans (Nat.le_succ _)
    · exact (Nat.lt_succ_self _).trans_le hrows.ge

/-! ## Runs -/

/-- The ids that a call may use. -/
def Call.ids (call : Call) : List Bytes := (call.event.map Event.id).toList ++ [call.completion.id]

/-- A call with a repository that does not fail. -/
structure CallOk (call : Call) : Prop where
  event : ∃ e, call.event = some e ∧ Storable e
  faults : call.faults = {}
  completionFaults : call.completion.faults = {}
  completionId : call.completion.id ≠ []

/-- The step lemma: a call with ids that are not in use succeeds. -/
theorem processEvent_ok_of_callOk {signer : Signer} {runID : Bytes} {s : State} {call : Call}
    (h : Ready c strict signer runID s) (hcall : CallOk call) (hnodup : call.ids.Nodup)
    (hfresh : ∀ id ∈ call.ids, id ∉ s.ids) (hroom : s.core.rows.length + 1 < 2 ^ 63) :
    ∃ s', processEvent c strict s call = (.ok (), s') ∧
      Leaves c strict signer runID s s' call.ids ∧ s.core.rows.length < s'.core.rows.length := by
  obtain ⟨e, hevent, he⟩ := hcall.event
  have hids : call.ids = [e.id, call.completion.id] := by
    rw [Call.ids, hevent]
    rfl
  rw [hids] at hnodup hfresh ⊢
  refine processEvent_ok c strict h hevent hcall.faults hcall.completionFaults he
    (hfresh _ List.mem_cons_self) hcall.completionId
    (hfresh _ (List.mem_cons_of_mem _ (List.mem_singleton_self _))) ?_ hroom
  intro heq
  exact (List.nodup_cons.mp hnodup).1 (heq ▸ List.mem_singleton_self _)

/-- Calls one after the other, each of which succeeds. -/
def AllOk (s : State) : List Call → Prop
  | [] => True
  | call :: calls =>
    (processEvent c strict s call).1 = .ok () ∧ AllOk (processEvent c strict s call).2 calls

/-- **The run lemma.** Calls with ids of their own all succeed: the state stays ready, and every
call stores at least one event. -/
theorem processAll_ok {signer : Signer} {runID : Bytes} : ∀ (calls : List Call) {s : State},
    Ready c strict signer runID s → (∀ call ∈ calls, CallOk call) →
    (calls.flatMap Call.ids).Nodup → (∀ id ∈ calls.flatMap Call.ids, id ∉ s.ids) →
    s.core.rows.length + 2 * calls.length < 2 ^ 63 →
    AllOk c strict s calls ∧ Ready c strict signer runID (processAll c strict s calls) ∧
      s.core.rows.length + calls.length ≤ (processAll c strict s calls).core.rows.length
  | [], _, h, _, _, _, _ => ⟨trivial, h, Nat.le_refl _⟩
  | call :: calls, s, h, hcalls, hnodup, hfresh, hroom => by
    rw [List.flatMap_cons] at hnodup hfresh
    rw [List.length_cons] at hroom ⊢
    obtain ⟨hnd, hnds, hdisj⟩ := List.nodup_append.mp hnodup
    obtain ⟨s', hs', hleaves, hlt⟩ := processEvent_ok_of_callOk c strict h
      (hcalls call List.mem_cons_self) hnd (fun id hid => hfresh id (List.mem_append_left _ hid))
      (by omega)
    have hused : call.ids.length ≤ 2 := by
      rw [Call.ids, List.length_append]
      cases call.event <;> simp
    have hle := hleaves.rows_le
    obtain ⟨hall, hready, hrows⟩ := processAll_ok calls hleaves.ready
      (fun x hx => hcalls x (List.mem_cons_of_mem _ hx)) hnds (fun id hid hmem => by
        rcases hleaves.ids id hmem with hold | hnew
        · exact hfresh id (List.mem_append_right _ hid) hold
        · exact hdisj id hnew id hid rfl) (by omega)
    have hcons : processAll c strict s (call :: calls) = processAll c strict s' calls := by
      rw [processAll, List.foldl_cons, hs']
      rfl
    rw [hcons, AllOk, hs']
    exact ⟨⟨rfl, hall⟩, hready, by omega⟩

/-! ## Genesis -/

/-- What `CreateGenesisBlock` needs from outside. -/
structure GenesisOk (env : GenesisEnv) (signer : Signer) (agentName : Bytes) : Prop where
  runID : env.runID ≠ []
  id : env.id ≠ []
  agentName : agentName ≠ []
  publicKey : signer.publicKey ≠ []
  anchor : ∀ a ∈ env.anchor, a.blockHeight < 2 ^ 64 ∧ a.timestamp.Strict
  insertRun : env.insertRun = none
  storeEvent : env.storeEvent = none

theorem genesisParams_entries (env : GenesisEnv) (signer : Signer) (agentName : Bytes) :
    (genesisParams env signer agentName SortedMap.empty).entries = match env.anchor with
      | none => [(lit "agent_name", .string agentName),
          (lit "public_key", .string signer.getPublicKey), (lit "version", .string (lit "1.0.0"))]
      | some a => [(lit "agent_name", .string agentName), (lit "anchor_hash", .string a.blockHash),
          (lit "anchor_height", .uint64 a.blockHeight), (lit "anchor_source", .string a.source),
          (lit "anchor_time", .time a.timestamp), (lit "public_key", .string signer.getPublicKey),
          (lit "version", .string (lit "1.0.0"))] := by
  unfold genesisParams
  cases env.anchor <;> rfl

theorem mapLen_genesisParams (env : GenesisEnv) (signer : Signer) (agentName : Bytes) :
    mapLen (some (genesisParams env signer agentName SortedMap.empty)) ≤ maxEventFields := by
  rw [mapLen, SortedMap.size, genesisParams_entries]
  cases env.anchor with
  | none => show 3 ≤ 256; decide
  | some a => show 7 ≤ 256; decide

theorem exists_reads_genesisParams {env : GenesisEnv} {signer : Signer} {agentName : Bytes}
    (h : GenesisOk env signer agentName) :
    ∃ w, Reads (.map (genesisParams env signer agentName SortedMap.empty).entries) w := by
  have hstring : ∀ s : Bytes, ∃ j w, (Value.string s).tree = some j ∧ j.decode = some w ∧
      j.depth ≤ 0 := fun s => ⟨_, _, rfl, rfl, Nat.le_refl _⟩
  rw [genesisParams_entries]
  refine exists_reads_map (n := 0) (by decide) ?_
  cases ha : env.anchor with
  | none =>
    simp only [List.forall_mem_cons, hstring, true_and]
    nofun
  | some a =>
    obtain ⟨hheight, htime⟩ := h.anchor a ha
    obtain ⟨x, hx⟩ := Float64.exists_ofRat?_natCast hheight
    have hnum : ∃ j w, (Value.uint64 a.blockHeight).tree = some j ∧ j.decode = some w ∧
        j.depth ≤ 0 := by
      refine ⟨.num (Decimal.ofNat a.blockHeight), .float64 x, rfl, ?_, Nat.le_refl _⟩
      rw [Json.decode, Decimal.toRat_ofNat, hx]
      rfl
    have hanchor : ∃ j w, (Value.time a.timestamp).tree = some j ∧ j.decode = some w ∧
        j.depth ≤ 0 :=
      ⟨.str a.timestamp.format, _, by rw [Value.tree, if_pos htime], rfl, Nat.le_refl _⟩
    simp only [List.forall_mem_cons, hstring, hnum, hanchor, true_and]
    nofun

theorem insertRun_ok (db : DB) {id agentName genesisHash ledgerPubKey : Bytes} (hid : id ≠ [])
    (hagent : agentName ≠ []) (hhash : genesisHash ≠ []) (hkey : ledgerPubKey ≠ [])
    (hfresh : id ∉ db.runs.map RunRow.id) :
    ∃ db', insertRun strict none db id agentName genesisHash ledgerPubKey = (.ok (), db') ∧
      db'.events = db.events := by
  unfold insertRun DB.addRun
  rw [dif_neg hfresh]
  simp only [hid, hagent, hhash, hkey, ne_eq, not_false_eq_true, decide_true, check_true, bind,
    Except.bind]
  exact ⟨_, rfl, rfl⟩

/-- The genesis event, made from a clean one, is stored. -/
theorem insertGenesis_ok {env : GenesisEnv} {s : State} {agentName : Bytes} {e : Event}
    (h : GenesisOk env s.signer agentName) (hdb : s.db = DB.empty) (he : Clean e) :
    ∃ s', insertGenesis c strict env agentName s
        (genesisEvent env s.signer agentName e SortedMap.empty) = (.ok env.runID, s') ∧
      s'.pool = s.pool ∧ s'.ids = [env.id] := by
  have hstorable : Storable (genesisEvent env s.signer agentName e SortedMap.empty) :=
    ⟨h.id, exists_reads_genesisParams h, exists_reads_of_mapLen he.2.2⟩
  obtain ⟨hash, hhash⟩ := exists_calculateEventHash c strict hstorable (by rfl)
    (show 0 < 2 ^ 64 by decide)
  have hne : hash ≠ [] := by
    intro hnil
    have := calculateEventHash_length c strict hhash
    rw [hnil] at this
    cases this
  have hkey : s.signer.getPublicKey ≠ [] := by
    intro hnil
    have := congrArg List.length hnil
    rw [Signer.getPublicKey, length_hexEncode, List.length_nil] at this
    exact h.publicKey (List.length_eq_zero_iff.mp (by omega))
  obtain ⟨db, hrun, hevents⟩ := insertRun_ok strict DB.empty h.runID h.agentName hne hkey
    nofun
  have hnone : db.events = [] := hevents
  obtain ⟨row, db', henc, hadd, hst⟩ := storeEvent_ok strict db
    (e := (genesisEvent env s.signer agentName e SortedMap.empty).signedWith c s.signer hash)
    ⟨hstorable.id, hstorable.params, hstorable.response⟩ h.runID hne
    (s.signer.signHash_ne_nil c hash) (show 0 < 2 ^ 63 by decide) (by rw [hnone]; nofun)
  unfold insertGenesis
  rw [hhash, h.insertRun, h.storeEvent, hdb]
  dsimp only [inContext]
  rw [hrun]
  dsimp only
  rw [hst]
  refine ⟨_, rfl, rfl, ?_⟩
  obtain ⟨-, hevents', -⟩ := DB.addEvent_eq_some hadd
  obtain ⟨_, _, -, -, hrow⟩ := encodeEvent_eq_ok henc
  show db'.events.map EventRow.id = [env.id]
  rw [hevents', hnone, hrow]
  rfl

/-- **`CreateGenesisBlock` succeeds on an empty store**, and the run can go on. A pooled event
must still have its map of parameters. -/
theorem createGenesisBlock_ok {env : GenesisEnv} {signer : Signer} {agentName : Bytes}
    (h : GenesisOk env signer agentName) (pool : List Event)
    (hpool : ∀ e ∈ pool, Clean e ∧ e.params.isSome) :
    ∃ s, createGenesisBlock c strict env (initialState signer pool) agentName
        = (.ok env.runID, s) ∧
      Ready c strict signer env.runID (newEventProcessor s env.runID) ∧ s.ids = [env.id] ∧
      (newEventProcessor s env.runID).core.rows.length = 1 := by
  obtain ⟨hclean, hrest⟩ := clean_getEvent (fun e he => (hpool e he).1) env.pick
  have hsome : (getEvent env.pick pool).1.params.isSome := by
    unfold getEvent
    split
    · rfl
    · split
      · rfl
      · next he => exact (hpool _ (List.mem_of_getElem? he)).2
  generalize hget : getEvent env.pick pool = picked at hclean hrest hsome
  obtain ⟨e, rest⟩ := picked
  obtain ⟨m, hm⟩ := Option.isSome_iff_exists.mp hsome
  dsimp only at hclean hrest hm
  have hempty : m = SortedMap.empty := by
    have := eq_empty_of_mapLen hclean.2.1
    rwa [hm] at this
  obtain ⟨s, hs, hspool, hids⟩ := insertGenesis_ok c strict
    (s := initialState signer rest) h rfl hclean
  have hmaps : mapLen (genesisEvent env signer agentName e SortedMap.empty).response
      ≤ maxEventFields := hclean.2.2.le.trans (Nat.zero_le _)
  have hgen : ∃ s', createGenesisBlock c strict env (initialState signer pool) agentName
        = (.ok env.runID, s') ∧ s'.db = s.db ∧ ∀ e ∈ s'.pool, Clean e := by
    unfold createGenesisBlock fillGenesis
    simp only [initialState] at hs ⊢
    rw [hget]
    dsimp only
    rw [hm, hempty]
    dsimp only
    rw [hs]
    dsimp only
    rw [State.putEvent_ok strict (mapLen_genesisParams env signer agentName) hmaps]
    refine ⟨_, rfl, rfl, fun e he => ?_⟩
    rcases List.mem_cons.mp he with rfl | he
    · exact clean_clearEvent (mapLen_genesisParams env signer agentName) hmaps
    · exact hrest e (hspool.symm ▸ he : e ∈ (initialState signer rest).pool)
  obtain ⟨s', hs', hdb, hclean'⟩ := hgen
  obtain ⟨_, _, -, -, -, hrows, -⟩ := createGenesisBlock_eq_ok c strict hs' rfl
  refine ⟨s', hs', ⟨runInv_of_genesis c strict hs', h.runID, hclean'⟩, ?_, hrows⟩
  rw [State.ids, hdb]
  exact hids

theorem genesisOk_recorded : GenesisOk recordedEnv recordedSigner (lit "agent") := by
  refine ⟨by decide, by decide, by decide, by decide +kernel, fun a ha => ?_, rfl, rfl⟩
  cases ha

theorem ready_recorded : Ready recordedCrypto true recordedSigner (lit "run-1")
      (newEventProcessor recordedGenesis (lit "run-1")) ∧
    (newEventProcessor recordedGenesis (lit "run-1")).ids = [lit "evt-0"] ∧
    (newEventProcessor recordedGenesis (lit "run-1")).core.rows.length = 1 := by
  obtain ⟨s, hs, hready, hids, hrows⟩ := createGenesisBlock_ok recordedCrypto true
    genesisOk_recorded [] (List.forall_mem_nil _)
  rw [createGenesisBlock_recorded] at hs
  rw [(Prod.mk.inj hs).2]
  exact ⟨hready, hids, hrows⟩

end Logryph
