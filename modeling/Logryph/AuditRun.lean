import Logryph.Audit
import Logryph.LedgerChain

/-!
# Verifying the ledgers that the processor writes

The verifier rebuilds each payload from a decoded row: the maps come back from JSON text, the
timestamp from its RFC 3339 text. Completeness says that this always gives the bytes that were
hashed; soundness says that nothing else gives them.

* `SignedInv` — what is known of the signed events: how each is hashed and linked, and that every
  row was written for one of them
* `verifyChain_complete` — the verifier accepts every ledger that the processor wrote
* `verifyChain_sound` — whatever it accepts consists of signed events, one after the other
-/

namespace Logryph

open Infra Relation

variable (c : Crypto) (strict : Bool)

/-! ## Signed events -/

/-- The signed events of a run. Events whose storing failed are among them, so they form a tree:
each links to one that was stored. -/
structure SignedInv (P : Event → Prop) (s : Core) : Prop where
  hash : ∀ e ∈ s.signed, calculateEventHash c strict e.prevHash e.payload = .ok e.currentHash
  seq_le : ∀ e ∈ s.signed, e.seqIndex ≤ s.rows.length
  prev : ∀ e ∈ s.signed, e.seqIndex = 0 ∧ e.prevHash = zeroHash ∨
    ∃ e' ∈ s.signed, e'.seqIndex + 1 = e.seqIndex ∧ e'.currentHash = e.prevHash
  stored : ∀ row ∈ s.rows, ∃ e ∈ s.signed, encodeEvent e = .ok row
  origin : ∀ e ∈ s.signed, ∃ e₀, P e₀ ∧ e.timestamp = e₀.timestamp

theorem lastRow_mem {db : DB} {runID : Bytes} {row : EventRow}
    (h : db.lastRow runID = some row) : row ∈ db.rowsOf runID :=
  (List.mem_insertionSort _).mp (List.mem_of_head? h)

/-- Signing a prepared event keeps the invariant, whether or not its row is stored. -/
theorem SignedInv.persist {P : Event → Prop} {s s' : Core} {e : Event} (h : SignedInv c strict P s)
    (he : P e) (hstep : Persist c strict e s s') : SignedInv c strict P s' := by
  have hsigned : ∀ {e' : Event}, Prepared c strict s e e' → ∀ rows : List EventRow,
      s.rows.length ≤ rows.length →
      (∀ x ∈ s.signed ++ [e'],
        calculateEventHash c strict x.prevHash x.payload = .ok x.currentHash) ∧
      (∀ x ∈ s.signed ++ [e'], x.seqIndex ≤ rows.length) ∧
      (∀ x ∈ s.signed ++ [e'], x.seqIndex = 0 ∧ x.prevHash = zeroHash ∨
        ∃ y ∈ s.signed ++ [e'], y.seqIndex + 1 = x.seqIndex ∧ y.currentHash = x.prevHash) ∧
      (∀ x ∈ s.signed ++ [e'], ∃ e₀, P e₀ ∧ x.timestamp = e₀.timestamp) := by
    intro e' hprep rows hle
    refine ⟨?_, ?_, ?_, ?_⟩ <;> simp only [List.mem_append, List.mem_singleton] <;>
      rintro x (hx | rfl)
    · exact h.hash x hx
    · exact hprep.hash
    · exact (h.seq_le x hx).trans hle
    · exact hprep.seq.le.trans hle
    · rcases h.prev x hx with h | ⟨y, hy, h⟩
      · exact Or.inl h
      · exact Or.inr ⟨y, Or.inl hy, h⟩
    · rcases hprep.link with hzero | ⟨row, hrow, hseq, hhash⟩
      · exact Or.inl hzero
      · -- the last row was written for a signed event
        obtain ⟨y, hy, henc⟩ := h.stored row (lastRow_mem hrow)
        obtain ⟨params, response, -, -, rfl⟩ := encodeEvent_eq_ok henc
        have hseq' : (y.seqIndex : Int) + 1 = x.seqIndex := hseq
        exact Or.inr ⟨y, Or.inl hy, by omega, hhash⟩
    · exact h.origin x hx
    · exact ⟨e, he, by rw [hprep.fields]⟩
  cases hstep with
  | unstored hprep =>
    obtain ⟨h1, h2, h3, h4⟩ := hsigned hprep s.rows (Nat.le_refl _)
    refine ⟨h1, h2, h3, fun row hrow => ?_, h4⟩
    obtain ⟨x, hx, henc⟩ := h.stored row hrow
    exact ⟨x, List.mem_append_left _ hx, henc⟩
  | @stored e' row db hprep henc hadd =>
    obtain ⟨-, hevents, -⟩ := DB.addEvent_eq_some hadd
    have hrun : row.runID = s.runID := by
      obtain ⟨_, _, -, -, hrow⟩ := encodeEvent_eq_ok henc
      rw [hrow, hprep.fields]
    have hrows : db.rowsOf s.runID = s.rows ++ [row] := by
      have happ := DB.rowsOf_append hevents
      rwa [hrun] at happ
    obtain ⟨h1, h2, h3, h4⟩ := hsigned hprep (db.rowsOf s.runID) (by rw [hrows]; simp)
    refine ⟨h1, h2, h3, fun x hx => ?_, h4⟩
    rw [Core.rows, hrows, List.mem_append, List.mem_singleton] at hx
    rcases hx with hx | rfl
    · obtain ⟨y, hy, hy'⟩ := h.stored x hx
      exact ⟨y, List.mem_append_left _ hy, hy'⟩
    · exact ⟨e', List.mem_append_right _ (List.mem_singleton_self _), henc⟩

theorem SignedInv.steps {P : Event → Prop} {s s' : Core} (h : SignedInv c strict P s)
    (hsteps : ReflTransGen (PersistStep c strict P) s s') : SignedInv c strict P s' := by
  induction hsteps with
  | refl => exact h
  | tail _ hstep ih =>
    obtain ⟨e, he, hpersist⟩ := hstep
    exact ih.persist c strict he hpersist

/-- A run starts with the invariant. -/
theorem signedInv_of_genesis {env : GenesisEnv} {signer : Signer} {pool : List Event}
    {agentName runID : Bytes} {s : State} {P : Event → Prop}
    (h : createGenesisBlock c strict env (initialState signer pool) agentName = (.ok runID, s))
    (hP : ∀ e, e.timestamp = env.now → P e) :
    SignedInv c strict P (newEventProcessor s runID).core := by
  obtain ⟨e, db, ⟨htime, -⟩, hevents, hstep, -⟩ := createGenesisBlock_eq_ok c strict h rfl
  have hrows : db.rowsOf runID = [] := DB.rowsOf_congr hevents runID
  have hstart : SignedInv c strict P ⟨db, signer, runID, []⟩ := by
    refine ⟨List.forall_mem_nil _, List.forall_mem_nil _, List.forall_mem_nil _, ?_,
      List.forall_mem_nil _⟩
    rw [Core.rows, hrows]
    exact List.forall_mem_nil _
  exact hstart.persist c strict (hP e htime) hstep

/-- The run lemma. -/
theorem signedInv_processAll {env : GenesisEnv} {signer : Signer} {pool : List Event}
    {agentName runID : Bytes} {s : State} {P : Event → Prop}
    (hgen : createGenesisBlock c strict env (initialState signer pool) agentName = (.ok runID, s))
    (calls : List Call) (hP : ∀ e, e.timestamp = env.now → P e)
    (hcalls : ∀ call ∈ calls, ∀ e, call.Submits e → P e) :
    SignedInv c strict P (processAll c strict (newEventProcessor s runID) calls).core :=
  (signedInv_of_genesis c strict hgen hP).steps c strict
    (PersistStep.mono c strict (fun e ⟨call, hmem, he⟩ => hcalls call hmem e he)
      (processAll_steps c strict calls _))

/-! ## Completeness -/

/-- The timestamp of the row is the text of the time that it is read as. -/
def TimestampOk (row : EventRow) : Prop :=
  utf8 (decodeTimestamp row.timestamp).format = row.timestamp

theorem timestampOk_of_encodeEvent {e : Event} {row : EventRow} (henc : encodeEvent e = .ok row)
    (h : e.timestamp.Representable) : TimestampOk row := by
  obtain ⟨_, _, -, -, rfl⟩ := encodeEvent_eq_ok henc
  show utf8 (decodeTimestamp (utf8 e.timestamp.format)).format = utf8 e.timestamp.format
  rw [decodeTimestamp, runes_utf8, Time.parse_format h, Option.getD_some,
    Time.format_minuteZone h]

/-- The verifier rebuilds the payload that the row denotes. -/
theorem scanEvent_of_timestampOk {row : EventRow} (hseq : 0 ≤ row.seqIndex)
    (ht : TimestampOk row) : ∃ e, scanEvent row = .ok e ∧ e.payload = row.payload := by
  unfold scanEvent
  rw [if_neg (not_lt.mpr hseq)]
  refine ⟨_, rfl, ?_⟩
  rw [Event.payload, EventRow.payload, Event.timestampText]
  dsimp only
  rw [ht]

/-- An event read from a sound row passes. -/
theorem verifyEvent_of_rowSound {signer : Signer} {row : EventRow} {e : Event}
    (hown : ∀ m, c.verify signer.publicKey m (c.sign signer.privateKey m) = true)
    (hscan : scanEvent row = .ok e) (hpayload : e.payload = row.payload)
    (h : RowSound c strict signer row) : verifyEvent c strict signer e = .ok () := by
  obtain ⟨-, -, -, hprev, hcur, hsig⟩ := scanEvent_eq_ok hscan
  obtain ⟨hhash, hsign⟩ := h
  rw [verifyEvent_eq_ok, hprev, hcur, hsig, hsign, hpayload]
  exact ⟨signer.signHash_ne_nil c _, hhash,
    (signer.verifySignature_signHash c signer _).trans (hown _)⟩

/-- **A log of sound rows passes.** -/
theorem rowsPass_of_isLog {signer : Signer} {rows : List EventRow}
    (hown : ∀ m, c.verify signer.publicKey m (c.sign signer.privateKey m) = true)
    (hne : rows ≠ []) (hlog : rowView.IsLog rows)
    (hsound : ∀ row ∈ rows, RowSound c strict signer row) (htime : ∀ row ∈ rows, TimestampOk row) :
    RowsPass c strict signer rows := by
  refine ⟨hne, hlog.isChain, fun row hrow => ?_⟩
  obtain ⟨e, he, hpayload⟩ := scanEvent_of_timestampOk (hlog.num_lt row hrow).1 (htime row hrow)
  exact ⟨e, he, verifyEvent_of_rowSound c strict hown he hpayload (hsound row hrow)⟩

theorem RowsPass.take {signer : Signer} {rows : List EventRow} (h : RowsPass c strict signer rows)
    {n : Nat} (hn : 0 < n) : RowsPass c strict signer (rows.take n) := by
  refine ⟨?_, h.linked.take n, fun row hrow => h.passes row (List.mem_of_mem_take hrow)⟩
  rw [ne_eq, List.take_eq_nil_iff, not_or]
  exact ⟨hn.ne', h.nonempty⟩

/-- Every row was written for a signed event with a time that can be read back. -/
theorem SignedInv.exists_signed {s : Core}
    (h : SignedInv c strict (fun e => e.timestamp.Representable) s) {row : EventRow}
    (hrow : row ∈ s.rows) : ∃ e ∈ s.signed, encodeEvent e = .ok row ∧ TimestampOk row := by
  obtain ⟨e, he, henc⟩ := h.stored row hrow
  obtain ⟨e₀, he₀, htime⟩ := h.origin e he
  exact ⟨e, he, henc, timestampOk_of_encodeEvent henc (htime ▸ he₀)⟩

section Run

variable {env : GenesisEnv} {signer : Signer} {pool : List Event} {agentName runID : Bytes}
  {s : State}
  (hgen : createGenesisBlock c strict env (initialState signer pool) agentName = (.ok runID, s))
  (calls : List Call) (hnow : env.now.Representable)
  (htimes : ∀ call ∈ calls, (∀ e ∈ call.event, e.timestamp.Representable) ∧
    call.completion.now.Representable)

include hgen hnow htimes

theorem signedInv_representable : SignedInv c strict (fun e => e.timestamp.Representable)
    (processAll c strict (newEventProcessor s runID) calls).core := by
  refine signedInv_processAll c strict hgen calls (fun e he => he ▸ hnow) ?_
  rintro call hcall e (he | he)
  · exact (htimes call hcall).1 e he
  · exact he ▸ (htimes call hcall).2

/-- All rows of a run pass, however many there are. -/
theorem rowsPass_processAll
    (hown : ∀ m, c.verify signer.publicKey m (c.sign signer.privateKey m) = true) :
    RowsPass c strict signer
      ((processAll c strict (newEventProcessor s runID) calls).db.orderedRows runID) := by
  have hinv := runInv_processAll c strict hgen calls
  have hsigned := signedInv_representable c strict hgen calls hnow htimes
  have hpass := rowsPass_of_isLog c strict hown hinv.nonempty hinv.isLog hinv.sound fun row hrow =>
    (hsigned.exists_signed c strict hrow).elim fun e he => he.2.2
  have hlog := hinv.isLog
  rw [hinv.rows_eq] at hpass hlog
  rwa [DB.orderedRows_of_isLog hlog]

/-- What the verifier rebuilds from a row is hashed over the bytes that were signed. -/
theorem hashInput_scanEvent {row : EventRow}
    (hrow : row ∈ (processAll c strict (newEventProcessor s runID) calls).db.rowsOf runID) :
    ∃ e ∈ (processAll c strict (newEventProcessor s runID) calls).signed, ∃ e' x,
      encodeEvent e = .ok row ∧ scanEvent row = .ok e' ∧
      hashInput e.prevHash e.payload = some x ∧ hashInput e'.prevHash e'.payload = some x := by
  have hinv := runInv_processAll c strict hgen calls
  have hsigned := signedInv_representable c strict hgen calls hnow htimes
  have hmem : row ∈ (processAll c strict (newEventProcessor s runID) calls).core.rows := by
    rw [hinv.rows_eq]
    exact hrow
  obtain ⟨e, he, henc, htime⟩ := hsigned.exists_signed c strict hmem
  obtain ⟨e', hscan, hpayload⟩ := scanEvent_of_timestampOk (hinv.isLog.num_lt row hmem).1 htime
  obtain ⟨-, -, x, hx, -⟩ := (calculateEventHash_eq_ok c strict).mp (hsigned.hash e he)
  obtain ⟨w, hw⟩ := exists_normalForm hx
  obtain ⟨-, -, -, hprev, -⟩ := scanEvent_eq_ok hscan
  obtain ⟨_, _, -, -, hcols⟩ := encodeEvent_eq_ok henc
  refine ⟨e, he, e', x, henc, hscan, hx, ?_⟩
  rw [hpayload, hprev, hcols, ← hx]
  exact hashInput_congr ((hcols ▸ normalForm_rowPayload henc hw).trans hw.symm)

end Run

/-- **Completeness of the verifier.** A ledger that was written by `CreateGenesisBlock` and any
`ProcessEvent` calls with one signer is accepted, and every row counts. The payload that is
rebuilt from a row is hashed over the same bytes as the event that was signed. -/
theorem verifyChain_complete {env : GenesisEnv} {signer : Signer} {pool : List Event}
    {agentName runID : Bytes} {s : State}
    (hown : ∀ m, c.verify signer.publicKey m (c.sign signer.privateKey m) = true)
    (hgen : createGenesisBlock c strict env (initialState signer pool) agentName = (.ok runID, s))
    (calls : List Call) (hnow : env.now.Representable)
    (htimes : ∀ call ∈ calls, (∀ e ∈ call.event, e.timestamp.Representable) ∧
      call.completion.now.Representable)
    (hlen : ((processAll c strict (newEventProcessor s runID) calls).db.rowsOf runID).length
      ≤ 100000) :
    let final := processAll c strict (newEventProcessor s runID) calls
    verifyChain c strict (getAllEvents strict {} final.db) runID signer
        = .ok { valid := true, totalEvents := (final.db.rowsOf runID).length } ∧
      ∀ row ∈ final.db.rowsOf runID, ∃ e ∈ final.signed, ∃ e' x, encodeEvent e = .ok row ∧
        scanEvent row = .ok e' ∧ hashInput e.prevHash e.payload = some x ∧
        hashInput e'.prevHash e'.payload = some x := by
  intro final
  refine ⟨?_, fun row hrow => hashInput_scanEvent c strict hgen calls hnow htimes hrow⟩
  obtain ⟨-, -, -, -, -, -, hrun⟩ := createGenesisBlock_eq_ok c strict hgen rfl
  have hpass := rowsPass_processAll c strict hgen calls hnow htimes hown
  have hmax : (final.db.rowsOf runID).length ≤ maxEventRows := hlen
  refine ((verifyChain_store c strict).mpr ⟨hrun, rfl, hpass.take c strict (by decide), ?_⟩).1
  rw [Nat.min_eq_right hmax]

theorem recordedSigner_own (m : Bytes) : recordedCrypto.verify recordedSigner.publicKey m
    (recordedCrypto.sign recordedSigner.privateKey m) = true :=
  Crypto.verify_ofTables (by decide +kernel) m

theorem recordedCalls_representable : ∀ call ∈ recordedCalls,
    (∀ e ∈ call.event, e.timestamp.Representable) ∧ call.completion.now.Representable := by
  decide

theorem recordedRun_rows : ((recordedRun 3).db.rowsOf (lit "run-1")).length = 4 := by
  decide +kernel

theorem verifyChain_complete_recorded :
    verifyChain recordedCrypto true (getAllEvents true {} (recordedRun 3).db) (lit "run-1")
      recordedSigner = .ok { valid := true, totalEvents := 4 } := by
  have h := verifyChain_complete recordedCrypto true recordedSigner_own createGenesisBlock_recorded
    (recordedCalls.take 3) (by decide) recordedCalls_representable
    (recordedRun_rows.trans_le (by decide))
  exact recordedRun_rows ▸ h.1

/-! ## Soundness -/

/-- The two events agree in the fourteen hashed fields, up to normalisation, and in both hashes. -/
structure SameHashed (e e' : Event) : Prop where
  id : sanitize e.id = sanitize e'.id
  runID : sanitize e.runID = sanitize e'.runID
  seqIndex : e.seqIndex = e'.seqIndex
  timestamp : e.timestampText = e'.timestampText
  actor : sanitize e.actor = sanitize e'.actor
  eventType : sanitize e.eventType = sanitize e'.eventType
  method : sanitize e.method = sanitize e'.method
  params : ∃ w, Reads e.params.value w ∧ Reads e'.params.value w
  response : ∃ w, Reads e.response.value w ∧ Reads e'.response.value w
  taskID : sanitize e.taskID = sanitize e'.taskID
  taskState : sanitize e.taskState = sanitize e'.taskState
  parentID : sanitize e.parentID = sanitize e'.parentID
  policyID : sanitize e.policyID = sanitize e'.policyID
  riskLevel : sanitize e.riskLevel = sanitize e'.riskLevel
  prevHash : e.prevHash = e'.prevHash
  currentHash : e.currentHash = e'.currentHash

/-- Among the payloads of these events SHA-256 has no collision. -/
def NoCollision (es : List Event) : Prop :=
  ∀ e ∈ es, ∀ e' ∈ es, ∀ x ∈ hashInput e.prevHash e.payload,
    ∀ x' ∈ hashInput e'.prevHash e'.payload, c.sha256 x = c.sha256 x' → x = x'

instance (es : List Event) : Decidable (NoCollision c es) := by
  unfold NoCollision
  infer_instance

/-- Events with one hash have the same link, and the same payload in normal form. -/
theorem normalForm_eq_of_hash_eq {es : List Event} (hcoll : NoCollision c es) {e e' : Event}
    (he : e ∈ es) (he' : e' ∈ es)
    (hh : calculateEventHash c strict e.prevHash e.payload = .ok e.currentHash)
    (hh' : calculateEventHash c strict e'.prevHash e'.payload = .ok e'.currentHash)
    (heq : e.currentHash = e'.currentHash) :
    e.prevHash = e'.prevHash ∧
      ∃ w, normalForm e.payload = some w ∧ normalForm e'.payload = some w := by
  obtain ⟨-, -, x, hx, hcur⟩ := (calculateEventHash_eq_ok c strict).mp hh
  obtain ⟨-, -, x', hx', hcur'⟩ := (calculateEventHash_eq_ok c strict).mp hh'
  have hsha : c.sha256 x = c.sha256 x' :=
    hexEncode_injective (hcur.symm.trans (heq.trans hcur'))
  obtain rfl := hcoll e he e' he' x hx x' hx' hsha
  exact hashInput_injective hx hx'

/-- **Equal hashes, equal events.** Only numbers below `2 ^ 53` are told apart. -/
theorem sameHashed_of_hash_eq {es : List Event} (hcoll : NoCollision c es) {e e' : Event}
    (he : e ∈ es) (he' : e' ∈ es) (hseq : e'.seqIndex < 2 ^ 53)
    (hh : calculateEventHash c strict e.prevHash e.payload = .ok e.currentHash)
    (hh' : calculateEventHash c strict e'.prevHash e'.payload = .ok e'.currentHash)
    (heq : e.currentHash = e'.currentHash) : SameHashed e e' := by
  obtain ⟨hprev, w, hw, hw'⟩ := normalForm_eq_of_hash_eq c strict hcoll he he' hh hh' heq
  obtain ⟨n, p, r, hn, hp, hr, rfl⟩ := normalForm_payload.mp hw
  obtain ⟨n', p', r', hn', hp', hr', hmem⟩ := normalForm_payload.mp hw'
  simp only [normalPayload, Value.map.injEq, List.cons.injEq, Prod.mk.injEq, Value.string.injEq,
    Value.float64.injEq, true_and, and_true] at hmem
  obtain ⟨hactor, htype, hid, hmethod, rfl, hparent, hpolicy, rfl, hrisk, hrun, rfl, htask, hstate,
    htime⟩ := hmem
  refine ⟨hid, hrun, ?_, ?_, hactor, htype, hmethod, ⟨p, hp, hp'⟩, ⟨r, hr, hr'⟩, htask, hstate,
    hparent, hpolicy, hrisk, hprev, heq⟩
  · refine natCast_eq_of_round64_eq hseq ?_
    rw [← Float64.val_of_ofRat? hn, ← Float64.val_of_ofRat? hn']
  · -- the text of a time is valid UTF-8, so nothing in it was replaced
    have hvalid : ∀ e : Event, sanitize e.timestampText = e.timestampText :=
      fun e => validUtf8_utf8 _
    rwa [hvalid, hvalid] at htime

/-- The second event links to the first and has the next number. -/
def Succeeds (a b : Event) : Prop := b.prevHash = a.currentHash ∧ b.seqIndex = a.seqIndex + 1

/-- The verifier does not compare numbers. They are consecutive because the signed event behind
the second one links to a signed event with the previous number, and that can only be the one
behind the first. -/
theorem SignedInv.succeeds {P : Event → Prop} {s : Core} {es : List Event}
    (h : SignedInv c strict P s) (hcoll : NoCollision c es) (hsub : ∀ e ∈ s.signed, e ∈ es)
    (hcount : s.rows.length < 2 ^ 53) (hzero : ∀ e ∈ s.signed, e.currentHash ≠ zeroHash)
    {a b a' b' : Event} (ha' : a' ∈ s.signed) (hb' : b' ∈ s.signed) (ha : SameHashed a a')
    (hb : SameHashed b b') (hlink : Links a b) : Succeeds a b := by
  refine ⟨hlink, ?_⟩
  have htip : b'.prevHash = a'.currentHash :=
    hb.prevHash.symm.trans (hlink.trans ha.currentHash)
  rcases h.prev b' hb' with ⟨-, hstart⟩ | ⟨y, hy, hseq, hcur⟩
  · exact absurd (htip.symm.trans hstart) (hzero a' ha')
  · have hsame : SameHashed y a' := sameHashed_of_hash_eq c strict hcoll (hsub y hy)
      (hsub a' ha') ((h.seq_le a' ha').trans_lt hcount) (h.hash y hy) (h.hash a' ha')
      (hcur.trans htip)
    rw [hb.seqIndex, ha.seqIndex, ← hseq, hsame.seqIndex]

/-- **Soundness of the verifier.** Whatever list of events is presented for the run, if it is
accepted then each of them is an event that was signed during the run, and each one follows the
one before it. SHA-256 is assumed to have no collision among the events at hand and not to give
the zero hash, and a hash to verify only if it was signed. -/
theorem verifyChain_sound {env : GenesisEnv} {signer : Signer} {pool : List Event}
    {agentName runID : Bytes} {s : State}
    (hgen : createGenesisBlock c strict env (initialState signer pool) agentName = (.ok runID, s))
    (calls : List Call) (reader : Bytes → Except Fault (List Event)) (events : List Event)
    (hcount : ((processAll c strict (newEventProcessor s runID) calls).db.rowsOf runID).length
      < 2 ^ 53)
    (hcoll : NoCollision c
      ((processAll c strict (newEventProcessor s runID) calls).signed ++ events))
    (hzero : ∀ e ∈ (processAll c strict (newEventProcessor s runID) calls).signed,
      e.currentHash ≠ zeroHash)
    (hforge : ∀ e ∈ events, signer.verifySignature c e.currentHash e.signature = true →
      ∃ e' ∈ (processAll c strict (newEventProcessor s runID) calls).signed,
        e'.currentHash = e.currentHash)
    (hread : reader runID = .ok events) (hvalid : Accepts c strict reader runID signer) :
    (∀ e ∈ events, ∃ e' ∈ (processAll c strict (newEventProcessor s runID) calls).signed,
      SameHashed e e') ∧ events.IsChain Succeeds := by
  have hinv := runInv_processAll c strict hgen calls
  have hsigned := signedInv_processAll c strict (P := fun _ => True) hgen calls
    (fun _ _ => trivial) fun _ _ _ _ => trivial
  rw [← hinv.rows_eq] at hcount
  obtain ⟨-, es, hes, hv⟩ := (accepts_iff c strict).mp hvalid
  obtain rfl : events = es := Except.ok.inj (hread.symm.trans hes)
  have hmatch : ∀ e ∈ events, ∃ e' ∈ (processAll c strict (newEventProcessor s runID) calls).signed,
      SameHashed e e' := by
    intro e he
    obtain ⟨-, hhash, hver⟩ := (verifyEvent_eq_ok c strict).mp (hv.sound e he)
    obtain ⟨e', he', hcur⟩ := hforge e he hver
    exact ⟨e', he', sameHashed_of_hash_eq c strict hcoll (List.mem_append_right _ he)
      (List.mem_append_left _ he') ((hsigned.seq_le e' he').trans_lt hcount) hhash
      (hsigned.hash e' he') hcur.symm⟩
  refine ⟨hmatch, (hv.linked.imp_of_mem_imp ?_)⟩
  intro a b ha hb hlink
  obtain ⟨a', ha', hsa⟩ := hmatch a ha
  obtain ⟨b', hb', hsb⟩ := hmatch b hb
  exact hsigned.succeeds c strict hcoll (fun e he => List.mem_append_left _ he) hcount hzero ha' hb'
    hsa hsb hlink

/-- The three events that the first calls signed, the last of which was never stored. -/
def recordedBranch : List Event := (recordedRun 2).signed

-- The record of the state is evaluated here once. To compare it with `recordedBranch` later on
-- would make the kernel run the calls again.
theorem recordedBranch_ok : ((recordedRun 2).db.rowsOf (lit "run-1")).length < 2 ^ 53 ∧
    NoCollision recordedCrypto ((recordedRun 2).signed ++ recordedBranch) ∧
    (∀ e ∈ (recordedRun 2).signed, e.currentHash ≠ zeroHash) ∧
    (∀ e ∈ recordedBranch, ∃ e' ∈ (recordedRun 2).signed, e'.currentHash = e.currentHash) ∧
    verifyChain recordedCrypto true (fun _ => .ok recordedBranch) (lit "run-1") recordedSigner
      = .ok { valid := true, totalEvents := 3 } := by
  decide +kernel

theorem verifyChain_sound_recorded :
    (∀ e ∈ recordedBranch, ∃ e' ∈ (recordedRun 2).signed, SameHashed e e') ∧
      recordedBranch.IsChain Succeeds := by
  obtain ⟨hcount, hcoll, hzero, hforge, hver⟩ := recordedBranch_ok
  exact verifyChain_sound recordedCrypto true createGenesisBlock_recorded (recordedCalls.take 2)
    (fun _ => .ok recordedBranch) recordedBranch hcount hcoll hzero (fun e he _ => hforge e he) rfl
    ⟨_, hver, rfl⟩

end Logryph
