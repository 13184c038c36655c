import Logryph.Interceptor
import Logryph.LedgerOk

/-!
# When the worker goes on

The goroutine that empties the ring buffer has nobody to report to: an assertion that trips there
ends the process. With a repository that does not fail and ids of their own, the events of the
messages that pass the proxy are all stored, and then go back to the pool, where their maps are
counted for the first time.

* `Sent.storable` — whatever a message says, its event can be hashed and stored
* `handleEvent_cases` — handling an event fails exactly when its maps are too large for the pool
* `drain_cases` — the loop handles every event, or stops at one that is too large
* `drain_ok_iff` — so the loop goes on exactly when no message in the buffer has too many entries
-/

namespace Logryph

open Infra

/-! ## The event of a message -/

/-- A message that passes the proxy. -/
inductive Message where
  | request (body : Bytes)
  | response (body : Bytes)

namespace Message

def intercept (strict : Bool) (env : MessageEnv) (eng : Engine) :
    Message → Except Fault Unit × Effect
  | request body => interceptBody strict env eng body
  | response body => interceptResponse strict env eng body

/-- The number of members of `params` in a request, and of `result` in a response. -/
def entries : Message → Nat
  | request body => mapLen ((unmarshalRequest body).bind MCPRequest.params)
  | response body => mapLen ((unmarshalResponse body).bind MCPResponse.result)

end Message

theorem interceptResponse_submitted {strict : Bool} {env : MessageEnv} {eng : Engine} {body : Bytes}
    {e : Event} (h : (interceptResponse strict env eng body).2.submitted = some e) :
    ∃ resp, unmarshalResponse body = some resp ∧
      e = toolResponseEvent env resp (getEvent env.pick eng.worker.state.pool).1 := by
  unfold interceptResponse at h
  split at h
  · cases h
  · next resp hresp =>
    split at h
    · cases h
      exact ⟨resp, hresp, rfl⟩
    · cases h

/-- The maps are small enough for the event to go back to the pool. -/
def Event.Fits (e : Event) : Prop :=
  mapLen e.params ≤ maxEventFields ∧ mapLen e.response ≤ maxEventFields

/-- A message that was intercepted, and the event that was submitted for it. -/
structure Sent where
  message : Message
  env : MessageEnv
  engine : Engine
  event : Event
  pool : ∀ e ∈ engine.worker.state.pool, Clean e
  id : env.id ≠ []
  submitted : (message.intercept true env engine).2.submitted = some event

namespace Sent

/-- **The event of a message can be stored**, and its larger map is the one that came with the
message. -/
theorem storable (sent : Sent) :
    Storable sent.event ∧ (sent.event.Fits ↔ sent.message.entries ≤ maxEventFields) := by
  obtain ⟨message, env, engine, e, hpool, hid, h⟩ := sent
  obtain ⟨⟨-, hparams, hresponse⟩, -⟩ := clean_getEvent hpool env.pick
  cases message with
  | request body =>
    obtain ⟨req, taskID, method, action, rule, parentID, hextract, -, rfl⟩ :=
      interceptBody_submitted true h
    obtain ⟨-, -, hreq, -⟩ := (extractTaskMetadata_eq_ok true).mp hextract
    refine ⟨⟨hid, ⟨_, (readsAs_of_shallow (unmarshalRequest_shallow hreq)).reads⟩,
      exists_reads_of_mapLen hresponse⟩, ?_⟩
    rw [Message.entries, hreq]
    refine and_iff_left ?_
    exact hresponse.le.trans (Nat.zero_le _)
  | response body =>
    obtain ⟨resp, hresp, rfl⟩ := interceptResponse_submitted h
    refine ⟨⟨hid, exists_reads_of_mapLen hparams,
      ⟨_, (readsAs_of_shallow (unmarshalResponse_shallow hresp).1).reads⟩⟩, ?_⟩
    rw [Message.entries, hresp]
    refine and_iff_right ?_
    exact hparams.le.trans (Nat.zero_le _)

theorem event_id (sent : Sent) : sent.event.id = sent.env.id := by
  obtain ⟨message, env, engine, e, -, -, h⟩ := sent
  cases message with
  | request body =>
    obtain ⟨req, taskID, method, action, rule, parentID, -, -, rfl⟩ :=
      interceptBody_submitted true h
    rfl
  | response body =>
    obtain ⟨resp, -, rfl⟩ := interceptResponse_submitted h
    rfl

end Sent

/-! ## Handling one event -/

namespace Worker

variable (c : Crypto)

theorem recordLatency_ok (strict : Bool) (w : Worker) {d : Int} (h : 0 ≤ d) :
    ∃ latency, recordLatency strict w d = (.ok (), { w with latency }) := by
  unfold recordLatency quietCheck
  rw [decide_eq_true h]
  exact ⟨_, rfl⟩

/-- What `ProcessEvent` is called with. -/
def HandleEnv.call (env : HandleEnv) (e : Event) : Call := ⟨some e, env.faults, env.completion⟩

/-- **Handling an event trips an assertion exactly when its maps are too large.** By then the event
is already stored. -/
theorem handleEvent_cases {signer : Signer} {runID : Bytes} {w : Worker} {env : HandleEnv}
    {e : Event} (h : Ready c true signer runID w.state) (hcall : CallOk (env.call e))
    (hnodup : (env.call e).ids.Nodup) (hfresh : ∀ id ∈ (env.call e).ids, id ∉ w.state.ids)
    (hroom : w.state.core.rows.length + 1 < 2 ^ 63) (hduration : 0 ≤ env.duration) :
    (e.Fits ∧ ∃ w', handleEvent c true env w e = (.ok (), w') ∧
        w'.ringBuffer = w.ringBuffer ∧
        Leaves c true signer runID w.state w'.state (env.call e).ids) ∨
      ¬ e.Fits ∧ ∃ msg w', handleEvent c true env w e = (.error (.panic msg), w') := by
  obtain ⟨s, hs, hleaves, -⟩ := processEvent_ok_of_callOk c true h hcall hnodup hfresh hroom
  obtain ⟨latency, hlatency⟩ := recordLatency_ok true
    { w with state := s, isUnhealthy := w.isUnhealthy || false } hduration
  have hhandle : handleEvent c true env w e
      = ((putEvent true s.pool e).1, { w with
          state := { s with pool := (putEvent true s.pool e).2 }
          isUnhealthy := w.isUnhealthy || false
          latency
          processedEvents := w.processedEvents + 1 }) := by
    unfold handleEvent
    rw [show processEvent c true w.state ⟨some e, env.faults, env.completion⟩ = (.ok (), s) from hs]
    dsimp only
    rw [hlatency]
    rfl
  by_cases hfits : e.Fits
  · obtain ⟨hp, hr⟩ := hfits
    have hput : putEvent true s.pool e = (.ok (), clearEvent e :: s.pool) := by
      unfold putEvent
      rw [if_pos hp, if_pos hr]
    rw [hput] at hhandle
    refine Or.inl ⟨⟨hp, hr⟩, _, hhandle, rfl, ?_⟩
    refine ⟨⟨hleaves.ready.inv, hleaves.ready.runID_ne, fun x hx => ?_⟩, hleaves.ids, hleaves.rows,
      hleaves.rows_le⟩
    rcases List.mem_cons.mp hx with rfl | hx
    · exact clean_clearEvent hp hr
    · exact hleaves.ready.pool x hx
  · obtain ⟨msg, hput⟩ := putEvent_panics s.pool hfits
    rw [hput] at hhandle
    exact Or.inr ⟨hfits, msg, _, hhandle⟩

/-! ## The loop -/

/-- The calls that the loop makes for the events of the buffer, from iteration `j` on. -/
def calls (envs : Nat → HandleEnv) (j : Nat) (events : List Event) : List Call :=
  (events.zipIdx j).map fun p => (envs p.2).call p.1

/-- What the loop takes from outside: a repository that does not fail, ids that are not in use, and
a clock that does not run backwards. -/
structure Undisturbed (envs : Nat → HandleEnv) (j : Nat) (events : List Event) (s : State) :
    Prop where
  faults : ∀ i, (envs i).faults = {} ∧ (envs i).completion.faults = {}
  completionId : ∀ i, (envs i).completion.id ≠ []
  duration : ∀ i, 0 ≤ (envs i).duration
  nodup : ((calls envs j events).flatMap Call.ids).Nodup
  fresh : ∀ id ∈ (calls envs j events).flatMap Call.ids, id ∉ s.ids
  room : s.core.rows.length + 2 * events.length < 2 ^ 63

theorem Undisturbed.callOk {envs : Nat → HandleEnv} {j : Nat} {events : List Event} {s : State}
    (h : Undisturbed envs j events s) (i : Nat) {e : Event} (he : Storable e) :
    CallOk ((envs i).call e) :=
  ⟨⟨e, rfl, he⟩, (h.faults i).1, (h.faults i).2, h.completionId i⟩

/-- What is left of it after the first event. -/
theorem Undisturbed.tail {signer : Signer} {runID : Bytes} {envs : Nat → HandleEnv} {j : Nat}
    {e : Event} {events : List Event} {s s' : State} (h : Undisturbed envs j (e :: events) s)
    (hleaves : Leaves c true signer runID s s' ((envs j).call e).ids) :
    Undisturbed envs (j + 1) events s' := by
  have hcons : (calls envs j (e :: events)).flatMap Call.ids
      = ((envs j).call e).ids ++ (calls envs (j + 1) events).flatMap Call.ids := rfl
  have hnodup := h.nodup
  have hfresh := h.fresh
  rw [hcons] at hnodup hfresh
  obtain ⟨-, htail, hdisj⟩ := List.nodup_append.mp hnodup
  refine ⟨h.faults, h.completionId, h.duration, htail, fun id hid hmem => ?_, ?_⟩
  · rcases hleaves.ids id hmem with hold | hnew
    · exact hfresh id (List.mem_append_right _ hid) hold
    · exact hdisj id hnew id hid rfl
  · have hroom := h.room
    have hrows := hleaves.rows_le
    rw [show ((envs j).call e).ids.length = 2 from rfl] at hrows
    rw [List.length_cons] at hroom
    omega

/-- **What the loop does** with events that can be stored: it handles all of them, or an assertion
trips at one that is too large for the pool. -/
theorem drain_cases {signer : Signer} {runID : Bytes} (envs : Nat → HandleEnv) :
    ∀ (events : List Event) (n j : Nat) (w : Worker), Ready c true signer runID w.state →
      w.ringBuffer.Holds events → (∀ e ∈ events, Storable e) →
      Undisturbed envs j events w.state → events.length ≤ n →
      ((∀ e ∈ events, e.Fits) ∧ ∃ w', drain c true envs n j w = (.ok (), w')) ∨
        ¬ (∀ e ∈ events, e.Fits) ∧ ∃ msg w', drain c true envs n j w = (.error (.panic msg), w')
  | [], n, j, w, _, hring, _, _, _ => by
    have hempty : w.ringBuffer.isEmpty = true := hring.isEmpty_iff.mpr rfl
    refine Or.inl ⟨List.forall_mem_nil _, w, ?_⟩
    cases n with
    | zero => rfl
    | succ n => rw [drain, if_pos hempty]
  | e :: events, 0, _, _, _, _, _, _, hn => absurd hn (by simp)
  | e :: events, n + 1, j, w, hready, hring, hevents, hout, hn => by
    rw [List.forall_mem_cons] at hevents ⊢
    have hne : ¬ w.ringBuffer.isEmpty = true := fun h =>
      absurd (hring.isEmpty_iff.mp h) (by simp)
    have hroom : w.state.core.rows.length + 1 < 2 ^ 63 := by
      have := hout.room
      rw [List.length_cons] at this
      omega
    obtain ⟨ring, hpop, hring', -⟩ := Buffer.pop_ok true hring
    rw [drain, if_neg hne, hpop]
    dsimp only
    rcases handleEvent_cases c (w := { w with ringBuffer := ring }) hready
      (hout.callOk j hevents.1) (List.nodup_append.mp hout.nodup).1
      (fun id hid => hout.fresh id (List.mem_append_left _ hid)) hroom (hout.duration j) with
      ⟨hfits, w', hhandle, hkeep, hleaves⟩ | ⟨hlarge, msg, w', hhandle⟩
    · rw [hhandle, and_iff_right hfits]
      exact drain_cases envs events n (j + 1) w' hleaves.ready (hkeep ▸ hring') hevents.2
        (hout.tail c hleaves) (Nat.le_of_succ_le_succ hn)
    · rw [hhandle]
      exact Or.inr ⟨fun h => hlarge h.1, msg, w', rfl⟩

/-- **The loop goes on exactly when no message is too large.** From a state in which events can be
stored, with a repository that does not fail and ids that are not in use, emptying a buffer that
holds the events of accepted requests and parsed responses trips no assertion if and only if none
of them has more than 256 entries. -/
theorem drain_ok_iff {signer : Signer} {runID : Bytes} (envs : Nat → HandleEnv) (sent : List Sent)
    {n j : Nat} {w : Worker} (hready : Ready c true signer runID w.state)
    (hring : w.ringBuffer.Holds (sent.map Sent.event))
    (hout : Undisturbed envs j (sent.map Sent.event) w.state) (hn : sent.length ≤ n) :
    (drain c true envs n j w).1 = .ok () ↔ ∀ x ∈ sent, x.message.entries ≤ maxEventFields := by
  have hfits : (∀ e ∈ sent.map Sent.event, e.Fits) ↔
      ∀ x ∈ sent, x.message.entries ≤ maxEventFields := by
    rw [List.forall_mem_map]
    exact forall₂_congr fun x _ => x.storable.2
  rcases drain_cases c envs (sent.map Sent.event) n j w hready hring
    (List.forall_mem_map.mpr fun x _ => x.storable.1) hout (by rwa [List.length_map]) with
    ⟨hall, w', hdrain⟩ | ⟨hsome, msg, w', hdrain⟩
  · rw [hdrain]
    exact iff_of_true rfl (hfits.mp hall)
  · rw [hdrain]
    exact iff_of_false (by simp) fun h => hsome (hfits.mpr h)

end Worker

/-! ## A request with many parameters -/

/-- A request with `n` parameters, all of them `null`. -/
def requestTree (n : Nat) : Json :=
  .obj [(['j', 's', 'o', 'n', 'r', 'p', 'c'], .str ['2', '.', '0']),
    (['m', 'e', 't', 'h', 'o', 'd'], .str ['p', 'i', 'n', 'g']),
    (['p', 'a', 'r', 'a', 'm', 's'],
      .obj ((List.range n).reverse.map fun i =>
        ([Char.ofNat (0x61 + i / 26), Char.ofNat (0x61 + i % 26)], .null)))]

def requestBody (n : Nat) : Bytes := utf8 (Json.render goEscape (requestTree n))

/-- What has to be evaluated for the request to be accepted, with `n` parameters. -/
def acceptable (n : Nat) : Bool :=
  decide ((requestTree n).depth ≤ maxDepth) && decide (0 < (requestBody n).length) &&
    decide ((requestBody n).length < 1024 * 1024) &&
    match requestTree n with
    | .obj ms =>
      match Json.setFields MCPRequest.set ms {} with
      | some req => decide (req.method = lit "ping") && decide (req.jsonrpc = lit "2.0") &&
          decide (mapLen req.params = n)
      | none => false
    | _ => false

theorem exists_request {n : Nat} (h : acceptable n = true) :
    ∃ req taskID, extractTaskMetadata true (requestBody n) = .ok (req, taskID, lit "ping") ∧
      mapLen req.params = n := by
  unfold acceptable at h
  rw [requestTree] at h
  simp only [Bool.and_eq_true, decide_eq_true_eq] at h
  obtain ⟨⟨⟨hdepth, hpos⟩, hlt⟩, hset⟩ := h
  split at hset
  · next req hreq =>
    simp only [Bool.and_eq_true, decide_eq_true_eq] at hset
    obtain ⟨⟨hmethod, hversion⟩, hlen⟩ := hset
    have hread : unmarshalRequest (requestBody n) = some req := by
      unfold unmarshalRequest unmarshalStruct
      rw [requestBody, readText_render, requestTree, if_pos hdepth]
      exact hreq
    refine ⟨req, _, (extractTaskMetadata_eq_ok true).mpr
      ⟨hpos, hlt, hread, ?_, hversion, rfl, hmethod.symm⟩, hlen⟩
    rw [hmethod]
    decide
  · cases hset

theorem exists_sent {n : Nat} (h : acceptable n = true) : ∃ x : Sent,
    x.message = .request (requestBody n) ∧ x.env.id = lit "evt-1" ∧ x.message.entries = n := by
  obtain ⟨req, taskID, hextract, hlen⟩ := exists_request h
  obtain ⟨e, he⟩ := interceptBody_plain hextract
    ⟨none, lit "evt-1", recordedEnv.now⟩
  refine ⟨⟨.request (requestBody n), _, plainEngine, e, List.forall_mem_nil _, ?_, he⟩, rfl, rfl,
    ?_⟩
  · decide
  · obtain ⟨-, -, hread, -⟩ := (extractTaskMetadata_eq_ok true).mp hextract
    rw [Message.entries, hread]
    exact hlen

/-- A worker at the start of the recorded run, with one event in its buffer. -/
def recordedWorker (e : Event) : Worker where
  ringBuffer := ⟨[e], 1, 0, 0, 1⟩
  state := newEventProcessor recordedGenesis (lit "run-1")

theorem recordedWorker_holds (e : Event) : (recordedWorker e).ringBuffer.Holds [e] := by
  refine ⟨Nat.one_pos, rfl, Nat.one_pos, show 0 = (0 + 1) % 1 by decide, rfl, Nat.le_refl _,
    fun i x hx => ?_⟩
  show [e][(0 + i) % 1]? = some x
  rw [Nat.mod_one]
  cases i with
  | zero => exact hx
  | succ i => cases hx

theorem recordedWorker_state (e : Event) :
    (recordedWorker e).state = newEventProcessor recordedGenesis (lit "run-1") := rfl

theorem recordedWorker_ready (e : Event) :
    Ready recordedCrypto true recordedSigner (lit "run-1") (recordedWorker e).state := by
  rw [recordedWorker_state]
  exact ready_recorded.1

theorem undisturbed_recorded {e : Event} (hid : e.id = lit "evt-1") :
    Worker.Undisturbed (fun _ => quietEnv) 0 [e] (recordedWorker e).state := by
  have hids : ((Worker.calls (fun _ => quietEnv) 0 [e]).flatMap Call.ids)
      = [lit "evt-1", lit "evt-2"] := by
    rw [← hid]
    rfl
  obtain ⟨-, hused, hrows⟩ := ready_recorded
  rw [recordedWorker_state]
  refine ⟨fun _ => ⟨rfl, rfl⟩, fun _ => by decide, fun _ => Int.le_refl _, ?_, ?_, ?_⟩
  · rw [hids]
    decide
  · rw [hids, hused]
    decide
  · rw [hrows]
    show 1 + 2 * 1 < 2 ^ 63
    decide

theorem acceptable_one : acceptable 1 = true := by decide +kernel

/-- A request with one parameter is handled. -/
theorem drain_ok_one : ∃ x : Sent, x.message = .request (requestBody 1) ∧
    (Worker.drain recordedCrypto true (fun _ => quietEnv) 1 0 (recordedWorker x.event)).1
      = .ok () := by
  obtain ⟨x, hmessage, hid, hentries⟩ := exists_sent acceptable_one
  refine ⟨x, hmessage, (Worker.drain_ok_iff recordedCrypto (fun _ => quietEnv) [x]
    (recordedWorker_ready x.event) (recordedWorker_holds x.event) (undisturbed_recorded ?_)
    (Nat.le_refl _)).mpr ?_⟩
  · rw [x.event_id, hid]
  · rw [List.forall_mem_singleton, hentries]
    decide

theorem acceptable_257 : acceptable 257 = true := by decide +kernel

/-- **A request with 257 parameters ends the process.** It is accepted, its event is stored in a run
that is ready for it, and putting the event back trips an assertion. -/
theorem drain_panics : ∃ x : Sent, x.message = .request (requestBody 257) ∧
    (∃ r, extractTaskMetadata true (requestBody 257) = .ok r) ∧
    Ready recordedCrypto true recordedSigner (lit "run-1") (recordedWorker x.event).state ∧
    (recordedWorker x.event).ringBuffer.Holds [x.event] ∧
    Worker.Undisturbed (fun _ => quietEnv) 0 [x.event] (recordedWorker x.event).state ∧
    ∃ msg, (Worker.drain recordedCrypto true (fun _ => quietEnv) 1 0 (recordedWorker x.event)).1
      = .error (.panic msg) := by
  obtain ⟨req, taskID, hextract, -⟩ := exists_request acceptable_257
  obtain ⟨x, hmessage, hid, hentries⟩ := exists_sent acceptable_257
  have hout := undisturbed_recorded (x.event_id.trans hid)
  refine ⟨x, hmessage, ⟨_, hextract⟩, recordedWorker_ready _, recordedWorker_holds _, hout, ?_⟩
  rcases Worker.drain_cases recordedCrypto (fun _ => quietEnv) [x.event] 1 0
    (recordedWorker x.event) (recordedWorker_ready _) (recordedWorker_holds _)
    (List.forall_mem_singleton.mpr x.storable.1) hout (Nat.le_refl _) with
    ⟨hfits, -⟩ | ⟨-, msg, w, hdrain⟩
  · rw [List.forall_mem_singleton, x.storable.2, hentries] at hfits
    exact absurd hfits (by decide)
  · exact ⟨msg, by rw [hdrain]⟩

end Logryph
