import Logryph.Causal
import Logryph.ReadPaths

/-!
# The replay of a tool call

`ReplayCommand` looks an event up by its id and posts its parameters to a server. `GetEventByID`
reads the column of the parameters into a variable and leaves it there, so that the event has none.

* `replayCommand_body` — whatever was recorded, the body is `null`
* `replay_rejected` — a tool call that was stored can be replayed, and what is sent is no request
-/

namespace Logryph

open Infra

/-- What `ReplayCommand` sends. -/
structure ReplayRequest where
  target : Bytes
  body : Bytes
  /-- The header `X-Logryph-Replay`. -/
  replay : Bytes

def defaultTarget : Bytes := lit "http://localhost:8080"

/-- The target, from the arguments after the event id. -/
def targetURL : List Bytes → Bytes
  | flag :: url :: _ => if flag = lit "--target" then url else defaultTarget
  | _ => defaultTarget

variable (strict : Bool)

/-- `ReplayCommand` up to its request, for the arguments after the name of the command. An error of
`json.Marshal` is ignored. -/
def replayCommand (fault : Option Bytes) (db : DB) : List Bytes → Except Fault ReplayRequest
  | [] => .error (.error (lit "Usage: logyctl replay <event-id> [--target http://localhost:8080]"))
  | eventID :: rest => do
    let event ← inContext (lit "Failed to find event") (getEventByID strict fault db eventID)
    if event.eventType ≠ lit "tool_call" then
      .error (.error (lit "Can only replay events of type 'tool_call' (found: " ++
        event.eventType ++ lit ")"))
    else
      .ok ⟨targetURL rest, (marshal event.params.value).getD [], event.id⟩

/-- **The replay is the recorded call**: what is sent would be accepted, with the method and the
parameters of the event. -/
def Replayed (fault : Option Bytes) (db : DB) (rest : List Bytes) (e : Event) : Prop :=
  ∃ r req taskID, replayCommand strict fault db (e.id :: rest) = .ok r ∧
    extractTaskMetadata strict r.body = .ok (req, taskID, e.method) ∧ req.params = e.params

/-- **The body is always `null`.** -/
theorem replayCommand_body {fault : Option Bytes} {db : DB} {args : List Bytes} {r : ReplayRequest}
    (h : replayCommand strict fault db args = .ok r) : r.body = lit "null" := by
  cases args with
  | nil => cases h
  | cons eventID rest =>
    rw [replayCommand, bind_eq_ok] at h
    obtain ⟨event, hget, h⟩ := h
    rw [inContext_eq_ok] at hget
    split at h
    · cases h
    · cases h
      -- `GetEventByID` scans the parameters into a text and leaves the map nil
      obtain ⟨row, -, rfl⟩ := row_of_getEventByID strict hget
      have hnull : (marshal (Object.value none)).getD [] = lit "null" := by decide +kernel
      exact hnull

/-- That is not a request: it is read, and has no method. -/
theorem extractTaskMetadata_null {req : MCPRequest} {taskID method : Bytes} :
    extractTaskMetadata strict (lit "null") ≠ .ok (req, taskID, method) := by
  intro h
  obtain ⟨-, -, hread, hmethod, -⟩ := (extractTaskMetadata_eq_ok strict).mp h
  have hnone : ((unmarshalRequest (lit "null")).map MCPRequest.method) = some [] := by
    decide +kernel
  rw [hread] at hnone
  exact hmethod (Option.some.inj hnone)

theorem scanWithTask_ok (context eventID : Bytes) {row : EventRow} (hseq : 0 ≤ row.seqIndex) :
    scanWithTask context row = .ok ((ReadPath.byID eventID).eventOf row) := by
  rw [scanWithTask, scanColumns, if_neg (not_lt.mpr hseq)]
  rfl

/-- An event is found by its id. -/
theorem getEventByID_of_mem {db : DB} {row : EventRow} (hrow : row ∈ db.events) (hid : row.id ≠ [])
    (hseq : 0 ≤ row.seqIndex) :
    getEventByID strict none db row.id = .ok ((ReadPath.byID row.id).eventOf row) := by
  obtain ⟨row', hfind⟩ : ∃ row', db.events.find? (·.id = row.id) = some row' := by
    rw [← Option.isSome_iff_exists, List.find?_isSome]
    exact ⟨row, hrow, decide_eq_true rfl⟩
  have htest := List.find?_some hfind
  have hsame : row'.id = row.id := of_decide_eq_true htest
  rw [List.inj_on_of_nodup_map db.events_nodup (List.mem_of_find?_eq_some hfind) hrow hsame]
    at hfind
  rw [getEventByID, bind_eq_ok]
  refine ⟨(), check_eq_ok.mpr (decide_eq_true hid), ?_⟩
  rw [hfind]
  exact scanWithTask_ok _ row.id hseq

/-- The row of a tool call can be replayed. -/
theorem replayCommand_of_mem {db : DB} {row : EventRow} (hrow : row ∈ db.events) (hid : row.id ≠ [])
    (hseq : 0 ≤ row.seqIndex) (htype : row.eventType = lit "tool_call") (rest : List Bytes) :
    ∃ r, replayCommand strict none db (row.id :: rest) = .ok r := by
  rw [replayCommand, getEventByID_of_mem strict hrow hid hseq]
  show ∃ r, (if row.eventType ≠ lit "tool_call" then _ else _) = Except.ok r
  rw [if_neg (not_not_intro htype)]
  exact ⟨_, rfl⟩

/-- So can a tool call that was stored through the interceptor, in every later store. -/
theorem replayCommand_stored (c : Crypto) {env : MessageEnv} {eng : Engine} {body : Bytes}
    {e : Event} (hsubmitted : (interceptBody strict env eng body).2.submitted = some e)
    (hid : env.id ≠ []) {faults : RepoFaults} {s s' : State} {e' : Event}
    (hstored : persistEvent c strict faults s e = (.ok e', s')) {db : DB}
    (hlater : s'.db.events ⊆ db.events) (rest : List Bytes) :
    ∃ r, replayCommand strict none db (e.id :: rest) = .ok r := by
  obtain ⟨req, taskID, method, action, rule, parentID, -, -, rfl⟩ :=
    interceptBody_submitted strict hsubmitted
  obtain ⟨hprep, row, db', henc, hadd, rfl⟩ := persistEvent_eq_ok c hstored
  obtain ⟨-, hevents, -⟩ := DB.addEvent_eq_some hadd
  have hrow : row ∈ db.events := hlater (hevents ▸ List.mem_append_right _ List.mem_cons_self)
  obtain ⟨params, response, -, -, rfl⟩ := encodeEvent_eq_ok henc
  obtain ⟨hsame, htype⟩ : e'.id = env.id ∧ e'.eventType = lit "tool_call" := by
    rw [hprep.fields]
    exact ⟨rfl, rfl⟩
  obtain ⟨r, hr⟩ :=
    replayCommand_of_mem strict hrow (hsame ▸ hid) (Int.natCast_nonneg _) htype rest
  dsimp only at hr
  rw [hsame] at hr
  exact ⟨r, hr⟩

/-- **No tool call is replayed.** For every tool call that was stored through the interceptor, in
every later store, `ReplayCommand` sends a request, and nothing that it can send is the recorded
call. -/
theorem replay_rejected (c : Crypto) {env : MessageEnv} {eng : Engine} {body : Bytes} {e : Event}
    (hsubmitted : (interceptBody strict env eng body).2.submitted = some e) (hid : env.id ≠ [])
    {faults : RepoFaults} {s s' : State} {e' : Event}
    (hstored : persistEvent c strict faults s e = (.ok e', s')) {db : DB}
    (hlater : s'.db.events ⊆ db.events) (rest : List Bytes) :
    (∃ r, replayCommand strict none db (e.id :: rest) = .ok r) ∧
      ∀ fault, ¬ Replayed strict fault db rest e := by
  refine ⟨replayCommand_stored strict c hsubmitted hid hstored hlater rest, ?_⟩
  rintro fault ⟨r, req, taskID, hr, hextract, -⟩
  rw [replayCommand_body strict hr] at hextract
  exact extractTaskMetadata_null strict hextract

/-- A tool call of a task. -/
def replayedBody : Bytes := lits [
  "\x7b\"jsonrpc\":\"2.0\",\"id\":1,\"method\":\"tools/call\",",
  "\"params\":\x7b\"task_id\":\"task-1\"\x7d\x7d"]

def replayEnv : MessageEnv where
  id := lit "evt-1"
  now := recordedEnv.now

/-- What is recorded for it, on the store that the recorded start leaves. -/
theorem replayed_evaluated :
    (interceptBody true replayEnv plainEngine replayedBody).2.submitted.any (fun e =>
      e.id = lit "evt-1" ∧ e.method = lit "tools/call" ∧
      marshal e.params.value = some (lit "\x7b\"task_id\":\"task-1\"\x7d") ∧
      (persistEvent Intake.causalCrypto true {}
        (newEventProcessor Intake.causalGenesis (lit "run-1")) e).1.isOk) = true := by
  decide +kernel

/-- The event, and its row in the store. -/
theorem exists_replayed : ∃ e e' s,
    (interceptBody true replayEnv plainEngine replayedBody).2.submitted = some e ∧
    (e.id = lit "evt-1" ∧ e.method = lit "tools/call" ∧
      marshal e.params.value = some (lit "\x7b\"task_id\":\"task-1\"\x7d")) ∧
    persistEvent Intake.causalCrypto true {}
      (newEventProcessor Intake.causalGenesis (lit "run-1")) e = (.ok e', s) := by
  obtain ⟨e, he, hfacts⟩ := (Option.any_eq_true _ _).mp replayed_evaluated
  obtain ⟨hid, hmethod, hparams, hok⟩ := of_decide_eq_true hfacts
  rcases hpersist : persistEvent Intake.causalCrypto true {}
    (newEventProcessor Intake.causalGenesis (lit "run-1")) e with ⟨f | e', s⟩
  · rw [hpersist] at hok
    cases hok
  · exact ⟨e, e', s, he, ⟨hid, hmethod, hparams⟩, hpersist⟩

/-- The call is sent again, but not as a request. -/
theorem replay_rejected_recorded : ∃ e e' s,
    (interceptBody true replayEnv plainEngine replayedBody).2.submitted = some e ∧
    persistEvent Intake.causalCrypto true {}
      (newEventProcessor Intake.causalGenesis (lit "run-1")) e = (.ok e', s) ∧
    (∃ r, replayCommand true none s.db [e.id] = .ok r) ∧ ¬ Replayed true none s.db [] e := by
  obtain ⟨e, e', s, he, -, hpersist⟩ := exists_replayed
  obtain ⟨hsent, hrejected⟩ := @replay_rejected true Intake.causalCrypto replayEnv plainEngine
    replayedBody e he (by decide) {} _ s e' hpersist s.db (List.Subset.refl _) []
  exact ⟨e, e', s, he, hpersist, hsent, hrejected none⟩

/-- **A recorded call is replayed as `null`**, which is refused. -/
theorem replay_sends_null : ∃ e e' s r,
    (interceptBody true replayEnv plainEngine replayedBody).2.submitted = some e ∧
    e.method = lit "tools/call" ∧
    marshal e.params.value = some (lit "\x7b\"task_id\":\"task-1\"\x7d") ∧
    persistEvent Intake.causalCrypto true {}
      (newEventProcessor Intake.causalGenesis (lit "run-1")) e = (.ok e', s) ∧
    replayCommand true none s.db [lit "evt-1"] = .ok r ∧ r.body = lit "null" ∧
    ∀ x, extractTaskMetadata true r.body ≠ .ok x := by
  obtain ⟨e, e', s, he, ⟨hid, hmethod, hparams⟩, hpersist⟩ := exists_replayed
  obtain ⟨r, hr⟩ := replayCommand_stored true _ he (by decide) hpersist (List.Subset.refl _) []
  have hbody := replayCommand_body true hr
  rw [hid] at hr
  refine ⟨e, e', s, r, he, hmethod, hparams, hpersist, hr, hbody, fun x hx => ?_⟩
  rw [hbody] at hx
  exact extractTaskMetadata_null true hx

end Logryph
