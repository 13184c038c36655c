import Logryph.Causal
import Logryph.Responses

/-!
# A failure, and the responses after it

When an event cannot be processed, the worker is marked as unhealthy, and nothing takes the mark
away. `InterceptResponse` returns without a word when it finds the mark; `InterceptRequest` does not
look at it.

* `Intake.Records` — requests and responses are recorded, and no response is lost on the way
* `consumerStep_isUnhealthy` — when the mark is set
* `ProcessPc.Handles.stored_of_ended` — an event whose processing has succeeded is stored
* `responses_recorded_iff` — responses are recorded as long as no processing has failed, and no
  response was pushed into a full buffer
* `response_skipped` — after one failure, a later tool call is stored and a later response is not
-/

namespace Logryph

open Infra

/-! ## Valid requests -/

/-- A request that passes every check on its way to `Submit`. -/
structure ValidRequest (strict : Bool) (policies : List Rule) (body : Bytes) (req : MCPRequest)
    (taskID method : Bytes) (action : PolicyAction) (rule : Option Rule) : Prop where
  accepted : extractTaskMetadata strict body = .ok (req, taskID, method)
  selected : evaluatePolicy strict policies method req.params = .ok (action, rule)
  redacted : ∀ r, action = .redact → rule = some r →
    ∃ scrubbed, redactSensitiveData strict body r.redact = .ok scrubbed
  policyID : ∃ x, policyIDOrEmpty strict rule = .ok x
  riskLevel : ∃ x, riskLevelOrEmpty strict rule = .ok x

section

variable {strict : Bool} {policies : List Rule} {body taskID method : Bytes} {req : MCPRequest}
  {action : PolicyAction} {rule : Option Rule}

theorem ValidRequest.logAndSubmit_eq
    (h : ValidRequest strict policies body req taskID method action rule) (env : MessageEnv)
    (eng : Engine) : logAndSubmit strict env eng rule taskID req
      = submitToolCallEvent strict env eng taskID req rule := by
  obtain ⟨x, hx⟩ := h.policyID
  obtain ⟨y, hy⟩ := h.riskLevel
  rw [logAndSubmit, hx, hy]

/-- **A valid request is submitted**, whatever the worker is like. -/
theorem ValidRequest.submitted
    (h : ValidRequest strict policies body req taskID method action rule) (env : MessageEnv)
    {eng : Engine} (hpolicies : eng.policies = policies) : ∃ e,
      (interceptBody strict env eng body).2.submitted = some e ∧
        e.eventType = lit "tool_call" := by
  obtain ⟨-, -, -, hmethod, -, -, rfl⟩ := (extractTaskMetadata_eq_ok strict).mp h.accepted
  obtain ⟨parentID, hsubmitted⟩ := submitToolCallEvent_submitted strict env eng taskID req rule
  refine ⟨toolCallEvent env taskID req rule parentID (getEvent env.pick eng.worker.state.pool).1,
    ?_, rfl⟩
  rw [interceptBody, h.accepted]
  dsimp only
  rw [hpolicies, h.selected]
  dsimp only
  rw [onlyPanic_snd]
  unfold applyRedactionAndSubmit
  rw [decide_eq_true hmethod]
  have hlogged := h.logAndSubmit_eq env eng ▸ hsubmitted
  cases action with
  | redact =>
    cases rule with
    | none => exact hlogged
    | some r =>
      obtain ⟨scrubbed, hscrubbed⟩ := h.redacted r rfl rfl
      dsimp only [check, if_true]
      rw [hscrubbed]
      exact hlogged
  | _ => exact hlogged

end

/-! ## What is recorded -/

def Event.isResponse (e : Event) : Bool := e.eventType = lit "tool_response"

/-- **Messages are recorded**: what is intercepted now leads to an event, and no response so far was
handed to `Submit` and then neither queued nor stored nor counted as dropped. -/
structure Intake.Records (strict : Bool) (t : Intake) : Prop where
  response : ∀ env eng body resp, eng.worker = t.pipeline.memory.worker →
    unmarshalResponse body = some resp →
    ∃ e, (interceptResponse strict env eng body).2.submitted = some e ∧
      e.eventType = lit "tool_response"
  request : ∀ env eng body req taskID method action rule,
    eng.worker = t.pipeline.memory.worker →
    ValidRequest strict eng.policies body req taskID method action rule →
    ∃ e, (interceptBody strict env eng body).2.submitted = some e ∧ e.eventType = lit "tool_call"
  kept : ∀ s ∈ t.pipeline.submits, s.event.isResponse = true → s.pc ≠ .lost
  stored : ∀ item ∈ t.pipeline.memory.handled, item.event.isResponse = true → item.stored = true

/-- The part of it that is about the pipeline. -/
structure Pipeline.Healthy (p : Pipeline) : Prop where
  unmarked : p.memory.worker.isUnhealthy = false
  kept : ∀ s ∈ p.submits, s.event.isResponse = true → s.pc ≠ .lost
  stored : ∀ item ∈ p.memory.handled, item.event.isResponse = true → item.stored = true

theorem Intake.records_iff {strict : Bool} {t : Intake} :
    t.Records strict ↔ t.pipeline.Healthy := by
  constructor
  · intro h
    refine ⟨?_, h.kept, h.stored⟩
    -- there is a response that can be read
    obtain ⟨resp, hresp, -⟩ := Option.bind_eq_some_iff.mp results_evaluated.1
    obtain ⟨e, he, -⟩ := h.response responseEnv { plainEngine with
      worker := t.pipeline.memory.worker } _ resp rfl hresp
    rw [interceptResponse, hresp] at he
    dsimp only at he
    split at he
    · next hhealthy =>
      rw [Worker.isHealthy, Bool.not_eq_true'] at hhealthy
      exact hhealthy
    · cases he
  · intro h
    refine ⟨fun env eng body resp hworker hresp => ?_, fun env eng body req taskID method action
      rule _ hvalid => hvalid.submitted env rfl, h.kept, h.stored⟩
    have hhealthy : eng.worker.isHealthy = true := by
      rw [hworker, Worker.isHealthy, h.unmarked]
      rfl
    exact ⟨_, interceptResponse_healthy hresp hhealthy, rfl⟩

/-! ## The mark -/

/-- An event was not processed, or the buffer is too large to be emptied. -/
def ConsumerPc.fails (w : Worker) : ConsumerPc → Bool
  | capacity _ => maxDrainEvents < w.ringBuffer.capacity
  | draining _ (.process _ _ (.ended result)) => !result.isOk
  | _ => false

section

variable {c : Crypto} {strict : Bool} {env : Worker.HandleEnv} {m m' : Memory} {q q' : List Event}

theorem finishEvent_isUnhealthy {duration : Int} {w w' : Worker} {e : Event}
    {result : Except Fault Unit} (h : finishEvent strict duration w e result = (.ok (), w')) :
    w'.isUnhealthy = (w.isUnhealthy || !result.isOk) := by
  unfold finishEvent at h
  split at h
  · cases h
  · split at h
    · cases h
    · next w₁ hlatency =>
      obtain ⟨latency, rfl⟩ := recordLatency_ok_cases strict hlatency
      obtain ⟨-, rfl⟩ := Prod.mk.inj h
      rfl

theorem loopStep_isUnhealthy {pc pc' : LoopPc} (h : loopStep c strict env m pc = some (m', pc'))
    (i : Nat) : m'.worker.isUnhealthy
      = (m.worker.isUnhealthy || (ConsumerPc.draining i pc).fails m.worker) := by
  cases pc with
  | test j =>
    rw [loopStep] at h
    split at h
    · cases h
      exact (Bool.or_false _).symm
    · cases h
      exact (Bool.or_false _).symm
  | pop j =>
    rw [loopStep] at h
    split at h
    · cases h
    · cases h
      exact (Bool.or_false _).symm
    · cases h
      exact (Bool.or_false _).symm
  | process j item pc =>
    cases pc with
    | ended result =>
      rw [loopStep] at h
      split at h
      · cases h
      · next worker hfinish =>
        cases h
        exact finishEvent_isUnhealthy hfinish
    | _ =>
      cases h
      exact (Bool.or_false _).symm
  | left => cases h

/-- **When the mark is set.** It stays, and a failure adds it. -/
theorem consumerStep_isUnhealthy {pc pc' : ConsumerPc}
    (h : consumerStep c strict env m pc = some (m', pc')) :
    m'.worker.isUnhealthy = (m.worker.isUnhealthy || pc.fails m.worker) := by
  cases pc with
  | waiting i =>
    rw [consumerStep] at h
    split at h
    · split at h
      · cases h
        exact (Bool.or_false _).symm
      · split at h
        · cases h
          exact (Bool.or_false _).symm
        · cases h
    · split at h
      · cases h
      · cases h
        exact (Bool.or_false _).symm
  | capacity i =>
    rw [consumerStep] at h
    split at h
    · cases h
    · next hcheck =>
      cases h
      rw [ConsumerPc.fails, decide_eq_true (checkCapacity_error strict hcheck).2, Bool.or_true]
    · next hcheck =>
      cases h
      have hcap := (checkCapacity_eq_ok strict).mp hcheck
      rw [ConsumerPc.fails, decide_eq_false (not_lt.mpr hcap), Bool.or_false]
  | draining i pc =>
    rw [consumerStep] at h
    split at h
    · cases h
    · next m₁ hloop =>
      cases h
      exact loopStep_isUnhealthy hloop i
    · next m₁ pc₁ _ hloop =>
      cases h
      exact loopStep_isUnhealthy hloop i
  | stopped => cases h

/-- `Submit` does not touch the mark, or what was handled. -/
theorem SubmitStep.unmarked {e : Event} {pc pc' : SubmitPc} (h : SubmitStep m e q pc m' pc' q') :
    m'.worker.isUnhealthy = m.worker.isUnhealthy ∧ m'.handled = m.handled := by
  cases h <;> exact ⟨rfl, rfl⟩

/-- An event is lost by a `Push` into a full buffer. -/
theorem SubmitStep.lost_iff (hq : m.worker.ringBuffer.Holds q) {e : Event} {pc pc' : SubmitPc}
    (h : SubmitStep m e q pc m' pc' q') :
    pc' = .lost ↔ pc = .push ∧ m.worker.ringBuffer.isFull = true := by
  rw [hq.isFull_iff]
  cases h with
  | drop before push => exact iff_of_false (nomatch ·) fun h => push h.1
  | enter running after =>
    refine iff_of_false ?_ fun h => nomatch h.1
    rintro rfl
    cases after
  | goOn before push after =>
    refine iff_of_false ?_ fun h => push h.1
    rintro rfl
    cases after
  | push room => exact iff_of_false (nomatch ·) fun h => absurd h.2 room.ne
  | lose full => exact iff_of_true rfl ⟨rfl, full⟩
  | send opened => exact iff_of_false (nomatch ·) fun h => nomatch h.1
  | crash closed => exact iff_of_false (nomatch ·) fun h => nomatch h.1

/-! ## What was processed is stored -/

/-- Only a completion event may fail without a trace. -/
theorem completion_of_persistFailed {s : State} {target : Target} {e : Event} {f : Fault}
    (h : (persistFailed strict s target e f).1 = .ended (.ok ())) :
    ∃ main, target = .completion main := by
  cases target with
  | main => cases h
  | completion main => exact ⟨main, rfl⟩

theorem Target.Handles.stored_of_persistFailed {item : Item} {target : Target} {e e' : Event}
    (h : target.Handles item e) {s : State} {f : Fault}
    (hend : (persistFailed strict s target e' f).1 = .ended (.ok ())) : item.stored = true := by
  obtain ⟨main, rfl⟩ := completion_of_persistFailed hend
  exact h.1

/-- **An event whose processing has succeeded is stored.** -/
theorem ProcessPc.Handles.stored_of_ended {item : Item} {pc : ProcessPc} (h : pc.Handles item)
    (hgoing : ∀ result, pc ≠ .ended result) {s : State}
    (hend : (processStep c strict env s pc).1 = .ended (.ok ())) :
    (item.note (stores strict env s pc) pc).stored = true := by
  cases pc with
  | stats target e =>
    rw [processStep] at hend
    split at hend
    · exact Target.Handles.stored_of_persistFailed h hend
    · cases hend
  | last target e =>
    rw [processStep] at hend
    split at hend
    · exact Target.Handles.stored_of_persistFailed h hend
    · split at hend
      · exact Target.Handles.stored_of_persistFailed h hend
      · split at hend
        · exact Target.Handles.stored_of_persistFailed h hend
        · cases hend
  | store target e =>
    rw [processStep] at hend
    rcases hst : storeEvent strict (env.faultsFor target).storeEvent s.db e with ⟨f | u, db⟩
    · rw [hst] at hend
      obtain ⟨main, rfl⟩ := completion_of_persistFailed hend
      exact h.1
    · have hstored : stores strict env s (.store target e) = true := by rw [stores, hst]; rfl
      rw [hstored]
      cases target with
      | main => rfl
      | completion main => exact h.1
  | track e => exact h.1
  | ended result => exact absurd rfl (hgoing result)

/-- The event in hand is the one that is processed, and it is stored if that has succeeded. -/
def LoopPc.Settles : LoopPc → Prop
  | process _ item pc => pc.Handles item ∧ (pc = .ended (.ok ()) → item.stored = true)
  | _ => True

theorem LoopStep.settles {pc pc' : LoopPc} (h : LoopStep c strict env m q pc m' pc' q')
    (hpc : pc.Settles) : pc'.Settles := by
  cases h with
  | take first => exact ⟨⟨rfl, rfl, .refl _⟩, (nomatch ·)⟩
  | process going => exact ⟨hpc.1.step env _, hpc.1.stored_of_ended going⟩
  | _ => trivial

/-- An event that is handled to the end is stored if nothing has failed. -/
theorem LoopStep.handled {pc pc' : LoopPc} (h : LoopStep c strict env m q pc m' pc' q')
    (hpc : pc.Settles) : m'.handled = m.handled ∨
      ∃ item, m'.handled = m.handled ++ [item] ∧
        ∀ i, (ConsumerPc.draining i pc).fails m.worker = false → item.stored = true := by
  cases h with
  | @finish j item result =>
    refine Or.inr ⟨item, rfl, fun i hfails => hpc.2 ?_⟩
    cases result with
    | error f => cases hfails
    | ok u => rfl
  | _ => exact Or.inl rfl

theorem ConsumerStep.settles {pc pc' : ConsumerPc} (h : ConsumerStep c strict env m q pc m' pc' q')
    (hpc : pc.loop.Settles) : pc'.loop.Settles := by
  cases h with
  | loop step going => exact step.settles hpc
  | _ => trivial

theorem ConsumerStep.handled {pc pc' : ConsumerPc} (h : ConsumerStep c strict env m q pc m' pc' q')
    (hpc : pc.loop.Settles) : m'.handled = m.handled ∨
      ∃ item, m'.handled = m.handled ++ [item] ∧
        (pc.fails m.worker = false → item.stored = true) := by
  cases h with
  | loop step going =>
    exact (step.handled hpc).imp_right fun ⟨item, hitem, hstored⟩ => ⟨item, hitem, hstored _⟩
  | leave step =>
    exact (step.handled hpc).imp_right fun ⟨item, hitem, hstored⟩ => ⟨item, hitem, hstored _⟩
  | _ => exact Or.inl rfl

end

/-! ## The system -/

/-- A change of one element, which had the property before. -/
theorem forall_mem_set_iff {α : Type} {P : α → Prop} {l : List α} {i : Nat} {x y : α}
    (hx : l[i]? = some x) (hP : P x) : (∀ z ∈ l.set i y, P z) ↔ (∀ z ∈ l, P z) ∧ P y := by
  constructor
  · intro h
    refine ⟨fun z hz => ?_, h y (List.mem_set (List.getElem?_eq_some_iff.mp hx).1 y)⟩
    obtain ⟨j, hj⟩ := List.mem_iff_getElem?.mp hz
    by_cases hij : i = j
    · subst hij
      cases hx.symm.trans hj
      exact hP
    · exact h z (List.mem_of_getElem? ((List.getElem?_set_ne hij).trans hj))
  · rintro ⟨hl, hy⟩ z hz
    rcases List.mem_or_eq_of_mem_set hz with hz | rfl
    · exact hl z hz
    · exact hy

namespace Pipeline

/-- The processing of no event fails, and no response is pushed into a full buffer. -/
def spares (p : Pipeline) : Action → Bool
  | .next i =>
    match p.submits[i]? with
    | some ⟨event, _, .push⟩ => !(event.isResponse && p.memory.worker.ringBuffer.isFull)
    | _ => true
  | .consume _ => !p.consumer.fails p.memory.worker
  | _ => true

/-- What every step keeps. -/
structure Sound (p : Pipeline) (q : List Event) : Prop where
  holds : p.memory.worker.ringBuffer.Holds q
  settles : p.consumer.loop.Settles

variable {c : Crypto} {strict : Bool} {p p' : Pipeline} {q q' : List Event}

theorem spares_next {i : Nat} {event : Event} {anchor : Bool} {pc : SubmitPc}
    (h : p.submits[i]? = some ⟨event, anchor, pc⟩) : p.spares (.next i) = true ↔
      (event.isResponse = true → ¬ (pc = .push ∧ p.memory.worker.ringBuffer.isFull = true)) := by
  rw [spares, h]
  cases pc with
  | push => simp [imp_iff_not_or]
  | _ => simp

/-- A call that has just begun is not lost. -/
theorem healthy_append {anchor : AnchorPc} {calls : List Submitting}
    (hcalls : ∀ s ∈ calls, s.pc = .closing) :
    { p with anchor, submits := p.submits ++ calls }.Healthy ↔ p.Healthy := by
  constructor
  · intro h
    exact ⟨h.unmarked, fun s hs => h.kept s (List.mem_append_left _ hs), h.stored⟩
  · intro h
    refine ⟨h.unmarked, fun s hs hresponse => ?_, h.stored⟩
    rcases List.mem_append.mp hs with hs | hs
    · exact h.kept s hs hresponse
    · rw [hcalls s hs]
      exact (nomatch ·)

theorem healthy_next {i : Nat} {event : Event} {anchor : Bool} {pc pc' : SubmitPc} {memory : Memory}
    (hq : p.memory.worker.ringBuffer.Holds q)
    (hcall : p.submits[i]? = some ⟨event, anchor, pc⟩)
    (hstep : SubmitStep p.memory event q pc memory pc' q') :
    { p with memory, submits := p.submits.set i ⟨event, anchor, pc'⟩ }.Healthy ↔
      p.Healthy ∧ p.spares (.next i) = true := by
  obtain ⟨hmark, hhandled⟩ := hstep.unmarked
  have hgoing : event.isResponse = true → pc ≠ .lost := by
    rintro - rfl
    cases hstep with
    | drop before => rcases before with ⟨h, -⟩ | h <;> cases h
    | goOn before => cases before
  have hkept := @forall_mem_set_iff Submitting (fun s => s.event.isResponse = true → s.pc ≠ .lost)
    p.submits i _ ⟨event, anchor, pc'⟩ hcall hgoing
  rw [spares_next hcall, ← hstep.lost_iff hq]
  constructor
  · intro h
    have hboth := hkept.mp h.kept
    exact ⟨⟨hmark ▸ h.unmarked, hboth.1, hhandled ▸ h.stored⟩, hboth.2⟩
  · rintro ⟨h, hlost⟩
    exact ⟨hmark.trans h.unmarked, hkept.mpr ⟨h.kept, hlost⟩, by rw [hhandled]; exact h.stored⟩

theorem healthy_consume {env : Worker.HandleEnv} {pc' : ConsumerPc} {memory : Memory}
    (h : p.Sound q) (hstep : consumerStep c strict env p.memory p.consumer = some (memory, pc')) :
    { p with memory, consumer := pc' }.Healthy ↔ p.Healthy ∧ p.spares (.consume env) = true := by
  obtain ⟨q', hcases, -⟩ := consumerStep_cases c strict h.holds hstep
  have hmark := consumerStep_isUnhealthy hstep
  rw [spares, Bool.not_eq_true']
  constructor
  · intro hnext
    obtain ⟨hunmarked, hfine⟩ := Bool.or_eq_false_iff.mp (hmark.symm.trans hnext.unmarked)
    refine ⟨⟨hunmarked, hnext.kept, fun item hitem => hnext.stored item ?_⟩, hfine⟩
    rcases hcases.handled h.settles with hsame | ⟨last, hlast, -⟩
    · exact hsame ▸ hitem
    · exact hlast ▸ List.mem_append_left _ hitem
  · rintro ⟨hp, hfine⟩
    refine ⟨hmark.trans (Bool.or_eq_false_iff.mpr ⟨hp.unmarked, hfine⟩), hp.kept,
      fun item hitem => ?_⟩
    rcases hcases.handled h.settles with hsame | ⟨last, hlast, hstored⟩
    · exact hp.stored item (hsame ▸ hitem)
    · have hitem : item ∈ p.memory.handled ++ [last] := hlast ▸ hitem
      rcases List.mem_append.mp hitem with hitem | hitem
      · exact hp.stored item hitem
      · rw [List.mem_singleton.mp hitem]
        exact fun _ => hstored hfine

/-- **The step lemma.** -/
theorem Sound.step {a : Action} (h : p.Sound q) (ha : a.isShutdown = false)
    (hstep : p.step c strict a = some p') :
    (∃ q', p'.Sound q') ∧ (p'.Healthy ↔ p.Healthy ∧ p.spares a = true) := by
  obtain ⟨q', hcases, hholds, -⟩ := step_cases c strict h.holds hstep
  cases hcases with
  | submit =>
    exact ⟨⟨q, hholds, h.settles⟩,
      (healthy_append (List.forall_mem_singleton.mpr rfl)).trans (and_iff_left rfl).symm⟩
  | next call step => exact ⟨⟨q', hholds, h.settles⟩, healthy_next h.holds call step⟩
  | @consume env _ pc' memory _ before step =>
    subst before
    refine ⟨⟨q', hholds, step.settles h.settles⟩, ?_⟩
    unfold Pipeline.step at hstep
    split at hstep
    · cases hstep
    · dsimp only at hstep
      split at hstep
      · cases hstep
      · next hconsumer =>
        cases hstep
        exact healthy_consume h hconsumer
  | @tick i event running free =>
    refine ⟨⟨q, hholds, h.settles⟩,
      (healthy_append fun s hs => ?_).trans (and_iff_left rfl).symm⟩
    cases event with
    | none => cases hs
    | some event =>
      rw [List.mem_singleton.mp hs]
  | quit free =>
    exact ⟨⟨q, hholds, h.settles⟩, fun h => ⟨⟨h.unmarked, h.kept, h.stored⟩, rfl⟩,
      fun h => ⟨h.1.unmarked, h.1.kept, h.1.stored⟩⟩
  | shutdown before step => cases ha

end Pipeline

namespace Intake

/-- The processing of no event fails, and no response is pushed into a full buffer. -/
def spares (t : Intake) : Action → Bool
  | .next i => t.pipeline.spares (.next i)
  | .consume env => t.pipeline.spares (.consume env)
  | _ => true

variable (c : Crypto) (strict : Bool)

/-- What every step keeps. -/
def Sound (t : Intake) : Prop := ∃ q, t.pipeline.Sound q

section

variable {c strict} {t t' : Intake}

/-- Taking an event from the pool makes no difference. -/
theorem sound_takeEvent {p : Pipeline} {pick : Option Nat} {q : List Event} (h : p.Sound q) :
    (p.takeEvent pick).2.Sound q := ⟨h.holds, h.settles⟩

theorem healthy_takeEvent {p : Pipeline} {pick : Option Nat} :
    (p.takeEvent pick).2.Healthy ↔ p.Healthy :=
  ⟨fun h => ⟨h.unmarked, h.kept, h.stored⟩, fun h => ⟨h.unmarked, h.kept, h.stored⟩⟩

theorem spares_of_own {a : Action} (h : a.drives = none) : t.spares a = true := by
  cases a with
  | next i => cases h
  | consume env => cases h
  | _ => rfl

theorem spares_of_drives {a : Action} {b : Pipeline.Action} (h : a.drives = some b) :
    t.spares a = t.pipeline.spares b := by
  cases a with
  | tick anchor =>
    cases anchor with
    | none =>
      cases h
      rfl
    | some x => cases h
  | request => cases h
  | go => cases h
  | response => cases h
  | _ =>
    cases h
    rfl

/-- **The step lemma.** -/
theorem Sound.step {a : Action} (h : t.Sound) (hstep : t.step c strict a = some t') :
    t'.Sound ∧ (t'.pipeline.Healthy ↔ t.pipeline.Healthy ∧ t.spares a = true) := by
  obtain ⟨q, hq⟩ := h
  have hcases := step_pipeline hstep
  unfold Intake.Sound
  generalize t'.pipeline = p' at hcases ⊢
  cases hcases with
  | rest own => exact ⟨⟨q, hq⟩, (and_iff_left (spares_of_own own)).symm⟩
  | take own =>
    exact ⟨⟨q, sound_takeEvent hq⟩,
      healthy_takeEvent.trans (and_iff_left (spares_of_own own)).symm⟩
  | @hand b p₀ _ own handed taken step =>
    -- neither taking an event nor handing it in changes the mark
    have hsound : p₀.Sound q ∧ (p₀.Healthy ↔ t.pipeline.Healthy) := by
      rcases taken with rfl | ⟨pick, rfl⟩
      · exact ⟨hq, Iff.rfl⟩
      · exact ⟨sound_takeEvent hq, healthy_takeEvent⟩
    have hb : b.isShutdown = false ∧ p₀.spares b = true := by
      rcases handed with ⟨e, rfl⟩ | ⟨e, rfl⟩ <;> exact ⟨rfl, rfl⟩
    obtain ⟨hnext, hiff⟩ := hsound.1.step hb.1 step
    rw [and_iff_left hb.2, hsound.2] at hiff
    exact ⟨hnext, hiff.trans (and_iff_left (spares_of_own own)).symm⟩
  | drive drives step =>
    rw [spares_of_drives drives]
    exact hq.step (Action.isShutdown_drives drives) step

end

/-- **When messages are recorded.** In any interleaving, and whatever the repository does, requests
and responses are recorded after a run exactly if the processing of no event has failed in it, and
no response was pushed into a full buffer. -/
theorem responses_recorded_iff {zero : Event} {capacity : Int} {ringBuffer : Buffer Event}
    (hnew : Buffer.new strict zero capacity = .ok ringBuffer) (state : State)
    (mode : BackpressureMode) {actions : List Action} {t : Intake}
    (hrun : runSteps (step c strict) (initial ringBuffer state mode) actions = some t) :
    t.Records strict ↔
      along (step c strict) spares (initial ringBuffer state mode) actions = true := by
  have hsound : (initial ringBuffer state mode).Sound := ⟨[], (Buffer.holds_new hnew).1, trivial⟩
  have hhealthy : (initial ringBuffer state mode).pipeline.Healthy :=
    ⟨rfl, List.forall_mem_nil _, List.forall_mem_nil _⟩
  rw [records_iff, runSteps_iff Sound (fun t => t.pipeline.Healthy) (fun h hstep => h.step hstep)
    hsound hrun, and_iff_right hhealthy]

/-- A tool call is pushed and processed, and then a response is pushed. -/
def callAndResponse : List Action :=
  List.flatten [arrival "evt-1" "task-1" :: List.replicate 3 (.go 0), List.replicate 4 (.next 0),
    List.replicate 9 (.consume quietEnv), [.response responseEnv { result := none }],
    List.replicate 4 (.next 1)]

/-- Messages are recorded after a quiet run. -/
theorem responses_recorded_quiet : ∃ t,
    runSteps (step causalCrypto true) (recordedIntake pairBuffer) callAndResponse = some t ∧
      t.pipeline.memory.handled.map Item.stored = [true] ∧
      t.pipeline.submits.map (·.pc) = [.sent, .sent] ∧ t.Records true := by
  have hfacts : (runAlong (step causalCrypto true) spares (recordedIntake pairBuffer)
      callAndResponse).any (fun t => t.pipeline.memory.handled.map Item.stored = [true] ∧
        t.pipeline.submits.map (·.pc) = [.sent, .sent]) = true := by decide +kernel
  obtain ⟨t, hok, hrun, hfacts⟩ := exists_of_runAlong hfacts
  obtain ⟨hstored, hsent⟩ := of_decide_eq_true hfacts
  exact ⟨t, hrun, hstored, hsent,
    (@responses_recorded_iff causalCrypto true {} 2 pairBuffer rfl _ .drop _ t hrun).mpr hok⟩

/-- A tool call fails to be stored, and the next one is stored. -/
def passingFailure : List Action :=
  List.flatten [arrival "evt-1" "task-1" :: List.replicate 3 (.go 0), List.replicate 4 (.next 0),
    List.replicate 8 (.consume failingEnv),
    arrival "evt-2" "task-1" :: List.replicate 3 (.go 1), List.replicate 4 (.next 1),
    List.replicate 7 (.consume quietEnv)]

/-- **A response is skipped** after the failure has passed, although a tool call is still recorded.
-/
theorem response_skipped : ∃ t resp,
    runSteps (step causalCrypto true) (recordedIntake pairBuffer) passingFailure = some t ∧
    t.pipeline.memory.handled.map Item.stored = [false, true] ∧
    unmarshalResponse (resultBody "\x7b\"ok\":true\x7d") = some resp ∧
    ∀ env eng, eng.worker = t.pipeline.memory.worker →
      (interceptResponse true env eng (resultBody "\x7b\"ok\":true\x7d")).2.submitted = none := by
  have hfacts : (runSteps (step causalCrypto true) (recordedIntake pairBuffer) passingFailure).any
      (fun t => t.pipeline.memory.handled.map Item.stored = [false, true] ∧
        t.pipeline.memory.worker.isUnhealthy = true) = true := by decide +kernel
  obtain ⟨t, hrun, hfacts⟩ := (Option.any_eq_true _ _).mp hfacts
  obtain ⟨hstored, hmarked⟩ := of_decide_eq_true hfacts
  obtain ⟨resp, hresp, -⟩ := Option.bind_eq_some_iff.mp results_evaluated.1
  refine ⟨t, resp, hrun, hstored, hresp, fun env eng hworker => ?_⟩
  rw [interceptResponse, hresp]
  dsimp only
  rw [hworker, Worker.isHealthy, hmarked]
  rfl

end Intake

end Logryph
