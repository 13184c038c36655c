import Logryph.Interceptor
import Logryph.Pipeline

/-!
# Requests in front of the pipeline

`submitToolCallEvent` gives a tool call the last event of its task as its parent. It loads the id of
that event from a map, stores its own id in its place, and then submits its event. Each of these is
a step, and other requests and the goroutines of the worker can come in between.

* `Intake.step` — requests, responses and anchors in front of a pipeline that is not shut down
* `Intake.step_pipeline` — what a step is for the pipeline
* `Intake.pipeline_inv` — an invariant of the pipeline is one of the whole
* `toolCall_alone` — without the others, the steps of a request are `submitToolCallEvent`
-/

namespace Logryph

open Infra

/-- What a `submitToolCallEvent` does next. -/
inductive ToolCallPc where
  /-- `LastEventByTask.Load`. -/
  | load
  /-- `LastEventByTask.Store`. -/
  | store
  /-- The call of `Submit`. -/
  | submit
  | submitted

/-- A `submitToolCallEvent`, with the event that it fills in. -/
structure ToolCall where
  event : Event
  pc : ToolCallPc

/-- The requests, the map that they share, and the pipeline. Every tool call so far is in the list.
-/
structure Intake where
  pipeline : Pipeline
  lastEventByTask : SortedMap Bytes Bytes := SortedMap.empty
  calls : List ToolCall := []

inductive Intake.Action where
  /-- A tool call is to be recorded, and its event is taken from the pool. -/
  | request (env : MessageEnv) (taskID : Bytes) (req : MCPRequest) (rule : Option Rule)
  /-- The `i`-th tool call goes on. -/
  | go (i : Nat)
  /-- A response is recorded. -/
  | response (env : MessageEnv) (resp : MCPResponse)
  /-- The ticker of `anchorLoop` fires, and the anchor is fetched or not. -/
  | tick (anchor : Option (MessageEnv × Anchor))
  /-- The `i`-th call of `Submit` goes on. -/
  | next (i : Nat)
  /-- `processEvents` goes on. -/
  | consume (env : Worker.HandleEnv)
  /-- `anchorLoop` ends. -/
  | quit

/-- An event is taken from the pool of the worker. -/
def Pipeline.takeEvent (p : Pipeline) (pick : Option Nat) : Event × Pipeline :=
  let (e, pool) := getEvent pick p.memory.worker.state.pool
  (e, { p with
    memory := { p.memory with
      worker := { p.memory.worker with state := { p.memory.worker.state with pool } } } })

namespace Intake

variable (c : Crypto) (strict : Bool)

/-- A step of the pipeline. -/
def lift (t : Intake) (a : Pipeline.Action) : Option Intake :=
  (t.pipeline.step c strict a).map fun pipeline => { t with pipeline }

/-- An event is taken from the pool, filled in, and handed to the pipeline. -/
def hand (t : Intake) (env : MessageEnv) (a : Event → Pipeline.Action) : Option Intake :=
  let (e, pipeline) := t.pipeline.takeEvent env.pick
  { t with pipeline }.lift c strict (a e)

/-- A step of a `submitToolCallEvent`. -/
def goOn (t : Intake) (i : Nat) (call : ToolCall) : Option Intake :=
  match call.pc with
  | .load =>
    let parentID := (t.lastEventByTask.get? call.event.taskID).getD call.event.parentID
    some { t with calls := t.calls.set i ⟨{ call.event with parentID }, .store⟩ }
  | .store => some { t with
      lastEventByTask := t.lastEventByTask.insert call.event.taskID call.event.id
      calls := t.calls.set i ⟨call.event, .submit⟩ }
  | .submit =>
    { t with calls := t.calls.set i ⟨call.event, .submitted⟩ }.lift c strict (.submit call.event)
  | .submitted => none

/-- **One step**, if the action is possible. -/
def step (t : Intake) : Action → Option Intake
  | .request env taskID req rule =>
    let (e, pipeline) := t.pipeline.takeEvent env.pick
    let event := toolCallEvent env taskID req rule none e
    some { t with
      pipeline
      calls := t.calls ++ [⟨event, if taskID = [] then .submit else .load⟩] }
  | .go i => t.calls[i]?.bind (t.goOn c strict i)
  | .response env resp =>
    if t.pipeline.memory.worker.isHealthy then
      t.hand c strict env fun e => .submit (toolResponseEvent env resp e)
    else some t
  | .tick none => t.lift c strict (.tick none)
  | .tick (some (env, a)) =>
    t.hand c strict env fun e => .tick (some (Worker.anchorEvent env.id env.now a e))
  | .next i => t.lift c strict (.next i)
  | .consume env => t.lift c strict (.consume env)
  | .quit => t.lift c strict .quit

/-- The step of the pipeline that an action lets it take by itself. -/
def Action.drives : Action → Option Pipeline.Action
  | .tick none => some (.tick none)
  | .next i => some (.next i)
  | .consume env => some (.consume env)
  | .quit => some .quit
  | _ => none

/-- What a step of the whole is for the pipeline. -/
inductive PipelineStep (p : Pipeline) : Action → Pipeline → Prop
  /-- The pipeline is left alone. -/
  | rest {a : Action} (own : a.drives = none) : PipelineStep p a p
  /-- An event is taken from the pool. -/
  | take {a : Action} {pick : Option Nat} (own : a.drives = none) :
      PipelineStep p a (p.takeEvent pick).2
  /-- An event is handed in, which may have been taken just before. -/
  | hand {a : Action} {b : Pipeline.Action} {p₀ p' : Pipeline} (own : a.drives = none)
      (handed : (∃ e, b = .submit e) ∨ ∃ e, b = .tick e)
      (taken : p₀ = p ∨ ∃ pick, p₀ = (p.takeEvent pick).2) (step : p₀.step c strict b = some p') :
      PipelineStep p a p'
  | drive {a : Action} {b : Pipeline.Action} {p' : Pipeline} (drives : a.drives = some b)
      (step : p.step c strict b = some p') : PipelineStep p a p'

variable {c strict}

/-- **What a step can be for the pipeline.** -/
theorem step_pipeline {t t' : Intake} {a : Action} (h : t.step c strict a = some t') :
    PipelineStep c strict t.pipeline a t'.pipeline := by
  have hlift : ∀ {t : Intake} {b : Pipeline.Action}, t.lift c strict b = some t' →
      t.pipeline.step c strict b = some t'.pipeline := by
    intro t b hlift
    obtain ⟨p', hp', rfl⟩ := Option.map_eq_some_iff.mp hlift
    exact hp'
  cases a with
  | request env taskID req rule =>
    cases h
    exact .take rfl
  | go i =>
    obtain ⟨⟨event, pc⟩, -, hgo⟩ := Option.bind_eq_some_iff.mp h
    cases pc with
    | load =>
      cases hgo
      exact .rest rfl
    | store =>
      cases hgo
      exact .rest rfl
    | submit =>
      have hstep := @hlift { t with calls := t.calls.set i ⟨event, .submitted⟩ } (.submit event) hgo
      exact .hand rfl (Or.inl ⟨event, rfl⟩) (Or.inl rfl) hstep
    | submitted => cases hgo
  | response env resp =>
    rw [step] at h
    split at h
    · exact .hand rfl (Or.inl ⟨_, rfl⟩) (Or.inr ⟨env.pick, rfl⟩) (hlift h)
    · cases h
      exact .rest rfl
  | tick anchor =>
    cases anchor with
    | none => exact .drive rfl (hlift h)
    | some x =>
      obtain ⟨env, anchor⟩ := x
      rw [step] at h
      exact .hand rfl (Or.inr ⟨_, rfl⟩) (Or.inr ⟨env.pick, rfl⟩) (hlift h)
  | next i => exact .drive rfl (hlift h)
  | consume env => exact .drive rfl (hlift h)
  | quit => exact .drive rfl (hlift h)

/-- There is no `Shutdown`. -/
theorem Action.isShutdown_drives {a : Action} {b : Pipeline.Action} (h : a.drives = some b) :
    b.isShutdown = false := by
  cases a with
  | tick anchor =>
    cases anchor with
    | none =>
      cases h
      rfl
    | some x => cases h
  | request => cases h
  | go => cases h
  | response => cases h
  | _ =>
    cases h
    rfl

/-- **The invariant rule for the pipeline** behind the requests: what every step of it keeps, and
the taking of an event from the pool, is kept by every step of the whole. -/
theorem pipeline_inv {P : Pipeline → Prop} (htake : ∀ {p pick}, P p → P (p.takeEvent pick).2)
    (hstep : ∀ {p a p'}, P p → a.isShutdown = false → p.step c strict a = some p' → P p')
    {t : Intake} {a : Action} {t' : Intake} (h : P t.pipeline)
    (ha : t.step c strict a = some t') : P t'.pipeline := by
  have hcases := step_pipeline ha
  generalize t'.pipeline = p' at hcases ⊢
  cases hcases with
  | rest own => exact h
  | take own => exact htake h
  | hand own handed taken step =>
    refine hstep ?_ ?_ step
    · rcases taken with rfl | ⟨pick, rfl⟩
      · exact h
      · exact htake h
    · rcases handed with ⟨e, rfl⟩ | ⟨e, rfl⟩ <;> rfl
  | drive drives step => exact hstep h (Action.isShutdown_drives drives) step

end Intake

/-- **Without the others, the steps of a request are `submitToolCallEvent`**: the same event is
handed to `Submit`, and the same id is left in the map. -/
theorem toolCall_alone (c : Crypto) (strict : Bool) (env : MessageEnv) (eng : Engine)
    (taskID : Bytes) (req : MCPRequest) (rule : Option Rule) {t : Intake}
    (hworker : t.pipeline.memory.worker = eng.worker)
    (hlast : t.lastEventByTask = eng.lastEventByTask) (hcalls : t.calls = [])
    (halive : t.pipeline.crashed = false) :
    ∃ t' e,
      runSteps (Intake.step c strict) t (.request env taskID req rule ::
        List.replicate (if taskID = [] then 1 else 3) (.go 0)) = some t' ∧
      (submitToolCallEvent strict env eng taskID req rule).2.submitted = some e ∧
      t'.pipeline.submits = t.pipeline.submits ++ [{ event := e }] ∧
      t'.lastEventByTask =
        (submitToolCallEvent strict env eng taskID req rule).2.engine.lastEventByTask := by
  obtain ⟨p, last, calls⟩ := t
  obtain ⟨worker, policies, activeTasks, lastEventByTask⟩ := eng
  cases hworker
  cases hlast
  cases hcalls
  -- the last step, at which the event is handed to `Submit`
  have hsubmit : ∀ event last, runSteps (Intake.step c strict)
      ⟨(p.takeEvent env.pick).2, last, [⟨event, .submit⟩]⟩ [.go 0] = some
        ⟨{ (p.takeEvent env.pick).2 with submits := p.submits ++ [{ event }] }, last,
          [⟨event, .submitted⟩]⟩ := by
    intro event last
    have halive' : (p.takeEvent env.pick).2.crashed = false := halive
    rw [runSteps_singleton]
    show Intake.lift c strict ⟨_, last, [⟨event, .submitted⟩]⟩ (.submit event) = _
    unfold Intake.lift Pipeline.step
    dsimp only
    rw [halive']
    rfl
  unfold submitToolCallEvent
  by_cases htask : taskID = []
  · subst htask
    exact ⟨_, _, hsubmit (toolCallEvent env [] req rule none (p.takeEvent env.pick).1) last,
      rfl, rfl, rfl⟩
  · have hpc : (if taskID = [] then .submit else .load) = ToolCallPc.load := if_neg htask
    have hload := congrArg (fun pc => runSteps (Intake.step c strict)
      ⟨(p.takeEvent env.pick).2, last,
        [⟨toolCallEvent env taskID req rule none (p.takeEvent env.pick).1, pc⟩]⟩
      [.go 0, .go 0, .go 0]) hpc
    have hrun := hload.trans (hsubmit (toolCallEvent env taskID req rule (last.get? taskID)
      (p.takeEvent env.pick).1) (last.insert taskID env.id))
    rw [if_neg htask, if_neg htask]
    exact ⟨_, _, hrun, rfl, rfl, rfl⟩

end Logryph
