import Logryph.Infra.History
import Logryph.Latency
import Logryph.WorkerOk

/-!
# The gauge of active tasks

`InterceptResponse` keeps the state that was last reported for each task, and `collectMetrics`
counts the tasks of this map for the gauge of currently active tasks, up to 10000. The processor
forgets a task that has ended; this map does not.

* `Engine.mirrors_passAll` — the map has the latest state of every task that was ever reported
* `collectMetrics_eq_ok` — the metrics are always collected, and what the gauge says
* `active_tasks_iff` — when the gauge is the number of the active tasks
* `active_tasks_finished` — a task that has ended is counted
-/

namespace Logryph

open Infra

/-! ## Collecting the metrics -/

/-- `pool.Metrics`, as far as they are shown. -/
structure PoolMetrics where
  eventHits : UInt64
  eventMisses : UInt64

/-- `prometheusMetrics`. -/
structure PrometheusMetrics where
  poolEventHits : UInt64
  poolEventMisses : UInt64
  eventsProcessed : UInt64
  eventsDropped : UInt64
  eventsBlocked : UInt64
  backpressureMode : Bytes
  activeTasks : Nat
  queueDepth : Nat
  queueCapacity : Nat
  latencyMetrics : LatencySnapshot

def maxActiveTasks : Nat := 10000

/-- `Range` over the tasks: the function that counts one more is called until it answers `false`. -/
def countTasks : Nat → List (Bytes × Bytes) → Nat
  | tasks, [] => tasks
  | tasks, _ :: entries =>
    if maxActiveTasks ≤ tasks then tasks else countTasks (tasks + 1) entries

/-- `collectMetrics`. A failed check is logged, unless it panics. -/
def collectMetrics (strict : Bool) (pool : PoolMetrics) (eng : Engine) :
    Except Fault PrometheusMetrics := do
  let _ ← quietCheck strict (0 ≤ (eng.worker.ringBuffer.cap : Int))
    (lit "queue capacity must be non-negative")
  let tasks := countTasks 0 eng.activeTasks.entries
  let _ ← quietCheck strict (tasks ≤ maxActiveTasks)
    (lit "active tasks exceeded cap: " ++ natText tasks)
  .ok {
    poolEventHits := pool.eventHits
    poolEventMisses := pool.eventMisses
    eventsProcessed := eng.worker.processedEvents
    eventsDropped := eng.worker.droppedEvents
    eventsBlocked := eng.worker.blockedSubmits
    backpressureMode := if eng.worker.backpressureMode = .block then lit "block" else lit "drop"
    activeTasks := tasks
    queueDepth := eng.worker.ringBuffer.len
    queueCapacity := eng.worker.ringBuffer.cap
    latencyMetrics := eng.worker.latencyMetrics }

theorem countTasks_eq : ∀ (entries : List (Bytes × Bytes)) {tasks : Nat}, tasks ≤ maxActiveTasks →
    countTasks tasks entries = min maxActiveTasks (tasks + entries.length)
  | [], tasks, h => by simp [countTasks, h]
  | _ :: entries, tasks, h => by
    rw [countTasks]
    split
    · rw [List.length_cons]
      omega
    · rw [countTasks_eq entries (by omega), List.length_cons]
      omega

/-- **The metrics are always collected**, and the gauge is the number of the tasks in the map. -/
theorem collectMetrics_eq_ok (strict : Bool) (pool : PoolMetrics) (eng : Engine) :
    ∃ metrics, collectMetrics strict pool eng = .ok metrics ∧
      metrics.activeTasks = min maxActiveTasks eng.activeTasks.size := by
  have hcount : countTasks 0 eng.activeTasks.entries = min maxActiveTasks eng.activeTasks.size := by
    rw [countTasks_eq _ (Nat.zero_le _), Nat.zero_add, SortedMap.size]
  have hcap : decide (0 ≤ (eng.worker.ringBuffer.cap : Int)) = true := by simp
  have htasks : decide (countTasks 0 eng.activeTasks.entries ≤ maxActiveTasks) = true := by
    simp [hcount]
  simp only [collectMetrics, hcap, htasks, quietCheck_true]
  exact ⟨_, rfl, hcount⟩

/-! ## The states that are reported -/

/-- A message as it passes: what it takes from outside, and the worker as it is by then. -/
structure Passage where
  worker : Worker
  env : MessageEnv
  message : Message

/-- The engine after a message has passed. -/
def Engine.pass (strict : Bool) (eng : Engine) (p : Passage) : Engine :=
  (p.message.intercept strict p.env { eng with worker := p.worker }).2.engine

/-- The engine after some messages, one after the other. -/
def Engine.passAll (strict : Bool) (eng : Engine) (ps : List Passage) : Engine :=
  ps.foldl (Engine.pass strict) eng

/-- The task and the state that a message reports. -/
def Message.report : Message → Option (Bytes × Bytes)
  | request _ => none
  | response body => (unmarshalResponse body).bind reportedState

/-- The states that are reported for the tasks, one after the other. -/
def reports (ps : List Passage) : List (Bytes × Bytes) := ps.filterMap fun p => p.message.report

/-- The tasks whose latest state is not terminal. -/
def activeTaskIDs (reports : List (Bytes × Bytes)) : Set Bytes :=
  {taskID | ∃ state, IsLatest reports taskID state ∧ isTerminalState state = false}

theorem ncard_activeTaskIDs (reports : List (Bytes × Bytes)) : (activeTaskIDs reports).ncard
    = ((mapOf reports).filter fun p => !isTerminalState p.2).length := by
  have h := ncard_latest (fun state => !isTerminalState state) reports
  simp only [Bool.not_eq_true'] at h
  exact h

section

variable (strict : Bool) {eng : Engine}

/-- One more message: the state that it reports is stored, whichever it is. -/
theorem Engine.mirrors_pass {l : List (Bytes × Bytes)}
    (h : Mirrors (fun _ => True) eng.activeTasks l) {p : Passage}
    (hhealthy : p.worker.isHealthy = true) :
    Mirrors (fun _ => True) (eng.pass strict p).activeTasks (l ++ p.message.report.toList) := by
  obtain ⟨worker, env, message⟩ := p
  cases message with
  | request body =>
    obtain ⟨w, last, heng⟩ := interceptBody_engine strict env { eng with worker } body
    simp only [Engine.pass, Message.intercept, Message.report, heng]
    simpa using h
  | response body =>
    simp only [Engine.pass, Message.intercept, Message.report, interceptResponse]
    cases unmarshalResponse body with
    | none => simpa using h
    | some resp =>
      simp only [hhealthy, if_true, Option.bind_some]
      cases reportedState resp with
      | none => simpa [Engine.record] using h
      | some report => exact h.insert trivial

/-- **The map has the latest state of every task**, after any messages. -/
theorem Engine.mirrors_passAll (hempty : eng.activeTasks = SortedMap.empty) {ps : List Passage}
    (hhealthy : ∀ p ∈ ps, p.worker.isHealthy = true) :
    Mirrors (fun _ => True) (eng.passAll strict ps).activeTasks (reports ps) := by
  induction ps using List.reverseRecOn with
  | nil =>
    rw [passAll, List.foldl_nil, hempty]
    exact Mirrors.empty
  | append_singleton ps p ih =>
    have hprev := ih fun q hq => hhealthy q (by simp [hq])
    have hnext := mirrors_pass strict hprev (hhealthy p (by simp))
    rw [passAll, List.foldl_append, List.foldl_cons, List.foldl_nil]
    rw [reports, List.filterMap_append]
    cases hreport : p.message.report with
    | none => simpa [hreport, reports, passAll] using hnext
    | some report => simpa [hreport, reports, passAll] using hnext

end

/-- **When the gauge counts the active tasks.** Let any messages pass an engine that has just been
made, while the worker is healthy. The gauge is the number of the tasks whose latest state is not
terminal, up to 10000, if and only if no task that was reported has ended, or at least 10000 of them
have not. -/
theorem active_tasks_iff (strict : Bool) (pool : PoolMetrics) {eng : Engine}
    (hempty : eng.activeTasks = SortedMap.empty) {ps : List Passage}
    (hhealthy : ∀ p ∈ ps, p.worker.isHealthy = true) :
    (∃ metrics, collectMetrics strict pool (eng.passAll strict ps) = .ok metrics ∧
        metrics.activeTasks = min 10000 (activeTaskIDs (reports ps)).ncard) ↔
      (∀ taskID state, IsLatest (reports ps) taskID state → isTerminalState state = false) ∨
        10000 ≤ (activeTaskIDs (reports ps)).ncard := by
  obtain ⟨metrics, hmetrics, htasks⟩ := collectMetrics_eq_ok strict pool (eng.passAll strict ps)
  have hentries := (Engine.mirrors_passAll strict hempty hhealthy).entries_eq
  have hle := List.length_filter_le (fun p => !isTerminalState p.2) (mapOf (reports ps))
  -- all tasks are active exactly if the filter takes none away
  have hall : (∀ taskID state, IsLatest (reports ps) taskID state → isTerminalState state = false) ↔
      ((mapOf (reports ps)).filter fun p => !isTerminalState p.2).length
        = (mapOf (reports ps)).length := by
    rw [List.length_filter_eq_length_iff]
    simp only [← mapGet_mapOf_iff, Bool.not_eq_true', Prod.forall]
    refine forall₂_congr fun taskID state => imp_congr_left ⟨mem_of_mapGet, ?_⟩
    exact mapGet_of_mem (sortedKeys_mapOf _)
  rw [SortedMap.size, hentries, maxActiveTasks] at htasks
  rw [hall, ncard_activeTaskIDs]
  constructor
  · rintro ⟨metrics', hmetrics', htasks'⟩
    cases hmetrics.symm.trans hmetrics'
    omega
  · intro h
    refine ⟨metrics, hmetrics, ?_⟩
    omega

/-! ## A task that ends -/

/-- A response with a state of a task. -/
def stateResponse (task state : String) : Passage where
  worker := plainEngine.worker
  env := { id := lit "evt-1", now := recordedEnv.now }
  message := .response (lit "\x7b\"jsonrpc\":\"2.0\",\"id\":1,\"result\":\x7b\"task_id\":\"" ++
    lit task ++ lit "\",\"state\":\"" ++ lit state ++ lit "\"\x7d\x7d")

/-- The responses that give these states, one after the other. -/
def responses (states : List (String × String)) : List Passage :=
  states.map fun s => stateResponse s.1 s.2

theorem isHealthy_responses (states : List (String × String)) :
    ∀ p ∈ responses states, p.worker.isHealthy = true := by
  intro p hp
  obtain ⟨s, -, rfl⟩ := List.mem_map.mp hp
  rfl

/-- Two tasks that run, one of them after it had to wait. -/
def twoTasks : List Passage :=
  responses [("t1", "pending"), ("t2", "running"), ("t1", "running")]

/-- A task that runs and ends. -/
def endedTask : List Passage := responses [("t1", "running"), ("t1", "completed")]

theorem reports_responses :
    reports twoTasks
      = [(lit "t1", lit "pending"), (lit "t2", lit "running"), (lit "t1", lit "running")] ∧
    reports endedTask = [(lit "t1", lit "running"), (lit "t1", lit "completed")] := by
  decide +kernel

/-- While they run, both tasks are counted, each one once. -/
theorem active_tasks_running : (activeTaskIDs (reports twoTasks)).ncard = 2 ∧ ∃ metrics,
    collectMetrics true ⟨0, 0⟩ (plainEngine.passAll true twoTasks) = .ok metrics ∧
      metrics.activeTasks = min 10000 (activeTaskIDs (reports twoTasks)).ncard := by
  refine ⟨?_, (active_tasks_iff true ⟨0, 0⟩ rfl (isHealthy_responses _)).mpr (Or.inl ?_)⟩
  · rw [ncard_activeTaskIDs, reports_responses.1]
    decide +kernel
  · intro taskID state hlatest
    have hmem : (taskID, state) ∈ reports twoTasks := hlatest.mem
    rw [reports_responses.1] at hmem
    simp only [List.mem_cons, Prod.mk.injEq, List.not_mem_nil, or_false] at hmem
    rcases hmem with ⟨-, rfl⟩ | ⟨-, rfl⟩ | ⟨-, rfl⟩ <;> decide

/-- **A task that has ended is counted as active.** -/
theorem active_tasks_finished : ∃ metrics,
    collectMetrics true ⟨0, 0⟩ (plainEngine.passAll true endedTask) = .ok metrics ∧
    metrics.activeTasks = 1 ∧ (activeTaskIDs (reports endedTask)).ncard = 0 := by
  obtain ⟨metrics, hmetrics, htasks⟩ := collectMetrics_eq_ok true ⟨0, 0⟩
    (plainEngine.passAll true endedTask)
  have hempty : plainEngine.activeTasks = SortedMap.empty := rfl
  have hmirrors := @Engine.mirrors_passAll true _ hempty endedTask (isHealthy_responses _)
  refine ⟨metrics, hmetrics, ?_, ?_⟩
  · rw [htasks, SortedMap.size, hmirrors.entries_eq, reports_responses.2]
    decide +kernel
  · rw [ncard_activeTaskIDs, reports_responses.2]
    decide +kernel

end Logryph
