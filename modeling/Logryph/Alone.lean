import Logryph.Pipeline
import Logryph.Start

/-!
# A goroutine alone

The steps of a goroutine, with nobody in between, are the function that models the whole call.

* `submit_alone` — the steps of `Submit` are `Worker.submit`
* `loop_alone` — the steps of the loop of `processEvents` and of `drainBuffer` are `Worker.drain`
* `processBatch_alone`, `drainBuffer_alone` — the steps around it are those of the two functions
-/

namespace Logryph

open Infra Relation

variable (c : Crypto) (strict : Bool)

/-! ## Submit -/

/-- A `Submit` goes on while nobody else does anything. -/
def SubmitsTo (e : Event) (x y : Memory × SubmitPc) : Prop :=
  submitStep strict x.1 e x.2 = some y

/-- While the buffer stays full, the blocking mode waits as often as it may. -/
theorem submit_waits {e : Event} : ∀ (k i : Nat) {m : Memory}, i + (k + 1) = maxBlockAttempts →
    m.worker.closing = false → m.worker.ringBuffer.isFull = true →
    ReflTransGen (SubmitsTo strict e) (m, .test i)
      ({ m with worker := { m.worker with
        blockedSubmits := m.worker.blockedSubmits + UInt64.ofNat (k + 1) } }, .full) := by
  intro k
  induction k with
  | zero =>
    intro i m hi hopen hfull
    have htest : SubmitsTo strict e (m, .test i) (m, .wait i) := if_pos hfull
    have hwait : submitStep strict m e (.wait i) = some _ := if_neg (by simp [hopen])
    rw [if_neg (by omega)] at hwait
    exact .head htest (.single hwait)
  | succ k ih =>
    intro i m hi hopen hfull
    have htest : SubmitsTo strict e (m, .test i) (m, .wait i) := if_pos hfull
    have hwait : submitStep strict m e (.wait i) = some _ := if_neg (by simp [hopen])
    rw [if_pos (by omega)] at hwait
    have hrest := @ih (i + 1) { m with worker := { m.worker with
      blockedSubmits := m.worker.blockedSubmits + 1 } } (by omega) hopen hfull
    rw [Nat.add_comm (k + 1), UInt64.ofNat_add, ← UInt64.add_assoc]
    exact .head htest (.head hwait hrest)

/-- The end of `Submit`, from `Push` on. -/
theorem submit_pushes (m : Memory) (e : Event) :
    ∃ m' pc, ReflTransGen (SubmitsTo strict e) (m, .push) (m', pc) ∧ pc.inProgress = false ∧
      m'.worker = (m.worker.pushEvent strict e).2 ∧
      (pc = .panicked ↔ (m.worker.pushEvent strict e).1 ≠ .ok ()) := by
  rcases hpush : m.worker.ringBuffer.push strict e with ⟨(msg | msg) | u, ringBuffer⟩
  · have hstep : SubmitsTo strict e (m, .push)
        ({ m with worker := { m.worker with ringBuffer } }, .lost) := by
      unfold SubmitsTo submitStep
      rw [hpush]
    refine ⟨_, _, .single hstep, rfl, ?_, ?_⟩ <;> rw [Worker.pushEvent, hpush]
    simp
  · have hstep : SubmitsTo strict e (m, .push)
        ({ m with worker := { m.worker with ringBuffer } }, .panicked) := by
      unfold SubmitsTo submitStep
      rw [hpush]
    refine ⟨_, _, .single hstep, rfl, ?_, ?_⟩ <;> rw [Worker.pushEvent, hpush]
    simp
  · have hstep : SubmitsTo strict e (m, .push) ({ m with
        worker := { m.worker with ringBuffer }, pushed := m.pushed ++ [e] }, .send) := by
      unfold SubmitsTo submitStep
      rw [hpush]
    cases hclosed : m.worker.signalClosed with
    | true =>
      refine ⟨_, _, .head hstep (.single (if_pos hclosed)), rfl, ?_, ?_⟩ <;>
        simp [Worker.pushEvent, hpush, hclosed]
    | false =>
      refine ⟨_, _, .head hstep (.single (if_neg (by simp [hclosed]))), rfl, ?_, ?_⟩ <;>
        simp [Worker.pushEvent, hpush, hclosed]

/-- **Alone, the steps of `Submit` are `Worker.submit`.** -/
theorem submit_alone (m : Memory) (e : Event) :
    ∃ m' pc, ReflTransGen (SubmitsTo strict e) (m, .closing) (m', pc) ∧ pc.inProgress = false ∧
      m'.worker = (m.worker.submit strict e).2 ∧
      (pc = .panicked ↔ (m.worker.submit strict e).1 ≠ .ok ()) := by
  unfold Worker.submit
  cases hclosing : m.worker.closing with
  | true => exact ⟨_, .dropped, .single (if_pos hclosing), rfl, rfl, by simp⟩
  | false =>
    rw [if_neg Bool.false_ne_true]
    have hopen : ¬ m.worker.closing = true := by simp [hclosing]
    cases hfull : m.worker.ringBuffer.isFull with
    | true =>
      rw [if_pos rfl]
      cases hmode : m.worker.backpressureMode with
      | drop =>
        have hclose : SubmitsTo strict e (m, .closing) (m, .full) := by
          unfold SubmitsTo submitStep
          rw [if_neg hopen, hmode]
        exact ⟨_, .dropped, .head hclose (.single (if_pos hfull)), rfl, rfl, by simp⟩
      | block =>
        have hclose : SubmitsTo strict e (m, .closing) (m, .test 0) := by
          unfold SubmitsTo submitStep
          rw [if_neg hopen, hmode]
        have hwaits := submit_waits strict (e := e) 999 0 rfl hclosing hfull
        refine ⟨_, .dropped, .head hclose (.tail hwaits (if_pos hfull)), rfl, ?_, by simp⟩
        simp [Worker.dropEvent, hmode, hclosing, maxBlockAttempts]
    | false =>
      rw [if_neg Bool.false_ne_true]
      have hroom : ¬ m.worker.ringBuffer.isFull = true := by simp [hfull]
      obtain ⟨m', pc, hpush, hrest⟩ := submit_pushes strict m e
      refine ⟨m', pc, ?_, hrest⟩
      cases hmode : m.worker.backpressureMode with
      | drop =>
        have hclose : SubmitsTo strict e (m, .closing) (m, .full) := by
          unfold SubmitsTo submitStep
          rw [if_neg hopen, hmode]
        exact .head hclose (.head (if_neg hroom) hpush)
      | block =>
        have hclose : SubmitsTo strict e (m, .closing) (m, .test 0) := by
          unfold SubmitsTo submitStep
          rw [if_neg hopen, hmode]
        exact .head hclose (.head (if_neg hroom) (.head (if_neg hroom) hpush))

/-! ## The loop -/

/-- The number of the iteration. -/
def LoopPc.iteration : LoopPc → Nat
  | test j => j
  | pop j => j
  | process j _ _ => j
  | left => 0

/-- The loop goes on while nobody else does anything. -/
def LoopsTo (envs : Nat → Worker.HandleEnv) (x y : Memory × LoopPc) : Prop :=
  loopStep c strict (envs x.2.iteration) x.1 x.2 = some y

/-- An event in hand is processed to the end. -/
theorem loop_processes (envs : Nat → Worker.HandleEnv) (j : Nat) {result : Except Fault Unit}
    {s' : State} : ∀ (k : Nat) (m : Memory) (item : Item) (pc : ProcessPc),
    (stepPair c strict (envs j))^[k] (pc, m.worker.state) = (.ended result, s') →
    ∃ item', item'.event = item.event ∧
      ReflTransGen (LoopsTo c strict envs) (m, .process j item pc)
        ({ m with worker := { m.worker with state := s' } }, .process j item' (.ended result)) := by
  intro k
  induction k with
  | zero =>
    intro m item pc h
    cases h
    exact ⟨item, rfl, .refl⟩
  | succ k ih =>
    intro m item pc h
    by_cases hend : ∃ r, pc = .ended r
    · obtain ⟨r, rfl⟩ := hend
      rw [Function.iterate_fixed (stepPair_ended c strict rfl)] at h
      cases h
      exact ⟨item, rfl, .refl⟩
    · rw [Function.iterate_succ_apply] at h
      obtain ⟨item', hevent, hrest⟩ := ih
        { m with worker := { m.worker with
          state := (processStep c strict (envs j) m.worker.state pc).2 } }
        (item.note (stores strict (envs j) m.worker.state pc) pc)
        (processStep c strict (envs j) m.worker.state pc).1 h
      refine ⟨item', hevent.trans ?_, .head ?_ hrest⟩
      · unfold Item.note
        split <;> rfl
      · cases pc with
        | ended r => exact absurd ⟨r, rfl⟩ hend
        | _ => rfl

/-- `handleEvent` is `ProcessEvent` and what follows it. -/
theorem handleEvent_eq (env : Worker.HandleEnv) (w : Worker) (e : Event) :
    Worker.handleEvent c strict env w e = finishEvent strict env.duration
      { w with state := (processEvent c strict w.state ⟨some e, env.faults, env.completion⟩).2 } e
      (processEvent c strict w.state ⟨some e, env.faults, env.completion⟩).1 := by
  unfold Worker.handleEvent finishEvent
  rcases processEvent c strict w.state ⟨some e, env.faults, env.completion⟩ with
    ⟨(msg | msg) | u, s⟩ <;> rfl

/-- An event that was taken is handled to the end. -/
theorem loop_handles (envs : Nat → Worker.HandleEnv) {j : Nat} {m : Memory} {e : Event}
    {w : Worker} (h : Worker.handleEvent c strict (envs j) m.worker e = (.ok (), w)) :
    ∃ handled, ReflTransGen (LoopsTo c strict envs)
      (m, .process j { event := e } (.stats .main e))
      ({ m with worker := w, handled }, .test (j + 1)) := by
  have hsteps := iterate_processStep c strict (envs j) m.worker.state e
  rw [handleEvent_eq] at h
  generalize processEvent c strict m.worker.state ⟨some e, (envs j).faults, (envs j).completion⟩
    = processed at h hsteps
  obtain ⟨result, s⟩ := processed
  obtain ⟨item, hevent, hprocess⟩ := loop_processes c strict envs j 7 m { event := e } _ hsteps
  have hdone : LoopsTo c strict envs
      ({ m with worker := { m.worker with state := s } }, .process j item (.ended result))
      ({ m with worker := w, handled := m.handled ++ [item] }, .test (j + 1)) := by
    unfold LoopsTo loopStep
    dsimp only [LoopPc.iteration]
    rw [hevent, h]
  exact ⟨_, .tail hprocess hdone⟩

/-- **Alone, the steps of the loop are `Worker.drain`**, if no iteration panics. -/
theorem loop_alone (envs : Nat → Worker.HandleEnv) : ∀ (n j : Nat) (m : Memory) (w : Worker),
    n + j = maxDrainEvents → Worker.drain c strict envs n j m.worker = (.ok (), w) →
    ∃ m', ReflTransGen (LoopsTo c strict envs) (m, .test j) (m', .left) ∧ m'.worker = w := by
  intro n
  induction n with
  | zero =>
    intro j m w hj hdrain
    cases hdrain
    have hstop : ¬ (decide (j < maxDrainEvents) && !m.worker.ringBuffer.isEmpty) = true := by
      rw [decide_eq_false (by omega)]
      simp
    exact ⟨m, .single (if_neg hstop), rfl⟩
  | succ n ih =>
    intro j m w hj hdrain
    rw [Worker.drain] at hdrain
    cases hempty : m.worker.ringBuffer.isEmpty with
    | true =>
      rw [if_pos hempty] at hdrain
      cases hdrain
      exact ⟨m, .single (if_neg (by simp [hempty])), rfl⟩
    | false =>
      rw [if_neg (by simp [hempty])] at hdrain
      have hgo : LoopsTo c strict envs (m, .test j) (m, .pop j) :=
        if_pos (by rw [hempty, decide_eq_true (by omega)]; rfl)
      rcases hpop : m.worker.ringBuffer.pop strict with ⟨(msg | msg) | e, ringBuffer⟩
      · rw [hpop] at hdrain
        cases hdrain
        have hmiss : LoopsTo c strict envs (m, .pop j)
            ({ m with worker := { m.worker with ringBuffer } }, .left) := by
          unfold LoopsTo loopStep
          rw [hpop]
        exact ⟨_, .head hgo (.single hmiss), rfl⟩
      · rw [hpop] at hdrain
        cases hdrain
      · rw [hpop] at hdrain
        dsimp only at hdrain
        have htake : LoopsTo c strict envs (m, .pop j)
            ({ m with worker := { m.worker with ringBuffer } },
              .process j { event := e } (.stats .main e)) := by
          unfold LoopsTo loopStep
          rw [hpop]
        rcases hhandle : Worker.handleEvent c strict (envs j) { m.worker with ringBuffer } e with
          ⟨f | u, w₁⟩
        · rw [hhandle] at hdrain
          cases hdrain
        · rw [hhandle] at hdrain
          obtain ⟨handled, hsteps⟩ := loop_handles c strict envs
            (m := { m with worker := { m.worker with ringBuffer } }) hhandle
          obtain ⟨m', hrest, hworker⟩ := ih (j + 1) { m with worker := w₁, handled } w (by omega)
            hdrain
          exact ⟨m', .head hgo (.head htake (hsteps.trans hrest)), hworker⟩

/-! ## Around the loop -/

/-- What a goroutine does next that has come to the loop, with what it does after it. -/
def LoopPc.within {pc : Type} (draining : LoopPc → pc) (after : pc) : LoopPc → pc
  | left => after
  | pc => draining pc

/-- The steps of the loop are steps of the goroutine that has come to it. -/
theorem lift_loop {pc : Type} {draining : LoopPc → pc} {after : pc}
    {step : Worker.HandleEnv → Memory → pc → Option (Memory × pc)}
    (hstep : ∀ {env m x m' x'}, loopStep c strict env m x = some (m', x') →
      step env m (draining x) = some (m', x'.within draining after))
    {envs : Nat → Worker.HandleEnv} {m m' : Memory} {j : Nat}
    (h : ReflTransGen (LoopsTo c strict envs) (m, .test j) (m', .left)) :
    ReflTransGen (fun x y => ∃ j, step (envs j) x.1 x.2 = some y) (m, draining (.test j))
      (m', after) := by
  refine h.lift (fun x : Memory × LoopPc => (x.1, x.2.within draining after)) ?_
  rintro ⟨m, x⟩ ⟨m', x'⟩ hloop
  refine ⟨x.iteration, ?_⟩
  -- from the end of the loop there is no step
  cases x with
  | left => cases hloop
  | _ => exact hstep hloop

/-- What goes wrong in an iteration is a panic. -/
theorem handleEvent_error {env : Worker.HandleEnv} {w w' : Worker} {e : Event} {f : Fault}
    (h : Worker.handleEvent c strict env w e = (.error f, w')) : ∃ msg, f = .panic msg := by
  rw [handleEvent_eq] at h
  unfold finishEvent at h
  split at h
  · cases h
    exact ⟨_, rfl⟩
  · dsimp only at h
    split at h
    · next hlatency =>
      cases h
      unfold Worker.recordLatency quietCheck assertionFailed at hlatency
      split at hlatency
      · next hquiet =>
        cases hlatency
        split at hquiet
        · cases hquiet
        · split at hquiet
          · cases hquiet
            exact ⟨_, rfl⟩
          · cases hquiet
      · cases hlatency
      · cases hlatency
    · obtain ⟨hput, -⟩ := Prod.mk.inj h
      exact State.putEvent_error strict (Prod.ext hput rfl)

/-- So the loop gives no error. -/
theorem drain_error (envs : Nat → Worker.HandleEnv) {f : Fault} : ∀ (n j : Nat) {w w' : Worker},
    Worker.drain c strict envs n j w = (.error f, w') → ∃ msg, f = .panic msg := by
  intro n
  induction n with
  | zero =>
    intro j w w' h
    cases h
  | succ n ih =>
    intro j w w' h
    rw [Worker.drain] at h
    split at h
    · cases h
    · split at h
      · cases h
        exact ⟨_, rfl⟩
      · cases h
      · split at h
        · next hhandle =>
          cases h
          exact handleEvent_error c strict hhandle
        · exact ih _ h

/-- `processEvents` goes on while nobody else does anything. -/
def ConsumesTo (envs : Nat → Worker.HandleEnv) (x y : Memory × ConsumerPc) : Prop :=
  ∃ j, consumerStep c strict (envs j) x.1 x.2 = some y

/-- **Alone, the steps of a round of `processEvents` are `Worker.processBatch`**, if nothing panics.
If the check of the capacity fails, it was the last one. -/
theorem processBatch_alone (envs : Nat → Worker.HandleEnv) {i : Nat} {m : Memory} {w : Worker}
    (hi : i < maxSignalBatches) (hsignal : m.worker.signal = true)
    (h : Worker.processBatch c strict envs m.worker = (.ok (), w)) :
    ∃ m', ReflTransGen (ConsumesTo c strict envs) (m, .waiting i)
        (m', if m.worker.ringBuffer.cap ≤ maxDrainEvents then .waiting (i + 1) else .stopped) ∧
      m'.worker = w := by
  let m₀ : Memory := { m with worker := { m.worker with signal := false } }
  have hreceive : ConsumesTo c strict envs (m, .waiting i) (m₀, .capacity i) :=
    ⟨0, (if_pos hi).trans (if_pos hsignal)⟩
  rw [Worker.processBatch, Worker.drainAll] at h
  cases hcheck : checkCapacity strict m₀.worker with
  | ok u =>
    have hcap : m.worker.ringBuffer.cap ≤ maxDrainEvents :=
      of_decide_eq_true (check_eq_ok.mp hcheck)
    rw [if_pos hcap]
    rw [show check strict _ _ = .ok () from hcheck] at h
    have hdrain : Worker.drain c strict envs maxDrainEvents 0 m₀.worker = (.ok (), w) := by
      rcases hdrain : Worker.drain c strict envs maxDrainEvents 0 m₀.worker with ⟨f | u, w'⟩
      · obtain ⟨msg, rfl⟩ := drain_error c strict envs _ _ hdrain
        rw [hdrain] at h
        cases h
      · rw [hdrain] at h
        exact h
    obtain ⟨m', hloop, hworker⟩ := loop_alone c strict envs maxDrainEvents 0 m₀ w rfl hdrain
    have hstart : ConsumesTo c strict envs (m₀, .capacity i) (m₀, .draining i (.test 0)) := by
      refine ⟨0, ?_⟩
      unfold consumerStep
      dsimp only
      rw [hcheck]
    have hsteps := @lift_loop c strict _ (.draining i) (.waiting (i + 1)) (consumerStep c strict)
      (fun {env m x m' x'} hstep => by
        unfold consumerStep
        dsimp only
        rw [hstep]
        cases x' <;> rfl) envs m₀ m' 0 hloop
    exact ⟨m', .head hreceive (.head hstart hsteps), hworker⟩
  | error f =>
    have hcap : ¬ m.worker.ringBuffer.cap ≤ maxDrainEvents := by
      intro hcap
      have hok : checkCapacity strict m₀.worker = .ok () :=
        check_eq_ok.mpr (decide_eq_true hcap)
      rw [hok] at hcheck
      cases hcheck
    rw [if_neg hcap]
    rw [show check strict _ _ = .error f from hcheck] at h
    cases f with
    | panic msg => cases h
    | error msg =>
      cases h
      refine ⟨{ m₀ with worker := { m₀.worker with isUnhealthy := true } },
        .head hreceive (.single ⟨0, ?_⟩), rfl⟩
      unfold consumerStep
      dsimp only
      rw [hcheck]

/-- `Shutdown` goes on while nobody else does anything. -/
def ShutsDownTo (envs : Nat → Worker.HandleEnv) (goOn : Bool) (x y : Memory × ShutdownPc) : Prop :=
  ∃ j, shutdownStep c strict (envs j) goOn x.1 x.2 = some y

/-- **Alone, the steps of `Shutdown` after its wait are `Worker.drainBuffer`**, if nothing
panics. -/
theorem drainBuffer_alone (envs : Nat → Worker.HandleEnv) (goOn : Bool) {m : Memory} {w : Worker}
    {r : Except Fault Unit} (hr : ¬ Panics r)
    (h : Worker.drainBuffer c strict envs m.worker = (r, w)) :
    ∃ m', ReflTransGen (ShutsDownTo c strict envs goOn) (m, .capacity) (m', .returned) ∧
      m'.worker = w := by
  rw [Worker.drainBuffer, Worker.drainAll] at h
  cases hcheck : checkCapacity strict m.worker with
  | ok u =>
    rw [show check strict _ _ = .ok () from hcheck] at h
    have hdrain : Worker.drain c strict envs maxDrainEvents 0 m.worker = (.ok (), w) := by
      cases r with
      | ok u => exact h
      | error f =>
        obtain ⟨msg, rfl⟩ := drain_error c strict envs _ _ h
        exact absurd ⟨msg, rfl⟩ hr
    obtain ⟨m', hloop, hworker⟩ := loop_alone c strict envs maxDrainEvents 0 m w rfl hdrain
    have hstart : ShutsDownTo c strict envs goOn (m, .capacity) (m, .draining (.test 0)) := by
      refine ⟨0, ?_⟩
      unfold shutdownStep
      dsimp only
      rw [hcheck]
    have hsteps := @lift_loop c strict _ .draining .returned
      (fun env m pc => shutdownStep c strict env goOn m pc)
      (fun {env m x m' x'} hstep => by
        unfold shutdownStep
        dsimp only
        rw [hstep]
        cases x' <;> rfl) envs m m' 0 hloop
    exact ⟨m', .head hstart hsteps, hworker⟩
  | error f =>
    rw [show check strict _ _ = .error f from hcheck] at h
    cases f with
    | panic msg =>
      cases h
      exact absurd ⟨msg, rfl⟩ hr
    | error msg =>
      cases h
      refine ⟨{ m with worker := { m.worker with isUnhealthy := true } }, .single ⟨0, ?_⟩, rfl⟩
      unfold shutdownStep
      dsimp only
      rw [hcheck]

end Logryph
