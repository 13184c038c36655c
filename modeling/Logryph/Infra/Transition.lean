import Mathlib.Data.List.Infix
import Mathlib.Logic.Basic

/-!
# Transition systems

A system is a step function that gives the next state for an action, if the action is possible. A
run is a list of actions. Threads that share memory are such a system: an action names the thread
that goes on, and what it meets with.

* `runSteps` — the state after a run, if each of its actions was possible
* `along` — a condition holds at every step of a run
* `runAlong` — both in one evaluation
* `runSteps_inv`, `runSteps_inv_on` — what the allowed steps preserve holds after every run of
  allowed steps
* `along_append` — a condition along one run and then another
* `runSteps_invariant` — what every step preserves holds after every run
* `length_add_le_of_runSteps` — if there is less to do after every step, then a run has at most so
  many steps
* `along_iff` — a condition that is exact at each step is exact for runs
* `runSteps_iff` — so it is for what cannot be restored once it is lost
* `answers` — what a machine answers to a list of inputs, for a step that is always possible
* `answers_simulation` — machines in related states give the same answers
-/

namespace Infra

variable {σ α : Type*} (step : σ → α → Option σ)

/-- The state after a run. -/
def runSteps : σ → List α → Option σ
  | s, [] => some s
  | s, a :: actions =>
    match step s a with
    | none => none
    | some s' => runSteps s' actions

/-- The condition `ok` holds whenever a step is taken. -/
def along (ok : σ → α → Bool) : σ → List α → Bool
  | _, [] => true
  | s, a :: actions =>
    ok s a &&
      match step s a with
      | none => true
      | some s' => along ok s' actions

/-- The state after a run, if the condition holds at every step of it. -/
def runAlong (ok : σ → α → Bool) : σ → List α → Option σ
  | s, [] => some s
  | s, a :: actions =>
    if ok s a then
      match step s a with
      | none => none
      | some s' => runAlong ok s' actions
    else none

theorem runSteps_singleton (s : σ) (a : α) : runSteps step s [a] = step s a := by
  rw [runSteps]
  cases step s a <;> rfl

variable {step}

/-- A condition along two runs, one after the other. -/
theorem along_append {ok : σ → α → Bool} {s : σ} : ∀ {before after : List α} {s₁ : σ},
    runSteps step s₁ before = some s → (along step ok s₁ (before ++ after) = true ↔
      along step ok s₁ before = true ∧ along step ok s after = true)
  | [], _, _, h => by
    cases h
    exact (and_iff_right rfl).symm
  | a :: before, after, s₁, h => by
    rw [runSteps] at h
    rw [List.cons_append, along, along, Bool.and_eq_true, Bool.and_eq_true, and_assoc]
    cases ha : step s₁ a with
    | none =>
      rw [ha] at h
      cases h
    | some s₂ =>
      rw [ha] at h
      exact and_congr_right fun _ => along_append h

/-- **The invariant rule.** -/
theorem runSteps_inv {ok : σ → α → Bool} (Inv : σ → Prop)
    (hstep : ∀ {s a s'}, Inv s → ok s a = true → step s a = some s' → Inv s') :
    ∀ {actions : List α} {s s' : σ}, Inv s → along step ok s actions = true →
      runSteps step s actions = some s' → Inv s'
  | [], s, s', h, _, hrun => by
    cases hrun
    exact h
  | a :: actions, s, s', h, hok, hrun => by
    rw [runSteps] at hrun
    rw [along, Bool.and_eq_true] at hok
    cases ha : step s a with
    | none =>
      rw [ha] at hrun
      cases hrun
    | some s₁ =>
      rw [ha] at hrun hok
      exact runSteps_inv Inv hstep (hstep h hok.1 ha) hok.2 hrun

/-- The invariant rule, with a further condition on the actions that need not be decidable. -/
theorem runSteps_inv_on {ok : σ → α → Bool} {C : α → Prop} (Inv : σ → Prop)
    (hstep : ∀ {s a s'}, Inv s → ok s a = true → C a → step s a = some s' → Inv s') :
    ∀ {actions : List α} {s s' : σ}, Inv s → along step ok s actions = true →
      (∀ a ∈ actions, C a) → runSteps step s actions = some s' → Inv s'
  | [], s, s', h, _, _, hrun => by
    cases hrun
    exact h
  | a :: actions, s, s', h, hok, hC, hrun => by
    rw [List.forall_mem_cons] at hC
    rw [runSteps] at hrun
    rw [along, Bool.and_eq_true] at hok
    cases ha : step s a with
    | none =>
      rw [ha] at hrun
      cases hrun
    | some s₁ =>
      rw [ha] at hrun hok
      exact runSteps_inv_on Inv hstep (hstep h hok.1 hC.1 ha) hok.2 hC.2 hrun

/-- A run under a condition is a run, and the condition holds along it. -/
theorem runAlong_eq_some {ok : σ → α → Bool} : ∀ {actions : List α} {s s' : σ},
    runAlong step ok s actions = some s' →
      along step ok s actions = true ∧ runSteps step s actions = some s'
  | [], _, _, h => ⟨rfl, h⟩
  | a :: actions, s, s', h => by
    rw [runAlong] at h
    split at h
    · next hok =>
      rw [along, runSteps, hok, Bool.true_and]
      cases ha : step s a with
      | none =>
        rw [ha] at h
        cases h
      | some s₁ =>
        rw [ha] at h
        exact runAlong_eq_some h
    · cases h

/-- What is evaluated for a run under a condition. -/
theorem exists_of_runAlong {ok : σ → α → Bool} {P : σ → Bool} {actions : List α} {s : σ}
    (h : (runAlong step ok s actions).any P = true) :
    ∃ s', along step ok s actions = true ∧ runSteps step s actions = some s' ∧ P s' = true := by
  obtain ⟨s', hs', hP⟩ := (Option.any_eq_true _ _).mp h
  obtain ⟨hok, hrun⟩ := runAlong_eq_some hs'
  exact ⟨s', hok, hrun, hP⟩

/-- A condition on the actions alone. -/
theorem along_of_forall {ok : α → Bool} : ∀ {actions : List α} {s : σ},
    (∀ a ∈ actions, ok a = true) → along step (fun _ a => ok a) s actions = true
  | [], _, _ => rfl
  | a :: actions, s, h => by
    rw [List.forall_mem_cons] at h
    rw [along, h.1, Bool.true_and]
    split
    · rfl
    · exact along_of_forall h.2

/-- The invariant rule, for what every step preserves. -/
theorem runSteps_invariant (Inv : σ → Prop)
    (hstep : ∀ {s a s'}, Inv s → step s a = some s' → Inv s') {actions : List α} {s s' : σ}
    (h : Inv s) (hrun : runSteps step s actions = some s') : Inv s' :=
  @runSteps_inv σ α step (fun _ _ => true) Inv (fun h _ ha => hstep h ha) actions s s' h
    (along_of_forall fun _ _ => rfl) hrun

/-- **The bound on a run.** If each allowed step leaves less to do, then there are at most so many
of them. -/
theorem length_add_le_of_runSteps {ok : α → Bool} (Inv : σ → Prop) (todo : σ → Nat)
    (hstep : ∀ {s a s'}, Inv s → ok a = true → step s a = some s' → Inv s' ∧ todo s' < todo s) :
    ∀ {actions : List α} {s s' : σ}, Inv s → (∀ a ∈ actions, ok a = true) →
      runSteps step s actions = some s' → actions.length + todo s' ≤ todo s
  | [], s, s', _, _, hrun => by
    cases hrun
    exact (Nat.zero_add _).le
  | a :: actions, s, s', h, hok, hrun => by
    rw [List.forall_mem_cons] at hok
    rw [runSteps] at hrun
    cases ha : step s a with
    | none =>
      rw [ha] at hrun
      cases hrun
    | some s₁ =>
      rw [ha] at hrun
      obtain ⟨hinv, hlt⟩ := hstep h hok.1 ha
      have ih := length_add_le_of_runSteps Inv todo hstep hinv hok.2 hrun
      rw [List.length_cons]
      omega

/-- **An exact condition.** If the condition says of each step whether it keeps the invariant, then
the invariant holds in every state that a run passes exactly if the condition holds along it. -/
theorem along_iff {ok : σ → α → Bool} (Inv : σ → Prop)
    (hstep : ∀ {s a}, Inv s → (ok s a = true ↔ ∀ s', step s a = some s' → Inv s')) :
    ∀ {actions : List α} {s : σ}, Inv s → (along step ok s actions = true ↔
      ∀ done s', done <+: actions → runSteps step s done = some s' → Inv s')
  | [], s, h => by
    refine iff_of_true rfl fun done s' hdone hrun => ?_
    rw [List.prefix_nil.mp hdone] at hrun
    cases hrun
    exact h
  | a :: actions, s, h => by
    rw [along, Bool.and_eq_true, hstep h]
    constructor
    · rintro ⟨hnext, hrest⟩ done s' hdone hrun
      rcases List.prefix_cons_iff.mp hdone with rfl | ⟨later, rfl, hlater⟩
      · cases hrun
        exact h
      · rw [runSteps] at hrun
        cases ha : step s a with
        | none =>
          rw [ha] at hrun
          cases hrun
        | some s₁ =>
          rw [ha] at hrun hrest
          exact (along_iff Inv hstep (hnext s₁ ha)).mp hrest later s' hlater hrun
    · intro hall
      have hnext : ∀ s', step s a = some s' → Inv s' := fun s' hs' =>
        hall [a] s' (List.prefix_append [a] actions) ((runSteps_singleton step s a).trans hs')
      refine ⟨hnext, ?_⟩
      cases ha : step s a with
      | none => rfl
      | some s₁ =>
        refine (along_iff Inv hstep (hnext s₁ ha)).mpr fun later s' hlater hrun => ?_
        refine hall (a :: later) s' ((List.prefix_cons_inj a).mpr hlater) ?_
        rw [runSteps, ha]
        exact hrun

/-- **What is lost for good.** If a step keeps the property exactly if the condition holds at it,
and never restores it, then it holds after a run exactly if the condition holds along the run. What
every step keeps may be used for that. -/
theorem runSteps_iff {ok : σ → α → Bool} (Base Inv : σ → Prop)
    (hstep : ∀ {s a s'}, Base s → step s a = some s' →
      Base s' ∧ (Inv s' ↔ Inv s ∧ ok s a = true)) :
    ∀ {actions : List α} {s s' : σ}, Base s → runSteps step s actions = some s' →
      (Inv s' ↔ Inv s ∧ along step ok s actions = true)
  | [], s, s', _, hrun => by
    cases hrun
    exact (and_iff_left rfl).symm
  | a :: actions, s, s', h, hrun => by
    rw [runSteps] at hrun
    rw [along, Bool.and_eq_true, ← and_assoc]
    cases ha : step s a with
    | none =>
      rw [ha] at hrun
      cases hrun
    | some s₁ =>
      rw [ha] at hrun
      obtain ⟨hbase, hiff⟩ := hstep h ha
      rw [← hiff]
      exact runSteps_iff Base Inv hstep hbase hrun

/-! ## Machines that answer -/

section

variable {ι ο τ : Type*}

/-- The answers to the inputs, and the state after them. -/
def answers (step : σ → ι → ο × σ) : σ → List ι → List ο × σ
  | s, [] => ([], s)
  | s, i :: inputs =>
    ((step s i).1 :: (answers step (step s i).2 inputs).1, (answers step (step s i).2 inputs).2)

/-- **Simulation.** If related states give the same answer to every input, and are related after
it, then they give the same answers to every list of inputs, and are related after it. -/
theorem answers_simulation {step : σ → ι → ο × σ} {step' : τ → ι → ο × τ} (R : σ → τ → Prop)
    (hstep : ∀ {s t} i, R s t → (step s i).1 = (step' t i).1 ∧ R (step s i).2 (step' t i).2) :
    ∀ (inputs : List ι) {s : σ} {t : τ}, R s t →
      (answers step s inputs).1 = (answers step' t inputs).1 ∧
        R (answers step s inputs).2 (answers step' t inputs).2
  | [], _, _, h => ⟨rfl, h⟩
  | i :: inputs, s, t, h => by
    obtain ⟨hanswer, hnext⟩ := hstep i h
    obtain ⟨hanswers, hlast⟩ := answers_simulation R hstep inputs hnext
    simp only [answers, hanswer, hanswers]
    exact ⟨trivial, hlast⟩

end

end Infra
