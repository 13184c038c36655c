import Logryph.Infra.Bytes

/-!
# Assertions and failed calls

`assert.Check` returns an error when its condition is false, and in strict mode (the default) it
panics instead. A call therefore ends in one of three ways: a value, an error, or a panic that
unwinds through every caller.
-/

namespace Logryph

open Infra

/-- How a call ends that gives no value. -/
inductive Fault where
  | error (msg : Bytes)
  | panic (msg : Bytes)
  deriving DecidableEq

namespace Fault

/-- `fmt.Errorf("context: %w", err)`. A panic goes past it. -/
def wrap (context : Bytes) : Fault → Fault
  | error msg => error (context ++ lit ": " ++ msg)
  | panic msg => panic msg

def isPanic : Fault → Bool
  | error _ => false
  | panic _ => true

end Fault

/-- The result of a failed `assert.Check`. -/
def assertionFailed (strict : Bool) (msg : Bytes) : Fault :=
  let err := lit "ASSERTION FAILED: " ++ msg
  if strict then .panic err else .error err

/-- `assert.Check`. -/
def check (strict condition : Bool) (msg : Bytes) : Except Fault Unit :=
  if condition then .ok () else .error (assertionFailed strict msg)

/-- Adds context to the error of a call. -/
def inContext {α : Type} (context : Bytes) : Except Fault α → Except Fault α
  | .ok a => .ok a
  | .error f => .error (f.wrap context)

/-- The decimal text of a number, as `%d` prints it. -/
def natText (n : Nat) : Bytes := utf8 (Nat.toDigits 10 n)

theorem natText_injective {m n : Nat} (h : natText m = natText n) : m = n := by
  have := congrArg (fun cs => Nat.ofDigitChars 10 cs 0) (utf8_injective h)
  simpa [Nat.ofDigitChars_toDigits] using this

def intText (n : Int) : Bytes := (if n < 0 then lit "-" else []) ++ natText n.natAbs

/-- `assert.InRange`. -/
def inRange (strict : Bool) (val min max : Int) (name : Bytes) : Except Fault Unit :=
  check strict (decide (min ≤ val) && decide (val ≤ max)) (name ++ lit " (" ++ intText val ++
    lit ") out of range [" ++ intText min ++ lit ", " ++ intText max ++ lit "]")

@[simp] theorem check_eq_ok {strict condition : Bool} {msg : Bytes} {u : Unit} :
    check strict condition msg = .ok u ↔ condition = true := by
  unfold check
  split <;> simp_all

@[simp] theorem check_true (strict : Bool) (msg : Bytes) : check strict true msg = .ok () := rfl

theorem inRange_eq_ok {strict : Bool} {val min max : Int} {name : Bytes} (hmin : min ≤ val)
    (hmax : val ≤ max) : inRange strict val min max name = .ok () := by
  rw [inRange, decide_eq_true hmin, decide_eq_true hmax]
  rfl

@[simp] theorem inContext_eq_ok {α : Type} {context : Bytes} {x : Except Fault α} {a : α} :
    inContext context x = .ok a ↔ x = .ok a := by
  cases x <;> simp [inContext]

/-- A sequence of calls succeeds when each of them does. -/
theorem bind_eq_ok {ε α β : Type} {x : Except ε α} {f : α → Except ε β} {b : β} :
    (x >>= f) = .ok b ↔ ∃ a, x = .ok a ∧ f a = .ok b := by
  cases x with
  | error e =>
    constructor
    · intro h
      cases h
    · rintro ⟨a, h, -⟩
      cases h
  | ok a =>
    constructor
    · exact fun h => ⟨a, rfl, h⟩
    · rintro ⟨a', h, h'⟩
      cases h
      exact h'

/-! ## Panics -/

/-- The call does not return. -/
def Panics {α : Type} (x : Except Fault α) : Prop := ∃ msg, x = .error (.panic msg)

@[simp] theorem not_panics_ok {α : Type} (a : α) : ¬ Panics (.ok a : Except Fault α) := by
  rintro ⟨msg, h⟩
  cases h

@[simp] theorem not_panics_error {α : Type} (msg : Bytes) :
    ¬ Panics (.error (.error msg) : Except Fault α) := by
  rintro ⟨_, h⟩
  cases h

@[simp] theorem panics_panic {α : Type} (msg : Bytes) :
    Panics (.error (.panic msg) : Except Fault α) := ⟨msg, rfl⟩

/-- Whether a fault is a panic does not depend on what was to be returned. -/
theorem panics_error_iff {α : Type} {f : Fault} :
    Panics (.error f : Except Fault α) ↔ f.isPanic = true := by
  cases f with
  | error msg => exact iff_of_false (not_panics_error msg) (by simp [Fault.isPanic])
  | panic msg => exact iff_of_true (panics_panic msg) rfl

@[simp] theorem panics_assertionFailed {α : Type} (msg : Bytes) :
    Panics (.error (assertionFailed true msg) : Except Fault α) := ⟨_, rfl⟩

@[simp] theorem panics_check {condition : Bool} {msg : Bytes} :
    Panics (check true condition msg) ↔ condition = false := by
  cases condition
  · exact iff_of_true (panics_assertionFailed msg) rfl
  · exact iff_of_false (not_panics_ok ()) (by decide)

/-- A sequence of calls panics in the first of them, or goes on and panics in the rest. -/
theorem panics_bind {α β : Type} {x : Except Fault α} {f : α → Except Fault β} :
    Panics (x >>= f) ↔ Panics x ∨ ∃ a, x = .ok a ∧ Panics (f a) := by
  cases x with
  | ok a =>
    constructor
    · exact fun h => Or.inr ⟨a, rfl, h⟩
    · rintro (h | ⟨a', h, hf⟩)
      · exact absurd h (not_panics_ok a)
      · cases h
        exact hf
  | error f' =>
    constructor
    · rintro ⟨msg, h⟩
      cases h
      exact Or.inl ⟨msg, rfl⟩
    · rintro (⟨msg, h⟩ | ⟨a, h, -⟩)
      · cases h
        exact ⟨msg, rfl⟩
      · cases h

@[simp] theorem panics_inContext {α : Type} {context : Bytes} {x : Except Fault α} :
    Panics (inContext context x) ↔ Panics x := by
  rcases x with (msg | msg) | a
  · exact iff_of_false (not_panics_error _) (not_panics_error msg)
  · exact iff_of_true ⟨msg, rfl⟩ ⟨msg, rfl⟩
  · exact iff_of_false (not_panics_ok a) (not_panics_ok a)

/-- A check at the start of a sequence. -/
theorem panics_check_bind {α : Type} {condition : Bool} {msg : Bytes} {x : Except Fault α} :
    Panics (check true condition msg >>= fun _ => x) ↔ (condition = true → Panics x) := by
  rw [panics_bind]
  cases condition <;> simp

end Logryph
