import Logryph.Assert
import Logryph.Infra.GoConv

/-!
# Policies

`observer.Rule` and the two functions that match a rule against a request. Both return a truth
value, so a failed assertion makes them answer `false`, or panic in strict mode.

The rules come from a file, which is read when the observer is made and again when it has changed.
The parser of the file is a parameter.
-/

namespace Logryph

open Infra

/-- `observer.Rule`. -/
structure Rule where
  id : Bytes
  matchMethods : List Bytes
  riskLevel : Bytes
  matchConditions : List (SortedMap Bytes Bytes) := []
  redact : List Bytes := []

/-- A failed check in a function that answers `false` then. -/
def answerCheck (strict condition : Bool) (msg : Bytes) (rest : Except Fault Bool) :
    Except Fault Bool :=
  if condition then rest
  else if strict then .error (assertionFailed strict msg)
  else .ok false

variable (strict : Bool)

/-- `MatchPattern`. -/
def matchPattern (pattern method : Bytes) : Except Fault Bool :=
  answerCheck strict (pattern ≠ []) (lit "pattern is non-empty") <|
  answerCheck strict (method ≠ []) (lit "method is non-empty") <|
  if pattern = method then .ok true
  else if pattern.getLast? = some 0x2A then .ok (pattern.dropLast.isPrefixOf method)
  else .ok false

/-- `toFloat`, on the values that JSON has. -/
def toFloat : Value → Option GoFloat
  | .float64 x => some (.finite x)
  | .string s => parseFloat s
  | _ => none

/-- The four orders. -/
def compareFloats (operator : Bytes) (x target : GoFloat) : Bool :=
  if operator = lit "gt" then target.lt x
  else if operator = lit "lt" then x.lt target
  else if operator = lit "gte" then target.le x
  else x.le target

/-- One round of the loop of `CheckConditions`. An absent entry of a condition is empty. -/
def checkCondition (params : SortedMap Bytes Value) (cond : SortedMap Bytes Bytes) : Bool :=
  let key := (cond.get? (lit "key")).getD []
  let operator := (cond.get? (lit "operator")).getD []
  let value := (cond.get? (lit "value")).getD []
  match params.get? key with
  | none => false
  | some val =>
    if operator = lit "eq" then sprint val = value
    else if operator = lit "gt" ∨ operator = lit "lt" ∨ operator = lit "gte" ∨
        operator = lit "lte" then
      match toFloat val, parseFloat value with
      | some x, some target => compareFloats operator x target
      | _, _ => false
    else true

def maxConditions : Nat := 64

/-- `CheckConditions`. -/
def checkConditions (conditions : List (SortedMap Bytes Bytes)) (params : Object) :
    Except Fault Bool :=
  if conditions.isEmpty then .ok true
  else
    match params with
    | none => answerCheck strict false (lit "params must not be nil") (.ok true)
    | some params =>
      answerCheck strict (conditions.length ≤ maxConditions)
        (lit "conditions exceed max: " ++ natText conditions.length) <|
      .ok (conditions.all (checkCondition params))

/-! ## Loading the rules -/

/-- `observer.Config`. -/
structure Config where
  version : Bytes
  policies : List Rule

/-- What loading takes from outside: `os.ReadFile`, `yaml.Unmarshal` into a `Config`, and
`filepath.Abs`. The errors are their texts. -/
structure PolicyFiles where
  readFile : Bytes → Except Bytes Bytes
  unmarshal : Bytes → Except Bytes Config
  abs : Bytes → Option Bytes

/-- `loadConfig`. -/
def loadConfig (files : PolicyFiles) (path : Bytes) : Except Fault Config :=
  match files.readFile path with
  | .error msg => .error (.error (lit "reading policy file: " ++ msg))
  | .ok data =>
    match files.unmarshal data with
    | .error msg => .error (.error (lit "parsing policy YAML: " ++ msg))
    | .ok config => .ok config

/-- `observer.ObserverEngine`. -/
structure ObserverEngine where
  config : Config
  configPath : Bytes

/-- `NewObserverEngine`. -/
def newObserverEngine (files : PolicyFiles) (configPath : Bytes) :
    Except Fault ObserverEngine := do
  check strict (configPath ≠ []) (lit "config path must not be empty")
  let absPath := (files.abs configPath).getD configPath
  let config ← loadConfig files absPath
  .ok ⟨config, absPath⟩

/-- `Reload`. -/
def ObserverEngine.reload (files : PolicyFiles) (e : ObserverEngine) :
    Except Fault Unit × ObserverEngine :=
  match loadConfig files e.configPath with
  | .error f => (.error f, e)
  | .ok config => (.ok (), { e with config })

theorem loadConfig_eq_ok {files : PolicyFiles} {path : Bytes} {config : Config} :
    loadConfig files path = .ok config ↔
      ∃ data, files.readFile path = .ok data ∧ files.unmarshal data = .ok config := by
  unfold loadConfig
  cases files.readFile path with
  | error msg => simp
  | ok data =>
    simp only [Except.ok.injEq, exists_eq_left']
    cases files.unmarshal data with
    | error msg => simp
    | ok config' => simp

theorem loadConfig_of_newObserverEngine {strict : Bool} {files : PolicyFiles} {path : Bytes}
    {e : ObserverEngine} (h : newObserverEngine strict files path = .ok e) :
    loadConfig files e.configPath = .ok e.config := by
  rw [newObserverEngine, bind_eq_ok] at h
  obtain ⟨_, -, h⟩ := h
  rw [bind_eq_ok] at h
  obtain ⟨config, hload, h⟩ := h
  cases h
  exact hload

end Logryph
