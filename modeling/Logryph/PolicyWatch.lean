import Logryph.Infra.Transition
import Logryph.Observer

/-!
# Watching the policy file

`Watch` compares the modification time of the policy file with the one that it has seen, every five
seconds, and reloads the file when it is later. The file may be written at any point between the
steps. The time that stands for the rules that were loaded first is taken after they were read.

* `PolicyWatch.step` — one access to the file by the observer, or a write by someone else
* `reload_steps` — the steps of a reload, when nothing comes between them
* `PolicyWatch.Inv` — what holds of the time that was seen, at each step
* `policy_current_iff` — when the rules are those of the file, after a tick
* `policy_missed` — a write before the first look at the file is never loaded
-/

namespace Logryph

open Infra

/-- `time.Time{}`, in nanoseconds from 1970. -/
def zeroTime : Int := -62135596800 * 10 ^ 9

def maxWatchTicks : Nat := 1 <<< 30

/-- What the observer is given, and the parser. -/
structure WatchEnv where
  strict : Bool
  configPath : Bytes
  unmarshal : Bytes → Except Bytes Config
  abs : Bytes → Option Bytes

/-- The files as `loadConfig` finds them. The read may fail. -/
def WatchEnv.files (env : WatchEnv) (data : Bytes) (failure : Option Bytes) : PolicyFiles where
  readFile _ :=
    match failure with
    | none => .ok data
    | some msg => .error msg
  unmarshal := env.unmarshal
  abs := env.abs

/-- Where the observer is. -/
inductive WatchPc where
  /-- before `NewObserverEngine` -/
  | opening
  | failed
  /-- before the first `Stat` -/
  | starting
  | waiting
  /-- in a tick that found a later time -/
  | reading (modTime : Int)
  | assigning (modTime : Int) (config : Config)
  | marking (modTime : Int)

/-- When the file was written last. -/
inductive Moment where
  | beforeRead
  | beforeStat
  | afterStat
  deriving DecidableEq

/-- The file, the observer, and its watcher. The rest is not there in the program: it says what came
when. -/
structure PolicyWatch where
  data : Bytes
  modTime : Int
  engine : Option ObserverEngine := none
  lastMod : Int := zeroTime
  pc : WatchPc := .opening
  ticks : Nat := 0
  /-- what `NewObserverEngine` read -/
  loaded : Bytes := []
  /-- the first `Stat` succeeded -/
  statOk : Bool := false
  written : Moment := .beforeRead
  /-- a tick began after the last write, and nothing failed in it -/
  fresh : Bool := false

inductive WatchAction where
  | write (data : Bytes) (modTime : Int)
  | load (failure : Option Bytes)
  | firstStat (ok : Bool)
  | tick (ok : Bool)
  | read (failure : Option Bytes)
  | assign
  | mark

namespace PolicyWatch

/-- The moment of a write. -/
def moment (s : PolicyWatch) : Moment :=
  match s.pc with
  | .opening => .beforeRead
  | .failed => .beforeRead
  | .starting => .beforeStat
  | _ => .afterStat

/-- The body of the loop of `Watch` up to the comparison. -/
def tick (s : PolicyWatch) (ok : Bool) : PolicyWatch :=
  if !ok then { s with ticks := s.ticks + 1 }
  else if s.lastMod < s.modTime then
    { s with ticks := s.ticks + 1, fresh := true, pc := .reading s.modTime }
  else { s with ticks := s.ticks + 1, fresh := true }

variable (env : WatchEnv)

/-- One step. A watcher that is stopped takes none. -/
def step (s : PolicyWatch) : WatchAction → Option PolicyWatch
  | .write data modTime =>
    if s.modTime < modTime then
      some { s with data, modTime, written := s.moment, fresh := false }
    else none
  | .load failure =>
    match s.pc with
    | .opening =>
      match newObserverEngine env.strict (env.files s.data failure) env.configPath with
      | .error _ => some { s with pc := .failed }
      | .ok e => some { s with engine := some e, loaded := s.data, pc := .starting }
    | _ => none
  | .firstStat ok =>
    match s.pc with
    | .starting =>
      some { s with lastMod := if ok then s.modTime else zeroTime, statOk := ok, pc := .waiting }
    | _ => none
  | .tick ok =>
    match s.pc with
    | .waiting => if s.ticks < maxWatchTicks then some (s.tick ok) else none
    | _ => none
  | .read failure =>
    match s.pc, s.engine with
    | .reading modTime, some e =>
      match loadConfig (env.files s.data failure) e.configPath with
      | .error _ => some { s with fresh := false, pc := .waiting }
      | .ok config => some { s with pc := .assigning modTime config }
    | _, _ => none
  | .assign =>
    match s.pc, s.engine with
    | .assigning modTime config, some e =>
      some { s with engine := some { e with config }, pc := .marking modTime }
    | _, _ => none
  | .mark =>
    match s.pc with
    | .marking modTime => some { s with lastMod := modTime, pc := .waiting }
    | _ => none

/-- The rules are those of the file. -/
def Current (s : PolicyWatch) : Prop :=
  ∃ e, s.engine = some e ∧ env.unmarshal s.data = .ok e.config

/-- The watcher takes the file for known. The first `Stat` came after the last write, which came
after the read; or it failed, and the file is older than the time that is taken then. -/
def taken (s : PolicyWatch) : Bool :=
  if s.statOk then s.written = .beforeStat else s.modTime ≤ zeroTime

end PolicyWatch

variable {env : WatchEnv}

theorem unmarshal_of_loadConfig {data : Bytes} {failure : Option Bytes} {path : Bytes}
    {config : Config} (h : loadConfig (env.files data failure) path = .ok config) :
    env.unmarshal data = .ok config := by
  obtain ⟨data', hread, hparse⟩ := loadConfig_eq_ok.mp h
  cases failure with
  | some msg => cases hread
  | none =>
    cases hread
    exact hparse

namespace PolicyWatch

/-- **A reload**, when nothing comes between its steps. -/
theorem reload_steps {s : PolicyWatch} {modTime : Int} {e : ObserverEngine} {config : Config}
    (hpc : s.pc = .reading modTime) (hengine : s.engine = some e)
    (hconfig : env.unmarshal s.data = .ok config) :
    runSteps (step env) s [.read none, .assign]
      = some { s with engine := some (e.reload (env.files s.data none)).2, pc := .marking modTime }
      := by
  have hload : loadConfig (env.files s.data none) e.configPath = .ok config :=
    loadConfig_eq_ok.mpr ⟨s.data, rfl, hconfig⟩
  simp only [runSteps, step, hpc, hengine, hload, ObserverEngine.reload]

/-! ## The time that was seen -/

/-- The watcher is at work. -/
structure Watching (env : WatchEnv) (s : PolicyWatch) (e : ObserverEngine) : Prop where
  engine : s.engine = some e
  seen : s.lastMod ≤ s.modTime ∨ s.statOk = false ∧ s.lastMod = zeroTime
  zero_le : s.statOk = false → zeroTime ≤ s.lastMod
  /-- a file that is taken for known is not read again -/
  of_taken : s.taken = true →
    env.unmarshal s.loaded = .ok e.config ∧ s.modTime ≤ s.lastMod
  /-- otherwise the time that was seen stands for the rules -/
  of_not_taken : s.taken = false → s.modTime ≤ s.lastMod → env.unmarshal s.data = .ok e.config

/-- The tick has found a later time. -/
structure Reloading (env : WatchEnv) (s : PolicyWatch) (modTime : Int) (e : ObserverEngine) : Prop
    extends Watching env s e where
  lt : s.lastMod < modTime
  le : modTime ≤ s.modTime
  eq_of_fresh : s.fresh = true → modTime = s.modTime

/-- What holds where the observer is. -/
def Inv (env : WatchEnv) (s : PolicyWatch) : Prop :=
  match s.pc with
  | .opening => s.fresh = false
  | .failed => True
  | .starting => ∃ e, s.engine = some e ∧ env.unmarshal s.loaded = .ok e.config ∧
      (s.written = .beforeStat ∨ env.unmarshal s.data = .ok e.config) ∧ s.fresh = false
  | .waiting => ∃ e, Watching env s e ∧ (s.fresh = true → s.modTime ≤ s.lastMod)
  | .reading modTime => ∃ e, Reloading env s modTime e
  | .assigning modTime config => ∃ e, Reloading env s modTime e ∧
      (s.modTime ≤ modTime → env.unmarshal s.data = .ok config)
  | .marking modTime => ∃ e, Reloading env s modTime e ∧
      (s.modTime ≤ modTime → env.unmarshal s.data = .ok e.config)

section

variable {s : PolicyWatch} {e : ObserverEngine} {modTime : Int}

/-- The file with other bytes and a later time. -/
theorem Watching.write (h : Watching env s e) (data : Bytes) (hlt : s.modTime < modTime) :
    Watching env { s with data, modTime, written := .afterStat, fresh := false } e where
  engine := h.engine
  seen := by
    rcases h.seen with hle | hzero
    · exact Or.inl (hle.trans hlt.le)
    · exact Or.inr hzero
  zero_le := h.zero_le
  of_taken := by
    intro htaken
    cases hstat : s.statOk with
    | true => simp [taken, hstat] at htaken
    | false =>
      -- the watcher started from the zero time, and the later time is not after it either
      simp only [taken, hstat, Bool.false_eq_true, if_false, decide_eq_true_eq] at htaken
      have hold : s.taken = true := by
        simp only [taken, hstat, Bool.false_eq_true, if_false, decide_eq_true_eq]
        exact hlt.le.trans htaken
      exact ⟨(h.of_taken hold).1, htaken.trans (h.zero_le hstat)⟩
  of_not_taken := by
    intro htaken hle
    rcases h.seen with hseen | ⟨hstat, hzero⟩
    · exact absurd (hseen.trans_lt hlt) (not_lt.mpr hle)
    · simp only [taken, hstat, Bool.false_eq_true, if_false, decide_eq_false_iff_not] at htaken
      exact absurd (hle.trans_eq hzero) htaken

theorem Reloading.write {modTime' : Int} (h : Reloading env s modTime e) (data : Bytes)
    (hlt : s.modTime < modTime') :
    Reloading env { s with data, modTime := modTime', written := .afterStat, fresh := false }
      modTime e where
  toWatching := h.toWatching.write data hlt
  lt := h.lt
  le := h.le.trans hlt.le
  eq_of_fresh hfresh := by cases hfresh

/-- While the file is reloaded, it is not taken for known. -/
theorem Reloading.not_seen (h : Reloading env s modTime e) : ¬ s.modTime ≤ s.lastMod :=
  not_le.mpr (h.lt.trans_le h.le)

/-- The new rules are there. -/
theorem Reloading.assign (h : Reloading env s modTime e) (config : Config) :
    Reloading env { s with engine := some { e with config }, pc := .marking modTime } modTime
      { e with config } where
  engine := rfl
  seen := h.seen
  zero_le := h.zero_le
  of_taken htaken := absurd (h.of_taken htaken).2 h.not_seen
  of_not_taken _ hle := absurd hle h.not_seen
  lt := h.lt
  le := h.le
  eq_of_fresh := h.eq_of_fresh

/-- The time of the new rules is kept. -/
theorem Reloading.mark (h : Reloading env s modTime e)
    (hcurrent : s.modTime ≤ modTime → env.unmarshal s.data = .ok e.config) :
    Watching env { s with lastMod := modTime, pc := .waiting } e where
  engine := h.engine
  seen := Or.inl h.le
  zero_le hstat := (h.zero_le hstat).trans h.lt.le
  of_taken htaken := absurd (h.of_taken htaken).2 h.not_seen
  of_not_taken _ hle := hcurrent hle

theorem Inv.tick (h : Watching env s e) (hpc : s.pc = .waiting)
    (hfresh : s.fresh = true → s.modTime ≤ s.lastMod) (ok : Bool) : Inv env (s.tick ok) := by
  cases ok with
  | false =>
    have hs : s.tick false = { s with ticks := s.ticks + 1 } := rfl
    rw [hs, Inv, hpc]
    exact ⟨e, { h with }, hfresh⟩
  | true =>
    by_cases hlt : s.lastMod < s.modTime
    · have hs : s.tick true
          = { s with ticks := s.ticks + 1, fresh := true, pc := .reading s.modTime } := by
        rw [PolicyWatch.tick, Bool.not_true, if_neg Bool.false_ne_true, if_pos hlt]
      rw [hs]
      exact ⟨e, { h with }, hlt, le_refl _, fun _ => rfl⟩
    · have hs : s.tick true = { s with ticks := s.ticks + 1, fresh := true } := by
        rw [PolicyWatch.tick, Bool.not_true, if_neg Bool.false_ne_true, if_neg hlt]
      rw [hs, Inv, hpc]
      exact ⟨e, { h with }, fun _ => not_lt.mp hlt⟩

theorem Inv.firstStat (hengine : s.engine = some e)
    (hloaded : env.unmarshal s.loaded = .ok e.config)
    (hwritten : s.written = .beforeStat ∨ env.unmarshal s.data = .ok e.config) (ok : Bool) :
    Watching env
      { s with lastMod := if ok then s.modTime else zeroTime, statOk := ok, pc := .waiting } e := by
  cases ok with
  | true =>
    refine ⟨hengine, Or.inl (le_refl _), (nomatch ·), fun _ => ⟨hloaded, le_refl _⟩, ?_⟩
    intro htaken _
    rw [taken, if_pos rfl, decide_eq_false_iff_not] at htaken
    exact hwritten.resolve_left htaken
  | false =>
    refine ⟨hengine, Or.inr ⟨rfl, rfl⟩, fun _ => le_refl _, fun htaken => ⟨hloaded, ?_⟩, ?_⟩
    · rw [taken, if_neg Bool.false_ne_true, decide_eq_true_eq] at htaken
      exact htaken
    · intro htaken hle
      rw [taken, if_neg Bool.false_ne_true, decide_eq_false_iff_not] at htaken
      exact absurd hle htaken

end

/-- A write keeps what holds, wherever the observer is. -/
theorem Inv.write {s : PolicyWatch} (h : Inv env s) (data : Bytes) {modTime : Int}
    (hlt : s.modTime < modTime) :
    Inv env { s with data, modTime, written := s.moment, fresh := false } := by
  unfold Inv moment at *
  cases hpc : s.pc with
  | opening => rfl
  | failed => trivial
  | starting =>
    rw [hpc] at h
    obtain ⟨e, hengine, hloaded, _, _⟩ := h
    exact ⟨e, hengine, hloaded, Or.inl rfl, rfl⟩
  | waiting =>
    rw [hpc] at h
    obtain ⟨e, hw, _⟩ := h
    exact ⟨e, { hw.write data hlt with }, (nomatch ·)⟩
  | reading seen =>
    rw [hpc] at h
    obtain ⟨e, hr⟩ := h
    exact ⟨e, { hr.write data hlt with }⟩
  | assigning seen config =>
    -- the rules in hand are old now, and so is the time that will be kept with them
    rw [hpc] at h
    obtain ⟨e, hr, _⟩ := h
    exact ⟨e, { hr.write data hlt with }, fun hle => absurd (hr.le.trans_lt hlt) (not_lt.mpr hle)⟩
  | marking seen =>
    rw [hpc] at h
    obtain ⟨e, hr, _⟩ := h
    exact ⟨e, { hr.write data hlt with }, fun hle => absurd (hr.le.trans_lt hlt) (not_lt.mpr hle)⟩

/-- **Each step keeps what holds.** -/
theorem Inv.step {s s' : PolicyWatch} {a : WatchAction} (h : Inv env s)
    (hstep : PolicyWatch.step env s a = some s') : Inv env s' := by
  cases a with
  | write data modTime =>
    rw [PolicyWatch.step] at hstep
    split at hstep
    · next hlt =>
      cases hstep
      exact h.write data hlt
    · cases hstep
  | load failure =>
    rw [PolicyWatch.step] at hstep
    split at hstep
    · next hpc =>
      rw [Inv, hpc] at h
      split at hstep
      · cases hstep
        trivial
      · next e hnew =>
        cases hstep
        have hdata := unmarshal_of_loadConfig (loadConfig_of_newObserverEngine hnew)
        exact ⟨e, rfl, hdata, Or.inr hdata, h⟩
    · cases hstep
  | firstStat ok =>
    rw [PolicyWatch.step] at hstep
    split at hstep
    · next hpc =>
      rw [Inv, hpc] at h
      obtain ⟨e, hengine, hloaded, hwritten, hfresh⟩ := h
      cases hstep
      refine ⟨e, Inv.firstStat hengine hloaded hwritten ok, fun hnow => ?_⟩
      cases hfresh.symm.trans hnow
    · cases hstep
  | tick ok =>
    rw [PolicyWatch.step] at hstep
    split at hstep
    · next hpc =>
      split at hstep
      · cases hstep
        rw [Inv, hpc] at h
        obtain ⟨e, hw, hfresh⟩ := h
        exact Inv.tick hw hpc hfresh ok
      · cases hstep
    · cases hstep
  | read failure =>
    rw [PolicyWatch.step] at hstep
    split at hstep
    · next modTime e' hpc hengine =>
      rw [Inv, hpc] at h
      obtain ⟨e, hr⟩ := h
      split at hstep
      · -- the time is not kept, so the next tick tries again
        cases hstep
        exact ⟨e, { hr.toWatching with }, (nomatch ·)⟩
      · next config hload =>
        cases hstep
        exact ⟨e, { hr with }, fun _ => unmarshal_of_loadConfig hload⟩
    · cases hstep
  | assign =>
    rw [PolicyWatch.step] at hstep
    split at hstep
    · next modTime config e' hpc hengine =>
      rw [Inv, hpc] at h
      obtain ⟨e, hr, hconfig⟩ := h
      cases hr.engine.symm.trans hengine
      cases hstep
      exact ⟨_, hr.assign config, hconfig⟩
    · cases hstep
  | mark =>
    rw [PolicyWatch.step] at hstep
    split at hstep
    · next modTime hpc =>
      rw [Inv, hpc] at h
      obtain ⟨e, hr, hconfig⟩ := h
      cases hstep
      exact ⟨e, hr.mark hconfig, fun hfresh => (hr.eq_of_fresh hfresh).ge⟩
    · cases hstep

/-- The file is there, and the observer is not. -/
def start (data : Bytes) (modTime : Int) : PolicyWatch := { data, modTime }

/-- **When the rules are those of the file.** After a tick that began after the last write, they are
if the watcher could not take that write for known, or if what the observer read at first holds the
same rules. -/
theorem policy_current_iff (env : WatchEnv) (data : Bytes) (modTime : Int)
    (actions : List WatchAction) (s : PolicyWatch)
    (hrun : runSteps (step env) (start data modTime) actions = some s) (hpc : s.pc = .waiting)
    (hfresh : s.fresh = true) :
    s.Current env ↔ (s.taken = true → env.unmarshal s.data = env.unmarshal s.loaded) := by
  have hstart : Inv env (start data modTime) := rfl
  have hinv : Inv env s := runSteps_invariant (Inv env) Inv.step hstart hrun
  rw [Inv, hpc] at hinv
  obtain ⟨e, hw, hseen⟩ := hinv
  have hcurrent : s.Current env ↔ env.unmarshal s.data = .ok e.config := by
    rw [Current, hw.engine]
    simp only [Option.some.injEq, exists_eq_left']
  rw [hcurrent]
  cases htaken : s.taken with
  | true =>
    rw [(hw.of_taken htaken).1]
    simp only [forall_const]
  | false =>
    exact iff_of_true (hw.of_not_taken htaken (hseen hfresh)) (nomatch ·)

/-- The text of a policy file without rules. -/
def policyText (version : Bytes) : Bytes :=
  lit "version: \"" ++ version ++ lit "\"\npolicies: []\n"

/-- A parser that knows the files of the runs below. -/
def twoVersions (data : Bytes) : Except Bytes Config :=
  if data = policyText (lit "1.0") then .ok ⟨lit "1.0", []⟩
  else if data = policyText (lit "2.0") then .ok ⟨lit "2.0", []⟩
  else .error (lit "not a policy")

def watchEnv : WatchEnv where
  strict := true
  configPath := lit "logryph-policy.yaml"
  unmarshal := twoVersions
  abs _ := none

/-- The file is written after the watcher has started. -/
def updated : List WatchAction :=
  [.load none, .firstStat true, .write (policyText (lit "2.0")) 2, .tick true, .read none, .assign,
    .mark]

/-- The file is written before the watcher has started. -/
def updatedEarly : List WatchAction :=
  [.load none, .write (policyText (lit "2.0")) 2, .firstStat true, .tick true]

/-- The second version of the rules is in force. -/
def updatedState : PolicyWatch where
  data := policyText (lit "2.0")
  modTime := 2
  engine := some ⟨⟨lit "2.0", []⟩, lit "logryph-policy.yaml"⟩
  lastMod := 2
  pc := .waiting
  ticks := 1
  loaded := policyText (lit "1.0")
  statOk := true
  written := .afterStat
  fresh := true

/-- The first version of the rules is in force. -/
def missedState : PolicyWatch :=
  { updatedState with
    engine := some ⟨⟨lit "1.0", []⟩, lit "logryph-policy.yaml"⟩
    written := .beforeStat }

/-- A write is loaded. -/
theorem policy_current_updated :
    runSteps (step watchEnv) (start (policyText (lit "1.0")) 1) updated = some updatedState ∧
    updatedState.Current watchEnv := by
  have hrun : runSteps (step watchEnv) (start (policyText (lit "1.0")) 1) updated
      = some updatedState := rfl
  exact ⟨hrun, (policy_current_iff watchEnv _ 1 updated _ hrun rfl rfl).mpr (nomatch ·)⟩

/-- **A write is missed**: the rules are those that were read before it, and the watcher sees no
later time. -/
theorem policy_missed :
    runSteps (step watchEnv) (start (policyText (lit "1.0")) 1) updatedEarly = some missedState ∧
    missedState.pc = .waiting ∧ missedState.fresh = true ∧ ¬ missedState.Current watchEnv := by
  refine ⟨rfl, rfl, rfl, ?_⟩
  rintro ⟨e, he, hdata⟩
  cases he
  have hparse : watchEnv.unmarshal missedState.data = .ok ⟨lit "2.0", []⟩ := rfl
  have hversion : (lit "2.0" : Bytes) = lit "1.0" := by
    injection hparse.symm.trans hdata with hconfig
    exact congrArg Config.version hconfig
  exact absurd hversion (by decide)

end PolicyWatch

end Logryph
