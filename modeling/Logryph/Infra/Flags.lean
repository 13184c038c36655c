import Logryph.Infra.Bytes

/-!
# Command-line flags

The `flag` package of Go, for a set of boolean flags.

* `parseBool` — the words that `strconv.ParseBool` takes
* `FlagSet.parseOne`, `FlagSet.parse` — the settings, up to the first argument that is no flag
* `FlagSet.Reads`, `FlagSet.AsksHelp` — how the arguments are written for that
* `FlagSet.parse_ok_iff`, `FlagSet.parse_help_iff` — the parser takes them so
-/

namespace Infra

/-- The byte of `-`. -/
def dash : UInt8 := 0x2D

/-- The byte of `=`. -/
def equalsSign : UInt8 := 0x3D

/-- `strconv.ParseBool`. -/
def parseBool (s : Bytes) : Option Bool :=
  if s ∈ ["1", "t", "T", "true", "TRUE", "True"].map lit then some true
  else if s ∈ ["0", "f", "F", "false", "FALSE", "False"].map lit then some false
  else none

/-- The name of a flag can be written on a command line. -/
structure FlagName (name : Bytes) : Prop where
  nonempty : name ≠ []
  noDash : name.head? ≠ some dash
  noEquals : equalsSign ∉ name

instance instDecidableFlagName (name : Bytes) : Decidable (FlagName name) :=
  decidable_of_iff (name ≠ [] ∧ name.head? ≠ some dash ∧ equalsSign ∉ name)
    ⟨fun h => ⟨h.1, h.2.1, h.2.2⟩, fun h => ⟨h.1, h.2, h.3⟩⟩

/-- A boolean flag. -/
structure BoolFlag where
  name : Bytes
  usage : Bytes
  valid : FlagName name

/-- A set of flags, in the order of their names. -/
structure FlagSet where
  name : Bytes
  flags : List BoolFlag

/-! ## One argument -/

/-- The name before the first `=`, and the value after it. -/
def splitValue : Bytes → Bytes × Option Bytes
  | [] => ([], none)
  | b :: bs =>
    if b = equalsSign then ([], some bs) else (b :: (splitValue bs).1, (splitValue bs).2)

/-- What an argument looks like. -/
inductive ArgShape where
  | positional
  | terminator
  | malformed
  | flag (name : Bytes) (value : Option Bytes)

/-- The shape of a flag without its dashes. -/
def flagShape (name : Bytes) : ArgShape :=
  if name = [] ∨ name.head? = some dash ∨ name.head? = some equalsSign then .malformed
  else .flag (splitValue name).1 (splitValue name).2

/-- The shape of an argument. One dash or two begin a flag. -/
def argShape : Bytes → ArgShape
  | b :: d :: s =>
    if b ≠ dash then .positional
    else if d = dash then if s = [] then .terminator else flagShape s
    else flagShape (d :: s)
  | _ => .positional

/-- What `parseOne` makes of an argument. -/
inductive ParsedArg where
  | setting (name : Bytes) (value : Bool)
  | help
  | failed (msg : Bytes)
  | terminator
  | positional

/-- What `Parse` makes of the arguments. -/
inductive ParsedArgs where
  | ok (settings : List (Bytes × Bool)) (rest : List Bytes)
  | help
  | failed (msg : Bytes)

/-- A setting before the others. -/
def ParsedArgs.cons (s : Bytes × Bool) : ParsedArgs → ParsedArgs
  | .ok settings rest => .ok (s :: settings) rest
  | .help => .help
  | .failed msg => .failed msg

/-- The value of a flag: the last setting counts. -/
def settingOf (settings : List (Bytes × Bool)) (name : Bytes) (default : Bool) : Bool :=
  settings.foldl (fun value s => if s.1 = name then s.2 else value) default

namespace FlagSet

variable (quote : Bytes → Bytes) (f : FlagSet)

/-- `parseOne`. How `%q` writes a text is an input. -/
def parseOne (s : Bytes) : ParsedArg :=
  match argShape s with
  | .positional => .positional
  | .terminator => .terminator
  | .malformed => .failed (lit "bad flag syntax: " ++ s)
  | .flag name value =>
    if ∃ flag ∈ f.flags, flag.name = name then
      match value with
      | none => .setting name true
      | some v =>
        match parseBool v with
        | some b => .setting name b
        | none => .failed (lit "invalid boolean value " ++ quote v ++ lit " for -" ++ name ++
            lit ": parse error")
    else if name = lit "help" ∨ name = lit "h" then .help
    else .failed (lit "flag provided but not defined: -" ++ name)

/-- `Parse`. The arguments after the flags are kept. -/
def parse : List Bytes → ParsedArgs
  | [] => .ok [] []
  | s :: args =>
    match f.parseOne quote s with
    | .setting name value => (parse args).cons (name, value)
    | .help => .help
    | .failed msg => .failed msg
    | .terminator => .ok [] args
    | .positional => .ok [] (s :: args)

/-- `defaultUsage`, line by line, where a usage is one line without a name in back quotes. A name of
one letter has its usage on the same line. -/
def usage : List Bytes :=
  (lit "Usage of " ++ f.name ++ lit ":") :: f.flags.flatMap fun flag =>
    if flag.name.length ≤ 1 then [lit "  -" ++ flag.name ++ lit "\t" ++ flag.usage]
    else [lit "  -" ++ flag.name, lit "    \t" ++ flag.usage]

end FlagSet

/-! ## How flags are written -/

/-- What follows the name. -/
def valueText : Option Bytes → Bytes
  | none => []
  | some v => equalsSign :: v

/-- The argument is the name after one dash or two, alone or with a value. -/
def Spells (name : Bytes) (value : Option Bytes) (s : Bytes) : Prop :=
  s = dash :: (name ++ valueText value) ∨ s = dash :: dash :: (name ++ valueText value)

/-- The argument begins no flag. -/
def NoFlag (s : Bytes) : Prop :=
  s.length < 2 ∨ s.head? ≠ some dash ∨ s = [dash, dash]

theorem splitValue_eq_iff {s name : Bytes} {value : Option Bytes} :
    splitValue s = (name, value) ↔ s = name ++ valueText value ∧ equalsSign ∉ name := by
  induction s generalizing name with
  | nil =>
    cases name <;> cases value <;> simp [splitValue, valueText]
  | cons b bs ih =>
    rw [splitValue]
    by_cases hb : b = equalsSign
    · subst hb
      rw [if_pos rfl]
      cases name with
      | nil => cases value <;> simp [valueText]
      | cons d ds =>
        simp only [Prod.mk.injEq, List.nil_eq, reduceCtorEq, false_and, List.cons_append,
          List.cons.injEq, List.mem_cons, not_or, false_iff, not_and, and_imp]
        intro hd _ hne
        exact absurd hd hne
    · rw [if_neg hb]
      cases name with
      | nil =>
        cases value with
        | none => simp [valueText]
        | some v => simp [valueText, hb]
      | cons d ds =>
        have htail : (splitValue bs).1 = ds ∧ (splitValue bs).2 = value ↔
            bs = ds ++ valueText value ∧ equalsSign ∉ ds := by
          rw [← ih, Prod.ext_iff]
        simp only [Prod.mk.injEq, List.cons.injEq, List.cons_append, List.mem_cons, not_or]
        constructor
        · rintro ⟨⟨rfl, hds⟩, hvalue⟩
          obtain ⟨hbs, hmem⟩ := htail.mp ⟨hds, hvalue⟩
          exact ⟨⟨rfl, hbs⟩, Ne.symm hb, hmem⟩
        · rintro ⟨⟨rfl, hbs⟩, -, hmem⟩
          obtain ⟨hds, hvalue⟩ := htail.mpr ⟨hbs, hmem⟩
          exact ⟨⟨rfl, hds⟩, hvalue⟩

theorem flagShape_eq_flag {t name : Bytes} {value : Option Bytes} :
    flagShape t = .flag name value ↔ FlagName name ∧ t = name ++ valueText value := by
  unfold flagShape
  have hsplit : (splitValue t).1 = name ∧ (splitValue t).2 = value ↔
      t = name ++ valueText value ∧ equalsSign ∉ name := by
    rw [← splitValue_eq_iff, Prod.ext_iff]
  by_cases ht : t = [] ∨ t.head? = some dash ∨ t.head? = some equalsSign
  · rw [if_pos ht]
    refine iff_of_false ArgShape.noConfusion ?_
    rintro ⟨⟨hne, hdash, hequals⟩, rfl⟩
    obtain ⟨d, ds, rfl⟩ := List.exists_cons_of_ne_nil hne
    rcases ht with h | h | h
    · cases h
    · exact hdash h
    · cases h
      exact hequals List.mem_cons_self
  · rw [if_neg ht, ArgShape.flag.injEq, hsplit]
    push Not at ht
    refine ⟨fun ⟨heq, hmem⟩ => ⟨⟨?_, ?_, hmem⟩, heq⟩, fun ⟨hflag, heq⟩ => ⟨heq, hflag.noEquals⟩⟩
    · rintro rfl
      cases value with
      | none => exact ht.1 heq
      | some v => exact ht.2.2 (heq ▸ rfl)
    · intro hhead
      refine ht.2.1 ?_
      rw [heq, List.head?_append, hhead, Option.some_or]

/-- What is no flag does not get the shape of one. -/
theorem flagShape_cases (t : Bytes) :
    flagShape t = .malformed ∨ ∃ name value, flagShape t = .flag name value := by
  unfold flagShape
  split
  · exact Or.inl rfl
  · exact Or.inr ⟨_, _, rfl⟩

/-- **An argument with the shape of a flag is written as one.** -/
theorem argShape_eq_flag {s name : Bytes} {value : Option Bytes} :
    argShape s = .flag name value ↔ FlagName name ∧ Spells name value s := by
  -- the first byte of a name is no dash
  have hfirst : ∀ {t : Bytes}, FlagName name → dash :: t ≠ name ++ valueText value := by
    intro t hflag heq
    obtain ⟨d, ds, rfl⟩ := List.exists_cons_of_ne_nil hflag.nonempty
    exact hflag.noDash (congrArg some (List.cons.inj heq).1.symm)
  have hnonempty : FlagName name → [] ≠ name ++ valueText value := by
    intro hflag heq
    exact hflag.nonempty (List.append_eq_nil_iff.mp heq.symm).1
  unfold Spells
  match s with
  | [] => simp [argShape]
  | [b] =>
    refine iff_of_false ArgShape.noConfusion ?_
    rintro ⟨hflag, h | h⟩
    · exact hnonempty hflag (List.cons.inj h).2
    · cases h
  | b :: d :: s =>
    rw [argShape]
    by_cases hb : b = dash
    · subst hb
      rw [if_neg (not_not.mpr rfl)]
      by_cases hd : d = dash
      · subst hd
        rw [if_pos rfl]
        simp only [List.cons.injEq, true_and]
        by_cases hs : s = []
        · rw [if_pos hs, hs]
          refine iff_of_false ArgShape.noConfusion ?_
          rintro ⟨hflag, h | h⟩
          · exact hfirst hflag h
          · exact hnonempty hflag h
        · rw [if_neg hs, flagShape_eq_flag]
          exact and_congr_right fun hflag => (or_iff_right (hfirst hflag)).symm
      · rw [if_neg hd, flagShape_eq_flag]
        simp [hd]
    · simp [hb]

theorem noFlag_iff {s : Bytes} :
    NoFlag s ↔ argShape s = .positional ∨ argShape s = .terminator := by
  have hshape : ∀ t, ¬ (flagShape t = .positional ∨ flagShape t = .terminator) := by
    intro t
    rcases flagShape_cases t with h | ⟨name, value, h⟩ <;> simp [h]
  match s with
  | [] => simp [NoFlag, argShape]
  | [b] => simp [NoFlag, argShape]
  | b :: d :: s =>
    rw [argShape]
    by_cases hb : b = dash
    · by_cases hd : d = dash
      · by_cases hs : s = []
        · simp [NoFlag, hb, hd, hs]
        · simp [NoFlag, hb, hd, hs, hshape]
      · simp [NoFlag, hb, hd, hshape]
    · simp [NoFlag, hb]

namespace FlagSet

variable (quote : Bytes → Bytes) {f : FlagSet}

/-- The argument sets a flag. -/
def Sets (f : FlagSet) (s : Bytes) (setting : Bytes × Bool) : Prop :=
  (∃ flag ∈ f.flags, flag.name = setting.1) ∧
    ∃ value, Spells setting.1 value s ∧ value.elim (some true) parseBool = some setting.2

/-- The argument asks for help, with a name that is no flag. -/
def IsHelp (f : FlagSet) (s : Bytes) : Prop :=
  ∃ name ∈ [lit "help", lit "h"], (∀ flag ∈ f.flags, flag.name ≠ name) ∧
    ∃ value, Spells name value s

/-- The arguments are these settings, and then nothing or an argument that begins no flag. -/
def Reads (f : FlagSet) (args : List Bytes) (settings : List (Bytes × Bool)) : Prop :=
  ∃ taken rest, args = taken ++ rest ∧ List.Forall₂ f.Sets taken settings ∧
    ∀ s ∈ rest.head?, NoFlag s

/-- The arguments are some settings, and then a request for help. -/
def AsksHelp (f : FlagSet) (args : List Bytes) : Prop :=
  ∃ taken settings s rest, args = taken ++ s :: rest ∧ List.Forall₂ f.Sets taken settings ∧
    f.IsHelp s

theorem parseOne_setting_iff {s name : Bytes} {value : Bool} :
    f.parseOne quote s = .setting name value ↔ f.Sets s (name, value) := by
  unfold parseOne Sets
  constructor
  · intro h
    split at h
    · cases h
    · cases h
    · cases h
    · next name' text hshape =>
      have hspells := (argShape_eq_flag.mp hshape).2
      split at h
      · next hflag =>
        cases text with
        | none =>
          cases h
          exact ⟨hflag, none, hspells, rfl⟩
        | some v =>
          dsimp only at h
          split at h
          · next b hb =>
            cases h
            exact ⟨hflag, some v, hspells, hb⟩
          · cases h
      · split at h <;> cases h
  · rintro ⟨⟨flag, hflag, hname⟩, text, hspells, hvalue⟩
    dsimp only at hname hspells hvalue
    rw [argShape_eq_flag.mpr ⟨hname ▸ flag.valid, hspells⟩]
    dsimp only
    rw [if_pos ⟨flag, hflag, hname⟩]
    cases text with
    | none =>
      cases hvalue
      rfl
    | some v =>
      dsimp only [Option.elim_some] at hvalue ⊢
      rw [hvalue]

theorem parseOne_help_iff {s : Bytes} : f.parseOne quote s = .help ↔ f.IsHelp s := by
  unfold parseOne IsHelp
  constructor
  · intro h
    split at h
    · cases h
    · cases h
    · cases h
    · next name text hshape =>
      split at h
      · cases text with
        | none => cases h
        | some v =>
          dsimp only at h
          split at h <;> cases h
      · next hflag =>
        split at h
        · next hname =>
          refine ⟨name, ?_, fun flag hmem heq => hflag ⟨flag, hmem, heq⟩, text,
            (argShape_eq_flag.mp hshape).2⟩
          simpa using hname
        · cases h
  · rintro ⟨name, hname, hflag, text, hspells⟩
    have hvalid : FlagName name := by
      rcases List.mem_pair.mp hname with rfl | rfl <;> decide
    rw [argShape_eq_flag.mpr ⟨hvalid, hspells⟩]
    dsimp only
    rw [if_neg (fun ⟨flag, hmem, heq⟩ => hflag flag hmem heq), if_pos (List.mem_pair.mp hname)]

theorem parseOne_noFlag_iff {s : Bytes} :
    (f.parseOne quote s = .positional ∨ f.parseOne quote s = .terminator) ↔ NoFlag s := by
  rw [noFlag_iff]
  unfold parseOne
  cases argShape s with
  | positional => simp
  | terminator => simp
  | malformed => simp
  | flag name value =>
    dsimp only
    split
    · cases value with
      | none => simp
      | some v =>
        dsimp only
        split <;> simp
    · split <;> simp

theorem sets_unique {s : Bytes} {x y : Bytes × Bool} (hx : f.Sets s x) (hy : f.Sets s y) :
    x = y := by
  have h := (parseOne_setting_iff id).mpr hx
  rw [(parseOne_setting_iff id).mpr hy] at h
  obtain ⟨hname, hvalue⟩ := ParsedArg.setting.inj h
  exact Prod.ext hname.symm hvalue.symm

theorem reads_cons_iff {s : Bytes} {args : List Bytes} {settings : List (Bytes × Bool)} :
    f.Reads (s :: args) settings ↔ NoFlag s ∧ settings = [] ∨
      ∃ x tail, f.Sets s x ∧ f.Reads args tail ∧ settings = x :: tail := by
  constructor
  · rintro ⟨taken, rest, heq, hsets, hrest⟩
    cases hsets with
    | nil =>
      cases heq
      exact Or.inl ⟨hrest s rfl, rfl⟩
    | cons hx htail =>
      cases heq
      exact Or.inr ⟨_, _, hx, ⟨_, rest, rfl, htail, hrest⟩, rfl⟩
  · rintro (⟨hno, rfl⟩ | ⟨x, tail, hx, ⟨taken, rest, rfl, htail, hrest⟩, rfl⟩)
    · refine ⟨[], s :: args, rfl, .nil, fun s' hs' => ?_⟩
      cases hs'
      exact hno
    · exact ⟨s :: taken, rest, rfl, .cons hx htail, hrest⟩

theorem asksHelp_cons_iff {s : Bytes} {args : List Bytes} :
    f.AsksHelp (s :: args) ↔ f.IsHelp s ∨ ∃ x, f.Sets s x ∧ f.AsksHelp args := by
  constructor
  · rintro ⟨taken, settings, s', rest, heq, hsets, hhelp⟩
    cases hsets with
    | nil =>
      cases heq
      exact Or.inl hhelp
    | cons hx htail =>
      cases heq
      exact Or.inr ⟨_, hx, _, _, s', rest, rfl, htail, hhelp⟩
  · rintro (hhelp | ⟨x, hx, taken, settings, s', rest, rfl, htail, hhelp⟩)
    · exact ⟨[], [], s, args, rfl, .nil, hhelp⟩
    · exact ⟨s :: taken, x :: settings, s', rest, rfl, .cons hx htail, hhelp⟩

/-- What an argument is, and how it is written. -/
theorem parseOne_cases (f : FlagSet) (s : Bytes) :
    (∃ x, f.parseOne quote s = .setting x.1 x.2 ∧ f.Sets s x ∧ ¬ f.IsHelp s ∧ ¬ NoFlag s) ∨
      (f.parseOne quote s = .help ∧ f.IsHelp s ∧ (∀ x, ¬ f.Sets s x) ∧ ¬ NoFlag s) ∨
      ((f.parseOne quote s = .positional ∨ f.parseOne quote s = .terminator) ∧ NoFlag s ∧
        (∀ x, ¬ f.Sets s x) ∧ ¬ f.IsHelp s) ∨
      ((∃ msg, f.parseOne quote s = .failed msg) ∧ (∀ x, ¬ f.Sets s x) ∧ ¬ f.IsHelp s ∧
        ¬ NoFlag s) := by
  have hsets : ∀ x : Bytes × Bool, f.Sets s x ↔ f.parseOne quote s = .setting x.1 x.2 :=
    fun x => (parseOne_setting_iff quote).symm
  simp only [hsets, ← parseOne_help_iff quote, ← @parseOne_noFlag_iff quote f s]
  cases f.parseOne quote s <;> simp

/-- **The arguments that are parsed**, and what they set. -/
theorem parse_ok_iff {args : List Bytes} {settings : List (Bytes × Bool)} :
    (∃ rest, f.parse quote args = .ok settings rest) ↔ f.Reads args settings := by
  induction args generalizing settings with
  | nil =>
    constructor
    · rintro ⟨rest, h⟩
      cases h
      exact ⟨[], [], rfl, .nil, fun s hs => (by cases hs)⟩
    · rintro ⟨taken, rest, heq, hsets, -⟩
      obtain ⟨rfl, rfl⟩ := List.append_eq_nil_iff.mp heq.symm
      cases hsets
      exact ⟨[], rfl⟩
  | cons s args ih =>
    rw [parse, reads_cons_iff]
    rcases parseOne_cases quote f s with ⟨x, hone, hx, -, hno⟩ | ⟨hone, -, hsets, hno⟩ |
      ⟨hone, hno, hsets, -⟩ | ⟨⟨msg, hone⟩, hsets, -, hno⟩
    · rw [hone]
      constructor
      · rintro ⟨rest, h⟩
        cases hparse : f.parse quote args with
        | ok tail rest' =>
          rw [hparse] at h
          cases h
          exact Or.inr ⟨x, tail, hx, ih.mp ⟨_, hparse⟩, rfl⟩
        | help =>
          rw [hparse] at h
          cases h
        | failed msg =>
          rw [hparse] at h
          cases h
      · rintro (⟨hno', -⟩ | ⟨y, tail, hy, hreads, rfl⟩)
        · exact absurd hno' hno
        · obtain ⟨rest, hparse⟩ := ih.mpr hreads
          cases sets_unique hx hy
          exact ⟨rest, by rw [hparse]; rfl⟩
    · simp [hone, hno, hsets]
    · rcases hone with hone | hone <;> simp [hone, hno, hsets, eq_comm]
    · simp [hone, hno, hsets]

/-- **The arguments that ask for help.** -/
theorem parse_help_iff {args : List Bytes} : f.parse quote args = .help ↔ f.AsksHelp args := by
  induction args with
  | nil =>
    refine iff_of_false ParsedArgs.noConfusion ?_
    rintro ⟨taken, settings, s, rest, heq, -⟩
    cases (List.append_eq_nil_iff.mp heq.symm).2
  | cons s args ih =>
    rw [parse, asksHelp_cons_iff, ← ih]
    rcases parseOne_cases quote f s with ⟨x, hone, hx, hhelp, -⟩ | ⟨hone, hhelp, -, -⟩ |
      ⟨hone, -, hsets, hhelp⟩ | ⟨⟨msg, hone⟩, hsets, hhelp, -⟩
    · rw [hone, or_iff_right hhelp]
      have hcons : (f.parse quote args).cons x = .help ↔ f.parse quote args = .help := by
        cases f.parse quote args <;> simp [ParsedArgs.cons]
      exact hcons.trans ⟨fun h => ⟨x, hx, h⟩, fun ⟨_, _, h⟩ => h⟩
    · simp [hone, hhelp]
    · rcases hone with hone | hone <;> simp [hone, hsets, hhelp]
    · simp [hone, hsets, hhelp]

end FlagSet

end Infra
