import Logryph.Infra.Bytes

/-!
# The tags of an HTML text

A text is scanned byte by byte into characters, tags, and the rest of the markup: comments,
declarations, and tags that are not closed. Every byte carries a label, and the tokens keep the
labels, so one can ask where a piece of the text has ended up. A document with holes has two labels:
its own text is `template`, and what was put into the holes is `recorded`.

The states are those of the HTML standard as far as they decide where a token ends. After the tags
of some elements everything up to their end tag is text; that a script can hide its end tag in a
comment is left out.

* `Breaks` — some of the recorded text has become markup
* `breaks_of_not_plain`, `scan_plain` — text in a hole does so if it has a `<` in front of a letter
  or of one of `/`, `!` and `?`, and otherwise is read as characters
* `scan_raw`, `scan_raw_plain` — the same in an element like `title`, where only its end tag matters
* `scan_segments`, `breaks_segments` — and for the holes of a document together
* `Frame.tags_document`, `Frame.breaks_document` — for a document that begins with a title
* `bytes_scan` — the tokens are the text, byte for byte
-/

namespace Infra

namespace Html

/-! ## Characters -/

def isSpace (c : UInt8) : Bool := c = 0x20 ∨ c = 0x09 ∨ c = 0x0A ∨ c = 0x0C ∨ c = 0x0D

def isLetter (c : UInt8) : Bool := 0x41 ≤ c ∧ c ≤ 0x5A ∨ 0x61 ≤ c ∧ c ≤ 0x7A

def toLower (c : UInt8) : UInt8 := if 0x41 ≤ c ∧ c ≤ 0x5A then c + 0x20 else c

/-- What makes a `<` in front of it the beginning of markup. -/
def opens (c : UInt8) : Bool := isLetter c ∨ c = 0x2F ∨ c = 0x21 ∨ c = 0x3F

/-- No `<` of the text begins markup. -/
def plain : Bytes → Bool
  | [] => true
  | [_] => true
  | a :: b :: rest => !(decide (a = 0x3C) && opens b) && plain (b :: rest)

theorem plain_of_not_mem : ∀ {t : Bytes}, 0x3C ∉ t → plain t = true
  | [], _ => rfl
  | [_], _ => rfl
  | a :: b :: rest, h => by
    have ha : a ≠ 0x3C := fun heq => h (heq ▸ List.mem_cons_self)
    have ih := plain_of_not_mem fun hmem => h (List.mem_cons_of_mem a hmem)
    simp [plain, ha, ih]

/-! ## Inside a tag -/

/-- Where in a tag the scanner is. -/
inductive TagState where
  | name
  | beforeAttr
  | attrName
  | afterAttrName
  | beforeValue
  | quoted (mark : UInt8)
  | unquoted
  | afterQuoted
  | selfClosing
  deriving DecidableEq

namespace TagState

/-- Where an attribute can begin. -/
def nextAttr (c : UInt8) : TagState :=
  if isSpace c then .beforeAttr else if c = 0x2F then .selfClosing else .attrName

/-- The next state, or none at the end of the tag. -/
def step (s : TagState) (c : UInt8) : Option TagState :=
  match s with
  | .quoted mark => some (if c = mark then .afterQuoted else .quoted mark)
  | s =>
    if c = 0x3E then none
    else some <|
      match s with
      | .name => if isSpace c then .beforeAttr else if c = 0x2F then .selfClosing else .name
      | .attrName =>
        if isSpace c then .afterAttrName else if c = 0x2F then .selfClosing
        else if c = 0x3D then .beforeValue else .attrName
      | .afterAttrName =>
        if isSpace c then .afterAttrName else if c = 0x2F then .selfClosing
        else if c = 0x3D then .beforeValue else .attrName
      | .beforeValue =>
        if isSpace c then .beforeValue else if c = 0x22 ∨ c = 0x27 then .quoted c else .unquoted
      | .unquoted => if isSpace c then .beforeAttr else .unquoted
      | _ => nextAttr c

end TagState

/-! ## Inside a comment or a declaration -/

/-- Where in a comment or a declaration the scanner is. `bogus` is what ends with the next `>`,
as a document type does. -/
inductive DeclState where
  | opened
  | dash
  | bogus
  | commentStart
  | commentStartDash
  | comment
  | commentEndDash
  | commentEnd
  | commentEndBang
  deriving DecidableEq

/-- The next state, or none at the end. -/
def DeclState.step (s : DeclState) (c : UInt8) : Option DeclState :=
  match s with
  | .opened => if c = 0x3E then none else some (if c = 0x2D then .dash else .bogus)
  | .dash => if c = 0x3E then none else some (if c = 0x2D then .commentStart else .bogus)
  | .bogus => if c = 0x3E then none else some .bogus
  | .commentStart =>
    if c = 0x3E then none else some (if c = 0x2D then .commentStartDash else .comment)
  | .commentStartDash =>
    if c = 0x3E then none else some (if c = 0x2D then .commentEnd else .comment)
  | .comment => some (if c = 0x2D then .commentEndDash else .comment)
  | .commentEndDash => some (if c = 0x2D then .commentEnd else .comment)
  | .commentEnd =>
    if c = 0x3E then none
    else some (if c = 0x21 then .commentEndBang else if c = 0x2D then .commentEnd else .comment)
  | .commentEndBang =>
    if c = 0x3E then none else some (if c = 0x2D then .commentEndDash else .comment)

/-! ## The scanner -/

/-- The elements whose content is text up to their end tag. Without scripting, `noscript` is none of
them. -/
def rawNames : List Bytes :=
  [lit "title", lit "textarea", lit "style", lit "xmp", lit "iframe", lit "noembed",
    lit "noframes", lit "script"]

variable {α : Type}

/-- What the scanner is in the middle of, with the bytes of the token that is not complete, from the
last one on. In the last three states it is in one of these elements: in its text, after a `<`, and
after `</` and some of the name. -/
inductive Scanner (α : Type) where
  | data
  | plaintext
  | tagOpen (p : List (UInt8 × α))
  | endTagOpen (p : List (UInt8 × α))
  | tag (t : TagState) (p : List (UInt8 × α))
  | decl (d : DeclState) (p : List (UInt8 × α))
  | raw (name : Bytes)
  | rawLt (name : Bytes) (p : List (UInt8 × α))
  | rawEnd (name left : Bytes) (p : List (UInt8 × α))
  deriving DecidableEq

def Scanner.pending : Scanner α → List (UInt8 × α)
  | .data => []
  | .plaintext => []
  | .tagOpen p => p
  | .endTagOpen p => p
  | .tag _ p => p
  | .decl _ p => p
  | .raw _ => []
  | .rawLt _ p => p
  | .rawEnd _ _ p => p

inductive Token (α : Type) where
  | text (x : UInt8 × α)
  | tag (xs : List (UInt8 × α))
  | other (xs : List (UInt8 × α))

namespace Token

def bytes : Token α → List (UInt8 × α)
  | .text x => [x]
  | .tag xs => xs
  | .other xs => xs

/-- The bytes that are not characters. -/
def markup : Token α → List (UInt8 × α)
  | .text _ => []
  | .tag xs => xs
  | .other xs => xs

end Token

/-- Where a tag leads to. The name of an end tag is empty here. -/
def afterTag (xs : List (UInt8 × α)) : Scanner α :=
  let name := (((xs.drop 1).map Prod.fst).takeWhile fun c =>
    !(isSpace c || c = 0x2F || c = 0x3E)).map toLower
  if name ∈ rawNames then .raw name else if name = lit "plaintext" then .plaintext else .data

/-- Bytes that turn out to be characters, in front of what the next byte gives. -/
def flush (p : List (UInt8 × α)) (r : List (Token α) × Scanner α) : List (Token α) × Scanner α :=
  (p.reverse.map .text ++ r.1, r.2)

def stepData (x : UInt8 × α) : List (Token α) × Scanner α :=
  if x.1 = 0x3C then ([], .tagOpen [x]) else ([.text x], .data)

def stepRaw (name : Bytes) (x : UInt8 × α) : List (Token α) × Scanner α :=
  if x.1 = 0x3C then ([], .rawLt name [x]) else ([.text x], .raw name)

/-- One byte: the tokens that it completes. -/
def step (s : Scanner α) (x : UInt8 × α) : List (Token α) × Scanner α :=
  match s with
  | .data => stepData x
  | .plaintext => ([.text x], .plaintext)
  | .tagOpen p =>
    if isLetter x.1 then ([], .tag .name (x :: p))
    else if x.1 = 0x2F then ([], .endTagOpen (x :: p))
    else if x.1 = 0x21 then ([], .decl .opened (x :: p))
    else if x.1 = 0x3F then ([], .decl .bogus (x :: p))
    else flush p (stepData x)
  | .endTagOpen p =>
    if isLetter x.1 then ([], .tag .name (x :: p))
    else if x.1 = 0x3E then ([.other (x :: p).reverse], .data)
    else ([], .decl .bogus (x :: p))
  | .tag t p =>
    match t.step x.1 with
    | some t => ([], .tag t (x :: p))
    | none => ([.tag (x :: p).reverse], afterTag (x :: p).reverse)
  | .decl d p =>
    match d.step x.1 with
    | some d => ([], .decl d (x :: p))
    | none => ([.other (x :: p).reverse], .data)
  | .raw name => stepRaw name x
  | .rawLt name p =>
    if x.1 = 0x2F then ([], .rawEnd name name (x :: p)) else flush p (stepRaw name x)
  | .rawEnd name (c :: left) p =>
    if toLower x.1 = c then ([], .rawEnd name left (x :: p)) else flush p (stepRaw name x)
  | .rawEnd name [] p =>
    if isSpace x.1 then ([], .tag .beforeAttr (x :: p))
    else if x.1 = 0x2F then ([], .tag .selfClosing (x :: p))
    else if x.1 = 0x3E then ([.tag (x :: p).reverse], .data)
    else flush p (stepRaw name x)

/-- The end of the text. A tag or a comment that is not complete is lost, but is not text. -/
def finish : Scanner α → List (Token α)
  | .tag _ p => [.other p.reverse]
  | .decl _ p => [.other p.reverse]
  | s => s.pending.reverse.map .text

/-- The tokens up to the end of the text. -/
def scan (s : Scanner α) : List (UInt8 × α) → List (Token α)
  | [] => finish s
  | x :: xs => (step s x).1 ++ scan (step s x).2 xs

/-- The tokens that are completed by a part of the text. -/
def emit (s : Scanner α) : List (UInt8 × α) → List (Token α)
  | [] => []
  | x :: xs => (step s x).1 ++ emit (step s x).2 xs

/-- The scanner after a part of the text. -/
def after (s : Scanner α) (xs : List (UInt8 × α)) : Scanner α :=
  xs.foldl (fun s x => (step s x).2) s

/-- The tokens of a text. -/
def tokens (xs : List (UInt8 × α)) : List (Token α) := scan .data xs

/-- The tags among the tokens, as they are written. -/
def tags (ts : List (Token α)) : List Bytes :=
  ts.filterMap fun
    | .tag xs => some (xs.map Prod.fst)
    | _ => none

theorem scan_append : ∀ (s : Scanner α) (xs ys : List (UInt8 × α)),
    scan s (xs ++ ys) = emit s xs ++ scan (after s xs) ys
  | _, [], _ => rfl
  | s, x :: xs, ys => by
    rw [List.cons_append, scan, emit, scan_append (step s x).2 xs ys, List.append_assoc]
    rfl

@[simp] theorem tags_append (ts ts' : List (Token α)) : tags (ts ++ ts') = tags ts ++ tags ts' :=
  List.filterMap_append

@[simp] theorem tags_text (xs : List (UInt8 × α)) : tags (xs.map Token.text) = [] := by
  induction xs with
  | nil => rfl
  | cons x xs ih => exact ih

/-! ## No byte is lost -/

@[simp] theorem bytes_text (xs : List (UInt8 × α)) :
    (xs.map Token.text).flatMap Token.bytes = xs := by
  induction xs with
  | nil => rfl
  | cons x xs ih => simpa [Token.bytes] using ih

@[simp] theorem pending_afterTag (xs : List (UInt8 × α)) : (afterTag xs).pending = [] := by
  unfold afterTag
  dsimp only
  split
  · rfl
  · split <;> rfl

/-- The bytes of what a step gives. -/
def bytesOf (r : List (Token α) × Scanner α) : List (UInt8 × α) :=
  r.1.flatMap Token.bytes ++ r.2.pending.reverse

theorem bytesOf_stepData (x : UInt8 × α) : bytesOf (stepData x) = [x] := by
  unfold stepData
  split <;> simp [bytesOf, Token.bytes, Scanner.pending]

theorem bytesOf_stepRaw (name : Bytes) (x : UInt8 × α) : bytesOf (stepRaw name x) = [x] := by
  unfold stepRaw
  split <;> simp [bytesOf, Token.bytes, Scanner.pending]

theorem bytesOf_flush (p : List (UInt8 × α)) (r : List (Token α) × Scanner α) :
    bytesOf (flush p r) = p.reverse ++ bytesOf r := by
  rw [bytesOf, flush, List.flatMap_append, bytes_text, List.append_assoc]
  rfl

theorem bytesOf_closed {t : Token α} {s : Scanner α} (h : s.pending = []) :
    bytesOf ([t], s) = t.bytes := by
  simp [bytesOf, h]

theorem bytesOf_step (s : Scanner α) (x : UInt8 × α) :
    bytesOf (step s x) = s.pending.reverse ++ [x] := by
  have hgrow : ∀ p : List (UInt8 × α), (x :: p).reverse = p.reverse ++ [x] :=
    fun p => List.reverse_cons
  unfold step
  split
  · exact bytesOf_stepData x
  · exact bytesOf_closed rfl
  · split_ifs
    · exact hgrow _
    · exact hgrow _
    · exact hgrow _
    · exact hgrow _
    · rw [bytesOf_flush, bytesOf_stepData]
      rfl
  · split_ifs
    · exact hgrow _
    · rw [bytesOf_closed rfl]
      exact hgrow _
    · exact hgrow _
  · split
    · exact hgrow _
    · rw [bytesOf_closed (pending_afterTag _)]
      exact hgrow _
  · split
    · exact hgrow _
    · rw [bytesOf_closed rfl]
      exact hgrow _
  · exact bytesOf_stepRaw _ x
  · split
    · exact hgrow _
    · rw [bytesOf_flush, bytesOf_stepRaw]
      rfl
  · split
    · exact hgrow _
    · rw [bytesOf_flush, bytesOf_stepRaw]
      rfl
  · split_ifs
    · exact hgrow _
    · exact hgrow _
    · rw [bytesOf_closed rfl]
      exact hgrow _
    · rw [bytesOf_flush, bytesOf_stepRaw]
      rfl

theorem bytes_finish (s : Scanner α) : (finish s).flatMap Token.bytes = s.pending.reverse := by
  unfold finish
  split
  · simp [Token.bytes, Scanner.pending]
  · simp [Token.bytes, Scanner.pending]
  · exact bytes_text _

/-- **The tokens are the text**, byte for byte. -/
theorem bytes_scan : ∀ (s : Scanner α) (xs : List (UInt8 × α)),
    (scan s xs).flatMap Token.bytes = s.pending.reverse ++ xs
  | s, [] => by rw [scan, bytes_finish, List.append_nil]
  | s, x :: xs => by
    have hstep := bytesOf_step s x
    rw [bytesOf] at hstep
    rw [scan, List.flatMap_append, bytes_scan (step s x).2 xs, ← List.append_assoc, hstep,
      List.append_assoc, List.singleton_append]

theorem mem_of_mem_markup {t : Token α} {x : UInt8 × α} (h : x ∈ t.markup) : x ∈ t.bytes := by
  cases t with
  | text y => cases h
  | tag xs => exact h
  | other xs => exact h

/-- What a part of the text is read as comes from it. -/
theorem mem_of_mem_emit {s : Scanner α} {xs : List (UInt8 × α)} {t : Token α} {x : UInt8 × α}
    (ht : t ∈ emit s xs) (hx : x ∈ t.markup) : x ∈ s.pending ∨ x ∈ xs := by
  have hmem : x ∈ (scan s xs).flatMap Token.bytes := by
    have happend := scan_append s xs []
    rw [List.append_nil] at happend
    rw [happend, List.mem_flatMap]
    exact ⟨t, List.mem_append_left _ ht, mem_of_mem_markup hx⟩
  rw [bytes_scan, List.mem_append, List.mem_reverse] at hmem
  exact hmem

/-! ## Documents with holes -/

/-- Where a byte of a document is from: its own text, or what was put into a hole. -/
inductive Origin where
  | template
  | recorded
  deriving DecidableEq

def mark (o : Origin) (bs : Bytes) : List (UInt8 × Origin) := bs.map (·, o)

@[simp] theorem map_fst_mark (o : Origin) (bs : Bytes) : (mark o bs).map Prod.fst = bs := by
  rw [mark, List.map_map]
  exact List.map_id bs

/-- Some of what was put into the holes is not text. -/
def Breaks (ts : List (Token Origin)) : Prop := ∃ t ∈ ts, ∃ x ∈ t.markup, x.2 = .recorded

theorem breaks_append {ts ts' : List (Token Origin)} :
    Breaks (ts ++ ts') ↔ Breaks ts ∨ Breaks ts' := by
  simp [Breaks, or_and_right, exists_or]

theorem not_breaks_text (xs : List (UInt8 × Origin)) : ¬ Breaks (xs.map .text) := by
  rintro ⟨t, ht, x, hx, -⟩
  obtain ⟨y, -, rfl⟩ := List.mem_map.mp ht
  cases hx

theorem not_breaks_template {s : Scanner Origin} (hs : s.pending = []) (c : Bytes) :
    ¬ Breaks (emit s (mark .template c)) := by
  rintro ⟨t, ht, x, hx, horigin⟩
  rcases mem_of_mem_emit ht hx with hmem | hmem
  · rw [hs] at hmem
    cases hmem
  · obtain ⟨b, -, rfl⟩ := List.mem_map.mp hmem
    cases horigin

/-- The scanner is inside a tag, a comment or a declaration. -/
def Scanner.InMarkup : Scanner α → Prop
  | .tag _ _ => True
  | .decl _ _ => True
  | _ => False

/-- One more byte of the markup, which may be its last one. -/
theorem step_inMarkup {s : Scanner α} (hs : s.InMarkup) (x : UInt8 × α) :
    (∃ tok, (step s x).1 = [tok] ∧ tok.markup = (x :: s.pending).reverse) ∨
      (step s x).2.InMarkup ∧ (step s x).2.pending = x :: s.pending := by
  match s with
  | .tag t p =>
    rw [step]
    cases t.step x.1 with
    | some t' => exact .inr ⟨trivial, rfl⟩
    | none => exact .inl ⟨_, rfl, rfl⟩
  | .decl d p =>
    rw [step]
    cases d.step x.1 with
    | some d' => exact .inr ⟨trivial, rfl⟩
    | none => exact .inl ⟨_, rfl, rfl⟩

/-- What is inside markup stays so, however the text goes on. -/
theorem exists_markup {y : UInt8 × α} : ∀ {xs : List (UInt8 × α)} {s : Scanner α}, s.InMarkup →
    y ∈ s.pending → ∃ tok ∈ scan s xs, y ∈ tok.markup
  | [], .tag _ p, _, hy => ⟨.other p.reverse, List.mem_singleton_self _, List.mem_reverse.mpr hy⟩
  | [], .decl _ p, _, hy => ⟨.other p.reverse, List.mem_singleton_self _, List.mem_reverse.mpr hy⟩
  | x :: xs, s, hs, hy => by
    have hy' : y ∈ x :: s.pending := List.mem_cons_of_mem x hy
    rw [scan]
    rcases step_inMarkup hs x with ⟨tok, htok, hmarkup⟩ | ⟨hnext, hpending⟩
    · refine ⟨tok, List.mem_append_left _ (by simp [htok]), ?_⟩
      rw [hmarkup]
      exact List.mem_reverse.mpr hy'
    · obtain ⟨tok, htok, hmarkup⟩ := exists_markup hnext (hpending ▸ hy')
      exact ⟨tok, List.mem_append_right _ htok, hmarkup⟩

/-- After `</` neither is anything, unless the text ends there. -/
theorem exists_markup_endTagOpen {y : UInt8 × α} {xs : List (UInt8 × α)} {p : List (UInt8 × α)}
    (hy : y ∈ p) (hxs : xs ≠ []) : ∃ tok ∈ scan (.endTagOpen p) xs, y ∈ tok.markup := by
  obtain ⟨x, xs, rfl⟩ := List.exists_cons_of_ne_nil hxs
  have hy' : y ∈ x :: p := List.mem_cons_of_mem x hy
  rw [scan, step]
  split_ifs
  · exact exists_markup (s := .tag .name (x :: p)) trivial hy'
  · exact ⟨_, List.mem_append_left _ (List.mem_singleton_self _), List.mem_reverse.mpr hy'⟩
  · exact exists_markup (s := .decl .bogus (x :: p)) trivial hy'

/-! ## Holes in the text -/

theorem scan_data_cons {x : UInt8 × α} {xs : List (UInt8 × α)} (hx : x.1 ≠ 0x3C) :
    scan .data (x :: xs) = .text x :: scan .data xs := by
  rw [scan, step, stepData, if_neg hx]
  rfl

/-- A `<` that begins no markup is a character. -/
theorem scan_data_lt {x y : UInt8 × α} {xs : List (UInt8 × α)} (hx : x.1 = 0x3C)
    (hy : opens y.1 = false) : scan .data (x :: y :: xs) = .text x :: scan .data (y :: xs) := by
  simp only [opens, Bool.decide_or, Bool.or_eq_false_iff, decide_eq_false_iff_not,
    Bool.decide_eq_true] at hy
  have hopen : step (.tagOpen [x]) y = flush [x] (stepData y) := by
    rw [step, if_neg (by simp [hy.1]), if_neg hy.2.1, if_neg hy.2.2.1, if_neg hy.2.2.2]
  rw [scan, step, stepData, if_pos hx, List.nil_append, scan, hopen]
  rfl

/-- One that begins markup is not. -/
theorem exists_markup_lt {x y : UInt8 × α} {xs : List (UInt8 × α)} (hx : x.1 = 0x3C)
    (hy : opens y.1 = true) (hxs : xs ≠ []) :
    ∃ tok ∈ scan .data (x :: y :: xs), x ∈ tok.markup := by
  have hmem : x ∈ [y, x] := by simp
  rw [scan, step, stepData, if_pos hx, List.nil_append, scan, step]
  split_ifs with hletter hslash hbang hquestion
  · exact exists_markup (s := .tag .name [y, x]) trivial hmem
  · exact exists_markup_endTagOpen hmem hxs
  · exact exists_markup (s := .decl .opened [y, x]) trivial hmem
  · exact exists_markup (s := .decl .bogus [y, x]) trivial hmem
  · simp [opens, hletter, hslash, hbang, hquestion] at hy

/-- **A plain text is read as characters**, if what follows does not make its last byte markup. -/
theorem scan_plain {c : UInt8 × α} (hc : opens c.1 = false) (rest : List (UInt8 × α)) :
    ∀ {t : List (UInt8 × α)}, plain (t.map Prod.fst) = true →
      scan .data (t ++ c :: rest) = t.map .text ++ scan .data (c :: rest)
  | [], _ => rfl
  | [x], _ => by
    by_cases hx : x.1 = 0x3C
    · exact scan_data_lt hx hc
    · exact scan_data_cons hx
  | x :: y :: t, h => by
    simp only [List.map_cons, plain, Bool.and_eq_true, Bool.not_eq_true', Bool.and_eq_false_iff,
      decide_eq_false_iff_not] at h
    have ih := scan_plain hc rest (t := y :: t) (by simpa using h.2)
    by_cases hx : x.1 = 0x3C
    · have hy : opens y.1 = false := h.1.resolve_left (absurd hx)
      rw [List.cons_append, List.cons_append, scan_data_lt hx hy, ← List.cons_append, ih]
      rfl
    · rw [List.cons_append, scan_data_cons hx, ih]
      rfl

/-- **A text that is not plain is not.** -/
theorem breaks_of_not_plain {rest : List (UInt8 × Origin)} (hrest : rest ≠ []) :
    ∀ {t : Bytes}, plain t = false → Breaks (scan .data (mark .recorded t ++ rest))
  | [], h => by cases h
  | [a], h => by cases h
  | a :: b :: t, h => by
    simp only [plain, Bool.and_eq_false_iff, Bool.not_eq_false', Bool.and_eq_true,
      decide_eq_true_eq] at h
    show Breaks (scan .data ((a, .recorded) :: (b, .recorded) :: (mark .recorded t ++ rest)))
    by_cases hopen : a = 0x3C ∧ opens b = true
    · have hne : mark .recorded t ++ rest ≠ [] := by simp [hrest]
      obtain ⟨tok, htok, hmarkup⟩ := exists_markup_lt (x := (a, .recorded)) (y := (b, .recorded))
        hopen.1 hopen.2 hne
      exact ⟨tok, htok, _, hmarkup, rfl⟩
    · have ih := breaks_of_not_plain hrest (h.resolve_left hopen)
      have htext : ∀ ts, Breaks ts → Breaks (.text (a, .recorded) :: ts) :=
        fun ts ⟨tok, htok, hmarkup⟩ => ⟨tok, List.mem_cons_of_mem _ htok, hmarkup⟩
      by_cases ha : a = 0x3C
      · have hb : opens b = false := by simpa [ha] using hopen
        rw [scan_data_lt ha hb]
        exact htext _ ih
      · rw [scan_data_cons ha]
        exact htext _ ih

/-! ## A hole in an element whose content is text -/

/-- The scanner is in the text of the element. -/
def RawIdle (name : Bytes) : Scanner α → Prop
  | .raw n => n = name
  | .rawLt n _ => n = name
  | .rawEnd n left _ => n = name ∧ 0x3C ∉ left
  | _ => False

theorem rawIdle_stepRaw (name : Bytes) (x : UInt8 × α) : RawIdle name (stepRaw name x).2 ∧
    ∃ ys : List (UInt8 × α), (stepRaw name x).1 = ys.map .text := by
  unfold stepRaw
  split
  · exact ⟨rfl, [], rfl⟩
  · exact ⟨rfl, [x], rfl⟩

theorem rawIdle_flush {name : Bytes} {p : List (UInt8 × α)} {r : List (Token α) × Scanner α}
    (h : RawIdle name r.2 ∧ ∃ ys : List (UInt8 × α), r.1 = ys.map .text) :
    RawIdle name (flush p r).2 ∧ ∃ ys : List (UInt8 × α), (flush p r).1 = ys.map .text := by
  obtain ⟨hidle, ys, hys⟩ := h
  exact ⟨hidle, p.reverse ++ ys, by rw [flush, hys, List.map_append]⟩

/-- One byte in the text of the element is a character for all that is known, or it is in the end
tag. -/
theorem rawIdle_step {name : Bytes} (hname : 0x3C ∉ name) {s : Scanner α} (h : RawIdle name s)
    (x : UInt8 × α) :
    (RawIdle name (step s x).2 ∧ ∃ ys : List (UInt8 × α), (step s x).1 = ys.map .text) ∨
      ∀ xs, ∃ tok ∈ scan s (x :: xs), x ∈ tok.markup := by
  match s with
  | .raw n =>
    obtain rfl : n = name := h
    exact .inl (rawIdle_stepRaw n x)
  | .rawLt n p =>
    obtain rfl : n = name := h
    rw [step]
    split
    · exact .inl ⟨⟨rfl, hname⟩, [], rfl⟩
    · exact .inl (rawIdle_flush (rawIdle_stepRaw n x))
  | .rawEnd n (c :: left) p =>
    obtain ⟨rfl, hleft⟩ := h
    rw [step]
    split
    · exact .inl ⟨⟨rfl, fun hmem => hleft (List.mem_cons_of_mem _ hmem)⟩, [], rfl⟩
    · exact .inl (rawIdle_flush (rawIdle_stepRaw n x))
  | .rawEnd n [] p =>
    obtain ⟨rfl, -⟩ := h
    have hx : x ∈ x :: p := List.mem_cons_self
    simp only [scan, step]
    split_ifs
    · exact .inr fun xs => exists_markup (s := .tag .beforeAttr (x :: p)) trivial hx
    · exact .inr fun xs => exists_markup (s := .tag .selfClosing (x :: p)) trivial hx
    · exact .inr fun xs => ⟨_, List.mem_append_left _ (List.mem_singleton_self _),
        List.mem_reverse.mpr hx⟩
    · exact .inl (rawIdle_flush (rawIdle_stepRaw n x))

/-- A `<` makes sure of everything before it. -/
theorem scan_rawIdle_lt {name : Bytes} {s : Scanner α} (h : RawIdle name s) {x : UInt8 × α}
    (hx : x.1 = 0x3C) (xs : List (UInt8 × α)) :
    scan s (x :: xs) = s.pending.reverse.map .text ++ scan (.raw name) (x :: xs) := by
  have hslash : ¬ x.1 = 0x2F := by
    rw [hx]
    decide
  have hflush : ∀ p : List (UInt8 × α), (flush p (stepRaw name x)).1 ++
      scan (flush p (stepRaw name x)).2 xs =
      p.reverse.map .text ++ scan (.raw name) (x :: xs) := by
    intro p
    rw [scan, step, flush, List.append_assoc]
  match s with
  | .raw n =>
    obtain rfl : n = name := h
    rfl
  | .rawLt n p =>
    obtain rfl : n = name := h
    rw [scan, step, if_neg hslash, hflush]
    rfl
  | .rawEnd n (c :: left) p =>
    obtain ⟨rfl, hleft⟩ := h
    have hne : ¬ toLower x.1 = c := by
      rintro rfl
      rw [hx] at hleft
      exact hleft List.mem_cons_self
    rw [scan, step, if_neg hne, hflush]
    rfl
  | .rawEnd n [] p =>
    obtain ⟨rfl, -⟩ := h
    have hspace : ¬ isSpace x.1 = true := by
      rw [hx]
      decide
    have hgt : ¬ x.1 = 0x3E := by
      rw [hx]
      decide
    rw [scan, step, if_neg hspace, if_neg hslash, if_neg hgt, hflush]
    rfl

/-- **Any text in the element** becomes markup, or ends with the element as it was. -/
theorem scan_raw {name : Bytes} (hname : 0x3C ∉ name) {c : UInt8 × Origin} (hc : c.1 = 0x3C)
    (rest : List (UInt8 × Origin)) : ∀ {t : Bytes} {s : Scanner Origin}, RawIdle name s →
      Breaks (scan s (mark .recorded t ++ c :: rest)) ∨
        ∃ ys : List (UInt8 × Origin), scan s (mark .recorded t ++ c :: rest) =
          ys.map .text ++ scan (.raw name) (c :: rest)
  | [], s, hs => .inr ⟨_, scan_rawIdle_lt hs hc rest⟩
  | b :: t, s, hs => by
    have hcons : mark .recorded (b :: t) ++ c :: rest =
        (b, .recorded) :: (mark .recorded t ++ c :: rest) := rfl
    rw [hcons]
    rcases rawIdle_step hname hs (b, .recorded) with ⟨hidle, zs, hzs⟩ | hmarkup
    · rw [scan, hzs]
      rcases scan_raw hname hc rest (t := t) hidle with hbreaks | ⟨ys, hys⟩
      · exact .inl (breaks_append.mpr (.inr hbreaks))
      · exact .inr ⟨zs ++ ys, by rw [hys, List.map_append, List.append_assoc]⟩
    · obtain ⟨tok, htok, hmem⟩ := hmarkup (mark .recorded t ++ c :: rest)
      exact .inl ⟨tok, htok, _, hmem, rfl⟩

theorem scan_raw_cons {name : Bytes} {x y : UInt8 × α} {xs : List (UInt8 × α)}
    (h : x.1 = 0x3C → y.1 ≠ 0x2F) :
    scan (.raw name) (x :: y :: xs) = .text x :: scan (.raw name) (y :: xs) := by
  by_cases hx : x.1 = 0x3C
  · rw [scan, step, stepRaw, if_pos hx, List.nil_append, scan, step, if_neg (h hx)]
    rfl
  · rw [scan, step, stepRaw, if_neg hx]
    rfl

/-- A plain text stays in it. -/
theorem scan_raw_plain (name : Bytes) {c : UInt8 × α} (hc : c.1 = 0x3C)
    (rest : List (UInt8 × α)) : ∀ {t : List (UInt8 × α)}, plain (t.map Prod.fst) = true →
      scan (.raw name) (t ++ c :: rest) = t.map .text ++ scan (.raw name) (c :: rest)
  | [], _ => rfl
  | [x], _ => by
    refine scan_raw_cons fun _ => ?_
    rw [hc]
    decide
  | x :: y :: t, h => by
    simp only [List.map_cons, plain, Bool.and_eq_true, Bool.not_eq_true', Bool.and_eq_false_iff,
      decide_eq_false_iff_not] at h
    have ih := scan_raw_plain name hc rest (t := y :: t) (by simpa using h.2)
    have hy : x.1 = 0x3C → y.1 ≠ 0x2F := by
      intro hx heq
      have hopens := h.1.resolve_left (absurd hx)
      rw [heq] at hopens
      exact absurd hopens (by decide)
    rw [List.cons_append, List.cons_append, scan_raw_cons hy, ← List.cons_append, ih]
    rfl

/-! ## Whole documents -/

/-- What was put into a hole, and the text of the document up to the next one. -/
structure Segment where
  text : Bytes
  chunk : Bytes

def Segment.bytes (s : Segment) : List (UInt8 × Origin) :=
  mark .recorded s.text ++ mark .template s.chunk

/-- A part of a document between two holes: its tags are complete, and it does not begin so that
it could make a `<` in front of it markup. -/
def isChunk (c : Bytes) : Bool :=
  match c with
  | [] => false
  | b :: _ => !opens b && decide (after .data (mark .template c) = .data)

/-- The tags between two holes. -/
def chunkTags (c : Bytes) : List Bytes := tags (emit .data (mark .template c))

theorem scan_chunk {c : Bytes} (hc : isChunk c = true) (rest : List (UInt8 × Origin)) :
    scan .data (mark .template c ++ rest) = emit .data (mark .template c) ++ scan .data rest := by
  cases c with
  | nil => cases hc
  | cons b c =>
    simp only [isChunk, Bool.and_eq_true, decide_eq_true_eq] at hc
    rw [scan_append, hc.2]

/-- A plain text in its hole. -/
theorem scan_segment {s : Segment} (hc : isChunk s.chunk = true) (ht : plain s.text = true)
    (rest : List (UInt8 × Origin)) : scan .data (s.bytes ++ rest) =
      (mark .recorded s.text).map .text ++ emit .data (mark .template s.chunk) ++
        scan .data rest := by
  obtain ⟨t, c⟩ := s
  cases c with
  | nil => cases hc
  | cons b c =>
    have hopens : opens b = false := by
      simp only [isChunk, Bool.and_eq_true, Bool.not_eq_true'] at hc
      exact hc.1
    have hplain := scan_plain (c := (b, .template)) hopens (mark .template c ++ rest)
      (t := mark .recorded t) (by simpa using ht)
    have hsplit : Segment.bytes ⟨t, b :: c⟩ ++ rest =
        mark .recorded t ++ (b, .template) :: (mark .template c ++ rest) := by
      simp [Segment.bytes, mark]
    rw [hsplit, hplain, List.append_assoc]
    congr 1
    exact scan_chunk hc rest

/-- **Plain texts leave the tags of a document as they are.** -/
theorem scan_segments (rest : List (UInt8 × Origin)) : ∀ {segs : List Segment},
    (∀ s ∈ segs, isChunk s.chunk = true) → (∀ s ∈ segs, plain s.text = true) →
      tags (scan .data (segs.flatMap Segment.bytes ++ rest)) =
        segs.flatMap (fun s => chunkTags s.chunk) ++ tags (scan .data rest) ∧
      (Breaks (scan .data (segs.flatMap Segment.bytes ++ rest)) ↔ Breaks (scan .data rest))
  | [], _, _ => ⟨rfl, Iff.rfl⟩
  | s :: segs, hc, ht => by
    obtain ⟨htags, hbreaks⟩ := scan_segments rest
      (fun s' hs' => hc s' (List.mem_cons_of_mem s hs'))
      (fun s' hs' => ht s' (List.mem_cons_of_mem s hs'))
    rw [List.flatMap_cons, List.append_assoc, scan_segment (hc s List.mem_cons_self)
      (ht s List.mem_cons_self)]
    constructor
    · rw [tags_append, tags_append, tags_text, List.nil_append, htags, List.flatMap_cons,
        List.append_assoc]
      rfl
    · rw [breaks_append, breaks_append, hbreaks]
      simp [not_breaks_text, not_breaks_template (s := .data) rfl]

/-- **A text that is not plain becomes markup**, in whatever hole it stands. -/
theorem breaks_segments (rest : List (UInt8 × Origin)) : ∀ {segs : List Segment},
    (∀ s ∈ segs, isChunk s.chunk = true) → (∃ s ∈ segs, plain s.text = false) →
      Breaks (scan .data (segs.flatMap Segment.bytes ++ rest))
  | s :: segs, hc, ht => by
    rw [List.flatMap_cons, List.append_assoc]
    by_cases hs : plain s.text = true
    · rw [scan_segment (hc s List.mem_cons_self) hs, breaks_append]
      refine .inr (breaks_segments rest (fun s' hs' => hc s' (List.mem_cons_of_mem s hs')) ?_)
      obtain ⟨s', hs', hnot⟩ := ht
      rcases List.mem_cons.mp hs' with rfl | hs'
      · rw [hs] at hnot
        cases hnot
      · exact ⟨s', hs', hnot⟩
    · rw [Segment.bytes, List.append_assoc]
      refine breaks_of_not_plain ?_ (by simpa using hs)
      have hchunk := hc s List.mem_cons_self
      intro hnil
      simp [mark] at hnil
      rw [hnil.1] at hchunk
      cases hchunk

/-- The beginning of a document whose first hole is in an element like `title`: what stands before
the hole, and what stands between it and the next one. -/
structure Frame where
  opening : Bytes
  name : Bytes
  middle : Bytes
  enters : after .data (mark .template opening) = .raw name
  leaves : after (.raw name) (mark .template middle) = .data
  middle_head : middle.head? = some 0x3C
  name_lt : 0x3C ∉ name

/-- A document: the text of the first hole, and the others. -/
def Frame.document (f : Frame) (title : Bytes) (segs : List Segment) : List (UInt8 × Origin) :=
  mark .template f.opening ++ (mark .recorded title ++
    (mark .template f.middle ++ segs.flatMap Segment.bytes))

/-- The tags that the beginning of a document has of its own. -/
def Frame.tags (f : Frame) : List Bytes :=
  Html.tags (emit .data (mark .template f.opening)) ++
    Html.tags (emit (.raw f.name) (mark .template f.middle))

namespace Frame

variable (f : Frame) {title : Bytes} {segs : List Segment}

theorem mark_middle : mark .template f.middle =
    (0x3C, .template) :: mark .template f.middle.tail := by
  rw [List.eq_cons_of_mem_head? f.middle_head]
  rfl

/-- The rest of the document, from the end of the element on. -/
theorem scan_middle (rest : List (UInt8 × Origin)) :
    scan (.raw f.name) (mark .template f.middle ++ rest) =
      emit (.raw f.name) (mark .template f.middle) ++ scan .data rest := by
  rw [scan_append, f.leaves]

/-- A plain text in the first hole leaves the other holes to themselves. -/
theorem tokens_document (htitle : plain title = true) :
    tokens (f.document title segs) =
      emit .data (mark .template f.opening) ++ ((mark .recorded title).map .text ++
        (emit (.raw f.name) (mark .template f.middle) ++
          scan .data (segs.flatMap Segment.bytes))) := by
  have hraw := scan_raw_plain f.name (c := (0x3C, Origin.template)) rfl
    (mark .template f.middle.tail ++ segs.flatMap Segment.bytes) (t := mark .recorded title)
    (by simpa using htitle)
  rw [← List.cons_append, ← f.mark_middle] at hraw
  rw [tokens, document, scan_append, f.enters, hraw, f.scan_middle]

theorem tags_document (htitle : plain title = true) :
    Html.tags (tokens (f.document title segs)) =
      f.tags ++ Html.tags (scan .data (segs.flatMap Segment.bytes)) := by
  rw [f.tokens_document htitle, tags_append, tags_append, tags_append, tags_text,
    List.nil_append, tags, List.append_assoc]

/-- **Plain texts are read as characters.** -/
theorem not_breaks_document (hchunks : ∀ s ∈ segs, isChunk s.chunk = true)
    (htitle : plain title = true) (hplain : ∀ s ∈ segs, plain s.text = true) :
    ¬ Breaks (tokens (f.document title segs)) := by
  have hbreaks := (scan_segments [] hchunks hplain).2
  rw [List.append_nil] at hbreaks
  rw [f.tokens_document htitle]
  simp only [breaks_append, not_or]
  refine ⟨not_breaks_template rfl _, not_breaks_text _, not_breaks_template rfl _, ?_⟩
  rw [hbreaks]
  rintro ⟨t, ht, -⟩
  cases ht

/-- **A text that is not plain becomes markup**, whatever is in the first hole: if that does not,
the scanner comes to the other ones. -/
theorem breaks_document (hchunks : ∀ s ∈ segs, isChunk s.chunk = true)
    (hnot : ∃ s ∈ segs, plain s.text = false) : Breaks (tokens (f.document title segs)) := by
  have hbody := breaks_segments [] hchunks hnot
  rw [List.append_nil] at hbody
  have hraw := scan_raw f.name_lt (c := (0x3C, .template)) rfl
    (mark .template f.middle.tail ++ segs.flatMap Segment.bytes) (t := title)
    (s := .raw f.name) rfl
  rw [← List.cons_append, ← f.mark_middle] at hraw
  rw [tokens, document, scan_append, f.enters, breaks_append]
  refine .inr ?_
  rcases hraw with hbreaks | ⟨ys, hys⟩
  · exact hbreaks
  · rw [hys, f.scan_middle, breaks_append, breaks_append]
    exact .inr (.inr hbody)

end Frame

end Html

end Infra
