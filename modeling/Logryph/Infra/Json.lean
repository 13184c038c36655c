import Logryph.Infra.Number

/-!
# JSON texts

The syntax tree of a JSON text, the printer and the parser.

The tree keeps what the text says and no more: the members of an object stand in the order of
the text and may repeat a name, a number is its decimal value, a string is its code points after
the escapes have been read. A zero that is written with a sign is kept apart from the others, since
binary64 tells the two apart. What a reader makes of repeated names or long numbers is not decided
here.

* The printer writes no white space. How a code point inside a string is escaped is a parameter,
  since writers differ in that and in nothing else. Numbers are written as ECMAScript does:
  plain digits from `1e-6` up to `1e21`, an exponent outside.
* The parser accepts the texts of RFC 8259. A `\u` escape that is half of a surrogate pair
  without the other half reads as U+FFFD.

The recursion of the parser is on a counter that starts at the length of the text, which is
never used up: every call consumes a character first.
-/

namespace Infra

/-- The syntax tree of a JSON text. -/
inductive Json where
  | null
  | bool (b : Bool)
  | num (d : Decimal)
  | negZero
  | str (s : List Char)
  | arr (xs : List Json)
  | obj (ms : List (List Char × Json))

namespace Json

/-! ## Depth -/

mutual

/-- How deep arrays and objects are nested. -/
def depth : Json → Nat
  | .arr xs => 1 + depthList xs
  | .obj ms => 1 + depthMembers ms
  | _ => 0

def depthList : List Json → Nat
  | [] => 0
  | x :: xs => max (depth x) (depthList xs)

def depthMembers : List (List Char × Json) → Nat
  | [] => 0
  | (_, x) :: ms => max (depth x) (depthMembers ms)

end

/-! ## Numbers -/

/-- The text of a number: sign, integer digits, fraction digits, exponent. -/
def numText (neg : Bool) (ip fp : List Char) (ex : Option Int) : List Char :=
  (if neg then ['-'] else []) ++ ip ++ (if fp = [] then [] else '.' :: fp) ++
    match ex with
    | none => []
    | some e => 'e' :: (if e < 0 then '-' else '+') :: Nat.toDigits 10 e.natAbs

/-- Where the point goes among the digits `ds` of a mantissa with exponent `e`. -/
def numParts (ds : List Char) (e : Int) : List Char × List Char × Option Int :=
  let n := (ds.length : Int) + e
  if -6 < n ∧ n ≤ 0 then (['0'], List.replicate (-n).toNat '0' ++ ds, none)
  else if 0 < n ∧ n ≤ 21 then
    if e < 0 then (ds.take n.toNat, ds.drop n.toNat, none)
    else (ds ++ List.replicate e.toNat '0', [], none)
  else (ds.take 1, ds.drop 1, some (n - 1))

def renderNum (d : Decimal) : List Char :=
  if d.mant = 0 then ['0']
  else
    let p := numParts (Nat.toDigits 10 d.mant.natAbs) d.exp
    numText (decide (d.mant < 0)) p.1 p.2.1 p.2.2

def readFrac : List Char → Option (List Char × List Char)
  | '.' :: rest =>
    if rest.takeWhile Char.isDigit = [] then none
    else some (rest.takeWhile Char.isDigit, rest.dropWhile Char.isDigit)
  | cs => some ([], cs)

def readSign : List Char → Bool × List Char
  | '-' :: rest => (true, rest)
  | '+' :: rest => (false, rest)
  | cs => (false, cs)

def readExp : List Char → Option (Int × List Char)
  | c :: rest =>
    if c = 'e' ∨ c = 'E' then
      let (neg, ds) := readSign rest
      if ds.takeWhile Char.isDigit = [] then none
      else
        let e : Int := Nat.ofDigitChars 10 (ds.takeWhile Char.isDigit) 0
        some (if neg then -e else e, ds.dropWhile Char.isDigit)
    else some (0, c :: rest)
  | [] => some (0, [])

/-- A number at the head of the text. No leading zero, at least one digit in every part. -/
def readUnsigned (neg : Bool) (cs : List Char) : Option (Decimal × List Char) :=
  let ip := cs.takeWhile Char.isDigit
  if ip = [] ∨ (1 < ip.length ∧ ip.head? = some '0') then none
  else
    match readFrac (cs.dropWhile Char.isDigit) with
    | none => none
    | some (fp, cs) =>
      match readExp cs with
      | none => none
      | some (e, cs) =>
        let m : Int := Nat.ofDigitChars 10 (ip ++ fp) 0
        some (Decimal.of (if neg then -m else m) (e - fp.length), cs)

def readNum : List Char → Option (Decimal × List Char)
  | '-' :: rest => readUnsigned true rest
  | cs => readUnsigned false cs

/-! ## Strings -/

/-- The lower-case hexadecimal digit of a value below 16. -/
def hexChar (n : Nat) : Char := Char.ofNat (if n < 10 then 0x30 + n else 0x57 + n)

def hexCharValue (c : Char) : Option Nat :=
  let n := c.toNat
  if 0x30 ≤ n && n ≤ 0x39 then some (n - 0x30)
  else if 0x61 ≤ n && n ≤ 0x66 then some (n - 0x57)
  else if 0x41 ≤ n && n ≤ 0x46 then some (n - 0x37)
  else none

/-- The escape `\uXXXX` of a code point below `0x10000`. -/
def unicodeEscape (n : Nat) : List Char :=
  ['\\', 'u', hexChar (n / 4096 % 16), hexChar (n / 256 % 16), hexChar (n / 16 % 16),
    hexChar (n % 16)]

/-- The escapes that every writer uses. The rest is up to `other`. -/
def escapeWith (other : Char → List Char) (c : Char) : List Char :=
  if c = '"' then ['\\', '"']
  else if c = '\\' then ['\\', '\\']
  else if c = '\x08' then ['\\', 'b']
  else if c = '\x0c' then ['\\', 'f']
  else if c = '\n' then ['\\', 'n']
  else if c = '\r' then ['\\', 'r']
  else if c = '\t' then ['\\', 't']
  else if c.toNat < 0x20 then unicodeEscape c.toNat
  else other c

def readHex4 : List Char → Option (Nat × List Char)
  | a :: b :: c :: d :: rest =>
    match hexCharValue a, hexCharValue b, hexCharValue c, hexCharValue d with
    | some a, some b, some c, some d => some (a * 4096 + b * 256 + c * 16 + d, rest)
    | _, _, _, _ => none
  | _ => none

/-- What follows `\u`. A high surrogate takes the low one after it along. -/
def readUnicode (cs : List Char) : Option (Char × List Char) :=
  match readHex4 cs with
  | none => none
  | some (hi, rest) =>
    if 0xD800 ≤ hi ∧ hi < 0xE000 then
      match rest with
      | '\\' :: 'u' :: more =>
        match readHex4 more with
        | some (lo, rest') =>
          if hi < 0xDC00 ∧ 0xDC00 ≤ lo ∧ lo < 0xE000 then
            some (Char.ofNat (0x10000 + (hi - 0xD800) * 0x400 + (lo - 0xDC00)), rest')
          else some ('�', rest)
        | none => some ('�', rest)
      | _ => some ('�', rest)
    else some (Char.ofNat hi, rest)

/-- What follows a backslash. -/
def readEscape : List Char → Option (Char × List Char)
  | [] => none
  | e :: rest =>
    if e = 'u' then readUnicode rest
    else if e = '"' then some ('"', rest)
    else if e = '\\' then some ('\\', rest)
    else if e = '/' then some ('/', rest)
    else if e = 'b' then some ('\x08', rest)
    else if e = 'f' then some ('\x0c', rest)
    else if e = 'n' then some ('\n', rest)
    else if e = 'r' then some ('\r', rest)
    else if e = 't' then some ('\t', rest)
    else none

/-- The next code point inside a string, or `none` for the closing quote. -/
def readChar : List Char → Option (Option Char × List Char)
  | [] => none
  | c :: rest =>
    if c = '"' then some (none, rest)
    else if c = '\\' then
      match readEscape rest with
      | some (c, rest) => some (some c, rest)
      | none => none
    else if c.toNat < 0x20 then none
    else some (some c, rest)

/-- A string after its opening quote. -/
def readStr : Nat → List Char → Option (List Char × List Char)
  | 0, _ => none
  | n + 1, cs =>
    match readChar cs with
    | none => none
    | some (none, rest) => some ([], rest)
    | some (some c, rest) =>
      match readStr n rest with
      | some (s, rest) => some (c :: s, rest)
      | none => none

/-! ## Printer -/

section Printer

variable (esc : Char → List Char)

def renderStr (s : List Char) : List Char := '"' :: s.flatMap esc ++ ['"']

mutual

/-- The text of a tree. -/
def render : Json → List Char
  | .null => ['n', 'u', 'l', 'l']
  | .bool true => ['t', 'r', 'u', 'e']
  | .bool false => ['f', 'a', 'l', 's', 'e']
  | .num d => renderNum d
  | .negZero => ['-', '0']
  | .str s => renderStr esc s
  | .arr [] => ['[', ']']
  | .arr (x :: xs) => '[' :: (render x ++ renderElems xs)
  | .obj [] => ['{', '}']
  | .obj ((k, x) :: ms) => '{' :: (renderStr esc k ++ ':' :: (render x ++ renderMembers ms))

/-- The elements after the first, with the closing bracket. -/
def renderElems : List Json → List Char
  | [] => [']']
  | x :: xs => ',' :: (render x ++ renderElems xs)

/-- The members after the first, with the closing brace. -/
def renderMembers : List (List Char × Json) → List Char
  | [] => ['}']
  | (k, x) :: ms => ',' :: (renderStr esc k ++ ':' :: (render x ++ renderMembers ms))

end

end Printer

/-! ## Parser -/

def isWs (c : Char) : Bool := c = ' ' || c = '\t' || c = '\n' || c = '\r'

def skipWs (cs : List Char) : List Char := cs.dropWhile isWs

/-- The rest of a literal name. -/
def readWord (v : Json) : List Char → List Char → Option (Json × List Char)
  | [], cs => some (v, cs)
  | w :: ws, c :: cs => if c = w then readWord v ws cs else none
  | _ :: _, [] => none

/-- A member name with its colon. -/
def readName (cs : List Char) : Option (List Char × List Char) :=
  match skipWs cs with
  | '"' :: rest =>
    match readStr (rest.length + 1) rest with
    | none => none
    | some (k, rest) =>
      match skipWs rest with
      | ':' :: rest => some (k, rest)
      | _ => none
  | _ => none

/-- A number by its first character and its value. -/
def numOf (c : Char) (d : Decimal) : Json := if c = '-' ∧ d.mant = 0 then .negZero else .num d

mutual

/-- A value at the head of the text. -/
def readValue : Nat → List Char → Option (Json × List Char)
  | 0, _ => none
  | n + 1, cs =>
    match skipWs cs with
    | [] => none
    | c :: rest =>
      if c = 'n' then readWord .null ['u', 'l', 'l'] rest
      else if c = 't' then readWord (.bool true) ['r', 'u', 'e'] rest
      else if c = 'f' then readWord (.bool false) ['a', 'l', 's', 'e'] rest
      else if c = '"' then
        match readStr (rest.length + 1) rest with
        | some (s, rest) => some (.str s, rest)
        | none => none
      else if c = '[' then
        match skipWs rest with
        | ']' :: rest => some (.arr [], rest)
        | rest =>
          match readValue n rest with
          | none => none
          | some (x, rest) =>
            match readElems n rest with
            | none => none
            | some (xs, rest) => some (.arr (x :: xs), rest)
      else if c = '{' then
        match skipWs rest with
        | '}' :: rest => some (.obj [], rest)
        | rest =>
          match readName rest with
          | none => none
          | some (k, rest) =>
            match readValue n rest with
            | none => none
            | some (x, rest) =>
              match readMembers n rest with
              | none => none
              | some (ms, rest) => some (.obj ((k, x) :: ms), rest)
      else
        match readNum (c :: rest) with
        | some (d, rest) => some (numOf c d, rest)
        | none => none

/-- The elements after the first, up to the closing bracket. -/
def readElems : Nat → List Char → Option (List Json × List Char)
  | 0, _ => none
  | n + 1, cs =>
    match skipWs cs with
    | ']' :: rest => some ([], rest)
    | ',' :: rest =>
      match readValue n rest with
      | none => none
      | some (x, rest) =>
        match readElems n rest with
        | none => none
        | some (xs, rest) => some (x :: xs, rest)
    | _ => none

/-- The members after the first, up to the closing brace. -/
def readMembers : Nat → List Char → Option (List (List Char × Json) × List Char)
  | 0, _ => none
  | n + 1, cs =>
    match skipWs cs with
    | '}' :: rest => some ([], rest)
    | ',' :: rest =>
      match readName rest with
      | none => none
      | some (k, rest) =>
        match readValue n rest with
        | none => none
        | some (x, rest) =>
          match readMembers n rest with
          | none => none
          | some (ms, rest) => some ((k, x) :: ms, rest)
    | _ => none

end

/-- The tree of a text, if the text is JSON. -/
def parse (cs : List Char) : Option Json :=
  match readValue (cs.length + 1) cs with
  | some (x, rest) => if skipWs rest = [] then some x else none
  | none => none

end Json

end Infra
