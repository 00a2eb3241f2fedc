import EvictionBus.Json.Value
import EvictionBus.Text.Decimal
import EvictionBus.Text.Radix

/-!
# Reading JSON

A strict reader: white space is a space, a tab, a line feed or a carriage return, nothing may follow
the value, and there is no limit on the depth or on the size of numbers.
-/

namespace EvictionBus.Json

def isSpace (c : Char) : Bool :=
  c = ' ' || c = '\t' || c = '\n' || c = '\r'

def skipSpace (s : List Char) : List Char :=
  s.dropWhile isSpace

/-- The text after `word`, if it starts with it. -/
def expect (word s : List Char) : Option (List Char) :=
  if word.isPrefixOf s then some (s.drop word.length) else none

/-! ## Strings -/

def hex4? (a b c d : Char) : Option Nat :=
  Text.natIn? 16 [a, b, c, d]

def isHighSurrogate (n : Nat) : Bool := 0xd800 ≤ n && n < 0xdc00

def isLowSurrogate (n : Nat) : Bool := 0xdc00 ≤ n && n < 0xe000

def ofSurrogates (high low : Nat) : Char :=
  Char.ofNat (0x10000 + (high - 0xd800) * 1024 + (low - 0xdc00))

/-- The character after a backslash, for the escapes of one character. -/
def simpleEscape? : Char → Option Char
  | '"' => some '"'
  | '\\' => some '\\'
  | '/' => some '/'
  | 'b' => some '\x08'
  | 'f' => some '\x0c'
  | 'n' => some '\n'
  | 'r' => some '\r'
  | 't' => some '\t'
  | _ => none

/-- Code units and plain characters of a string, before surrogates are paired. -/
inductive RawPiece where
  | char (c : Char)
  | unit (n : Nat)

/-- The characters and escapes up to the closing quote, and the text after it. -/
def rawString : List Char → Option (List RawPiece × List Char)
  | [] => none
  | '"' :: s => some ([], s)
  | '\\' :: 'u' :: a :: b :: c :: d :: s => do
    let n ← hex4? a b c d
    let (ps, rest) ← rawString s
    return (.unit n :: ps, rest)
  | '\\' :: c :: s => do
    let c ← simpleEscape? c
    let (ps, rest) ← rawString s
    return (.char c :: ps, rest)
  | c :: s => do
    if c.toNat < 0x20 ∨ c = '\\' then none
    let (ps, rest) ← rawString s
    return (.char c :: ps, rest)

/-- Joins the two halves of each surrogate pair. -/
def pairSurrogates : List RawPiece → Text
  | [] => []
  | .char c :: ps => .char c :: pairSurrogates ps
  | .unit high :: .unit low :: ps =>
    if isHighSurrogate high && isLowSurrogate low then
      .char (ofSurrogates high low) :: pairSurrogates ps
    else if isHighSurrogate high || isLowSurrogate high then
      .lone high :: pairSurrogates (.unit low :: ps)
    else
      .char (Char.ofNat high) :: pairSurrogates (.unit low :: ps)
  | .unit n :: ps =>
    if isHighSurrogate n || isLowSurrogate n then .lone n :: pairSurrogates ps
    else .char (Char.ofNat n) :: pairSurrogates ps

/-- A string, after its opening quote. -/
def stringBody (s : List Char) : Option (Text × List Char) :=
  (rawString s).map fun p => (pairSurrogates p.1, p.2)

/-! ## Numbers -/

/-- A non-empty run of digits, and the text after it. -/
def digitRun (s : List Char) : Option (List Char × List Char) :=
  let ds := s.takeWhile Text.isDigit
  if ds = [] then none else some (ds, s.dropWhile Text.isDigit)

/-- The digits before the point: a zero stands alone. -/
def wholePart (s : List Char) : Option (List Char × List Char) :=
  match s with
  | '0' :: rest => some (['0'], rest)
  | _ => digitRun s

/-- The digits after a point, if there is one. -/
def fractionPart (s : List Char) : Option (Option (List Char) × List Char) :=
  match s with
  | '.' :: rest => (digitRun rest).map fun p => (some p.1, p.2)
  | _ => some (none, s)

/-- The sign and the digits of an exponent, if there is one. -/
def exponentPart (s : List Char) : Option (Option (Bool × List Char) × List Char) :=
  let signed (s : List Char) : Option (Option (Bool × List Char) × List Char) :=
    match s with
    | '-' :: rest => (digitRun rest).map fun p => (some (true, p.1), p.2)
    | '+' :: rest => (digitRun rest).map fun p => (some (false, p.1), p.2)
    | _ => (digitRun s).map fun p => (some (false, p.1), p.2)
  match s with
  | 'e' :: rest => signed rest
  | 'E' :: rest => signed rest
  | _ => some (none, s)

/-- A number. -/
def numeral (s : List Char) : Option (Numeral × List Char) := do
  let (negative, s) := match s with
    | '-' :: rest => (true, rest)
    | _ => (false, s)
  let (whole, s) ← wholePart s
  let (fraction, s) ← fractionPart s
  let (exponent, s) ← exponentPart s
  return (⟨negative, whole, fraction, exponent⟩, s)

/-! ## Values -/

mutual

/-- A value at the front of a text that has no white space there. The fuel bounds the depth and the
number of elements. -/
def value (fuel : Nat) (s : List Char) : Option (Value × List Char) :=
  match fuel with
  | 0 => none
  | fuel + 1 =>
    match s with
    | '{' :: s => match skipSpace s with
      | '}' :: s => some (.object [], s)
      | s => (members fuel s).map fun p => (.object p.1, p.2)
    | '[' :: s => match skipSpace s with
      | ']' :: s => some (.array [], s)
      | s => (items fuel s).map fun p => (.array p.1, p.2)
    | '"' :: s => (stringBody s).map fun p => (.string p.1, p.2)
    | 'n' :: s => (expect ['u', 'l', 'l'] s).map fun s => (.null, s)
    | 't' :: s => (expect ['r', 'u', 'e'] s).map fun s => (.bool true, s)
    | 'f' :: s => (expect ['a', 'l', 's', 'e'] s).map fun s => (.bool false, s)
    | s => (numeral s).map fun p => (.number p.1, p.2)

/-- The elements of an array up to its closing bracket; there is at least one. -/
def items (fuel : Nat) (s : List Char) : Option (List Value × List Char) :=
  match fuel with
  | 0 => none
  | fuel + 1 => do
    let (v, s) ← value fuel s
    match skipSpace s with
    | ']' :: s => some ([v], s)
    | ',' :: s =>
      let (vs, s) ← items fuel (skipSpace s)
      some (v :: vs, s)
    | _ => none

/-- The members of an object up to its closing brace; there is at least one. -/
def members (fuel : Nat) (s : List Char) : Option (List (Text × Value) × List Char) :=
  match fuel with
  | 0 => none
  | fuel + 1 => do
    let s ← expect ['"'] s
    let (name, s) ← stringBody s
    let s ← expect [':'] (skipSpace s)
    let (v, s) ← value fuel (skipSpace s)
    match skipSpace s with
    | '}' :: s => some ([(name, v)], s)
    | ',' :: s =>
      let (ms, s) ← members fuel (skipSpace s)
      some ((name, v) :: ms, s)
    | _ => none

end

/-- Reads a whole text as one value. -/
def parse (s : List Char) : Option Value :=
  match value (2 * s.length + 2) (skipSpace s) with
  | some (v, rest) => if skipSpace rest = [] then some v else none
  | none => none

end EvictionBus.Json
