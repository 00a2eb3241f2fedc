import EvictionBus.Json.Value
import EvictionBus.Bytes

/-!
# Writing JSON

The compact form, without white space. A string escapes quotes, backslashes and control characters
and nothing else.
-/

namespace EvictionBus.Json

/-- Four hexadecimal digits. -/
def hexUnit (n : Nat) : List Char :=
  ['\\', 'u', Bytes.hexDigit .lower (n / 4096 % 16), Bytes.hexDigit .lower (n / 256 % 16),
    Bytes.hexDigit .lower (n / 16 % 16), Bytes.hexDigit .lower (n % 16)]

/-- One character inside quotes. -/
def escapeChar (c : Char) : List Char :=
  match c with
  | '"' => ['\\', '"']
  | '\\' => ['\\', '\\']
  | '\x08' => ['\\', 'b']
  | '\x0c' => ['\\', 'f']
  | '\n' => ['\\', 'n']
  | '\r' => ['\\', 'r']
  | '\t' => ['\\', 't']
  | _ => if c.toNat < 0x20 then hexUnit c.toNat else [c]

/-- A string with its quotes. -/
def printText (t : Text) : List Char :=
  '"' :: t.flatMap (fun
    | .char c => escapeChar c
    | .lone n => hexUnit n) ++ ['"']

/-- A number. -/
def printNumeral (n : Numeral) : List Char :=
  let sign := if n.negative then ['-'] else []
  let fraction := match n.fraction with
    | none => []
    | some ds => '.' :: ds
  let exponent := match n.exponent with
    | none => []
    | some (negative, ds) => 'e' :: if negative then '-' :: ds else ds
  sign ++ n.whole ++ fraction ++ exponent

mutual

def print : Value → List Char
  | .null => ['n', 'u', 'l', 'l']
  | .bool true => ['t', 'r', 'u', 'e']
  | .bool false => ['f', 'a', 'l', 's', 'e']
  | .number n => printNumeral n
  | .string t => printText t
  | .array vs => '[' :: printItems vs ++ [']']
  | .object ms => '{' :: printMembers ms ++ ['}']

/-- Values separated by commas. -/
def printItems : List Value → List Char
  | [] => []
  | [v] => print v
  | v :: vs => print v ++ ',' :: printItems vs

/-- Members separated by commas. -/
def printMembers : List (Text × Value) → List Char
  | [] => []
  | [(name, v)] => printText name ++ ':' :: print v
  | (name, v) :: ms => printText name ++ ':' :: print v ++ ',' :: printMembers ms

end

end EvictionBus.Json
