/-!
# JSON values

A value as it is written: numbers keep their digits, objects keep their members in order with
repetitions, and strings may hold a surrogate that has no partner.
-/

namespace EvictionBus.Json

/-- One element of a JSON string. -/
inductive Piece where
  | char (c : Char)
  /-- A surrogate code unit without its partner. -/
  | lone (unit : Nat)
  deriving DecidableEq, Repr

abbrev Text := List Piece

namespace Text

/-- The text of a string, unless it holds a lone surrogate. -/
def chars? : Text → Option (List Char)
  | [] => some []
  | .char c :: t => (chars? t).map (c :: ·)
  | .lone _ :: _ => none

/-- The text of a string, unless it holds a lone surrogate. -/
def string? (t : Text) : Option String :=
  (chars? t).map String.ofList

def ofString (s : String) : Text :=
  s.toList.map .char

theorem chars?_map_char (cs : List Char) : chars? (cs.map .char) = some cs := by
  induction cs with
  | nil => rfl
  | cons c cs ih => simp [chars?, ih]

theorem string?_ofString (s : String) : (ofString s).string? = some s := by
  simp [string?, ofString, chars?_map_char]

end Text

/-- The digits of a number, as they are written. -/
structure Numeral where
  negative : Bool
  whole : List Char
  /-- The digits after the point. -/
  fraction : Option (List Char)
  /-- Whether the exponent has a minus sign, and its digits. -/
  exponent : Option (Bool × List Char)
  deriving DecidableEq, Repr

inductive Value where
  | null
  | bool (b : Bool)
  | number (n : Numeral)
  | string (t : Text)
  | array (items : List Value)
  | object (members : List (Text × Value))

end EvictionBus.Json
