import EvictionBus.Json.Number
import EvictionBus.Json.Shortest

/-!
# Records in JSON

A record has named fields in a fixed order. It is written as an object, whose members may stand in
any order and among members of other names, or as an array of its fields in order. Reading a record
yields the values of the fields that were given; what becomes of the others is for the record to
say.

The second half of the module reads and writes the values of single fields.
-/

namespace EvictionBus.Json

/-- The fields of a record, in order, and their names. -/
structure RecordFormat (F : Type) where
  fields : List F
  name : F → String

namespace RecordFormat

variable {F : Type} [DecidableEq F]

def field? (r : RecordFormat F) (name : String) : Option F :=
  r.fields.find? fun f => r.name f = name

/-- The members that name a field, in order. Every name must be a text, also of the members that
are skipped. -/
def known (r : RecordFormat F) : List (Text × Value) → Option (List (F × Value))
  | [] => some []
  | (name, v) :: ms => do
    let name ← name.string?
    let rest ← known r ms
    match r.field? name with
    | some f => return (f, v) :: rest
    | none => return rest

/-- The fields that a value gives to a record. No field may be given twice, and an array may not be
longer than the record. -/
def given (r : RecordFormat F) : Value → Option (List (F × Value))
  | .object ms => (r.known ms).filter fun fs => (fs.map Prod.fst).Nodup
  | .array vs => if vs.length ≤ r.fields.length then some (r.fields.zip vs) else none
  | _ => none

/-- The fields that a value gives to a record whose array form has no optional elements. -/
def givenExactly (r : RecordFormat F) (v : Value) : Option (List (F × Value)) :=
  match v with
  | .array vs => if vs.length = r.fields.length then r.given v else none
  | _ => r.given v

/-- The object that has every field once, in order. -/
def object (r : RecordFormat F) (value : F → Value) : Value :=
  .object (r.fields.map fun f => (.ofString (r.name f), value f))

end RecordFormat

namespace Value

/-! ## Reading a field -/

/-- A natural number below `bound`. -/
def natBelow? (bound : Nat) : Value → Option Nat
  | .number n => n.nat?.filter (· < bound)
  | _ => none

/-- A floating-point number. -/
def float? : Value → Option Float
  | .number n => n.float?
  | _ => none

def text? : Value → Option String
  | .string t => t.string?
  | _ => none

/-- `null`, or what `read` accepts. -/
def nullOr? {α : Type} (read : Value → Option α) : Value → Option (Option α)
  | .null => some none
  | v => (read v).map some

/-- An array of what `read` accepts. -/
def list? {α : Type} (read : Value → Option α) : Value → Option (List α)
  | .array vs => vs.mapM read
  | _ => none

/-! ## Writing a field -/

def ofNat (n : Nat) : Value :=
  .number (.ofNat n)

/-- A floating-point number; what is no number is written as `null`. -/
def ofFloat (f : Float) : Value :=
  match Numeral.ofFloat? f with
  | some n => .number n
  | none => .null

def ofText (s : String) : Value :=
  .string (.ofString s)

/-- What `write` makes of a value, or `null` if there is none. -/
def ofOption {α : Type} (write : α → Value) : Option α → Value
  | some a => write a
  | none => .null

end Value

end EvictionBus.Json
