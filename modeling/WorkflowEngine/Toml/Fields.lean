import WorkflowEngine.Number.Word
import WorkflowEngine.Toml.Document

/-! # Reading the Fields of a Section

    A section is written as a table of its fields in any order, or as the
    array of its fields in their own order. A table may leave out any field;
    an array may stop early, but not before a field that has no default.
    What a section does not know is passed over.
-/

namespace WorkflowEngine

namespace Toml

/-- The values written for the fields of a section, in the order of their names.
    The second argument lists the fields without a default. -/
def fields? (names withoutDefault : List String) : Toml → Option (List (Option Toml))
  | .table fields => some (names.map fun name => fields.lookup name)
  | .dateTime => some (names.map fun _ => none)
  | .array items =>
    let given := items.take names.length
    let missing := names.drop items.length
    if missing.any fun name => withoutDefault.contains name then none
    else some (given.map some ++ missing.map fun _ => none)
  | _ => none

/-- The text that a value is. -/
def asString? : Toml → Option String
  | .string s => some s
  | _ => none

/-- The natural number below a bound that a value is. -/
def asNat? (bound : Nat) : Toml → Option Nat
  | .integer n => if 0 ≤ n ∧ n < bound then some n.toNat else none
  | _ => none

/-- The unsigned 32-bit number that a value is. -/
def asCount? (v : Toml) : Option Nat := v.asNat? words32

/-- The unsigned 64-bit number that a value is. -/
def asLong? (v : Toml) : Option Nat := v.asNat? words64

/-- The float that a value is; an integer is rounded to the nearest one. -/
def asFloat? : Toml → Option Float
  | .float x => some x
  | .integer n => some n.toInt64.toFloat
  | _ => none

/-- The truth value that a value is. -/
def asBool? : Toml → Option Bool
  | .bool b => some b
  | _ => none

/-- The name of a case without data: its text, or a table that gives it nothing. -/
def asCase? : Toml → Option String
  | .string s => some s
  | .table [(s, .table [])] => some s
  | .table [(s, .array [])] => some s
  | _ => none

/-- The items of an array, each read alike. -/
def asList? (read : Toml → Option α) : Toml → Option (List α)
  | .array items => items.mapM read
  | _ => none

/-- A field that may be missing, and is then the given value. -/
def orDefault (value : α) (read : Toml → Option α) : Option Toml → Option α
  | some v => read v
  | none => some value

/-- A field that may be missing. -/
def orNone (read : Toml → Option α) : Option Toml → Option (Option α) :=
  orDefault none fun v => (read v).map some

end Toml

end WorkflowEngine
