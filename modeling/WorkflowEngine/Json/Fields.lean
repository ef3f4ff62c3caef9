import WorkflowEngine.Json.Document
import WorkflowEngine.Number.Word

/-! # Reading the Fields of a Record

    A record type is written as an object of its fields in any order, or as
    the list of its fields in their own order. Fields that the type does not
    know are passed over, a field it knows may stand only once, and a list
    may stop early but not run on.
-/

namespace WorkflowEngine

namespace Document

/-- The values written for the given field names, in the order of the names. -/
def fields? (names : List String) : Document → Option (List (Option Document))
  | .object fields =>
    if names.all fun name => fields.countP (fun f => f.1 == name) ≤ 1 then
      some (names.map fun name => fields.lookup name)
    else none
  | .array items =>
    if items.length ≤ names.length then
      some (items.map some ++ List.replicate (names.length - items.length) none)
    else none
  | _ => none

/-- The text that a document is. -/
def asText? : Document → Option String
  | .text s => some s
  | _ => none

/-- The natural number below a bound that a document is. -/
def asNat? (bound : Nat) : Document → Option Nat
  | .integer n => if 0 ≤ n ∧ n < bound then some n.toNat else none
  | _ => none

/-- The signed 64-bit number that a document is. -/
def asInt64? : Document → Option Int
  | .integer n => if fitsSigned64 n then some n else none
  | _ => none

/-- The name of a case without data: its text, or an object that gives it no value. -/
def asCase? : Document → Option String
  | .text s => some s
  | .object [(s, .null)] => some s
  | _ => none

/-- The items of an array, each read alike. -/
def asList? (read : Document → Option α) : Document → Option (List α)
  | .array items => items.mapM read
  | _ => none

/-- A field that may be missing, and is then the given value. -/
def orDefault (value : α) (read : Document → Option α) : Option Document → Option α
  | some d => read d
  | none => some value

end Document

end WorkflowEngine
