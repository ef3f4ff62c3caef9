import WorkflowEngine.Json.Document
import WorkflowEngine.Number.Shortest

/-! # Writing JSON

    Documents are written without white space. Floats have the fewest digits
    that read back.
-/

namespace WorkflowEngine

namespace Document

/-- Floats are written positionally while the point is from four places before
    the first digit to sixteen after it. -/
def floatLayout : FloatLayout := ⟨-4, 16, "e"⟩

/-- A hexadecimal digit. -/
def hexChar (n : Nat) : Char := if n < 10 then Char.ofNat (48 + n) else Char.ofNat (87 + n)

/-- One character within a text. -/
def escapeChar (c : Char) : String :=
  match c with
  | '"' => "\\\""
  | '\\' => "\\\\"
  | '\n' => "\\n"
  | '\r' => "\\r"
  | '\t' => "\\t"
  | '\x08' => "\\b"
  | '\x0c' => "\\f"
  | c =>
    if c.toNat < 0x20 then
      "\\u00" ++ String.ofList [hexChar (c.toNat / 16), hexChar (c.toNat % 16)]
    else String.singleton c

/-- Write a text with its quotes after what has been written. -/
def writeText (out s : String) : String :=
  s.foldl (fun out c => out ++ escapeChar c) (out.push '"') |>.push '"'

mutual

/-- Write a document after what has been written. -/
def write (out : String) : Document → String
  | .null | .unreadable => out ++ "null"
  | .bool true => out ++ "true"
  | .bool false => out ++ "false"
  | .integer n => out ++ toString n
  | .float x => out ++ floatLayout.write x
  | .text s => writeText out s
  | .array [] => out ++ "[]"
  | .array (d :: rest) => (writeItems (write (out.push '[') d) rest).push ']'
  | .object [] => out ++ "\x7b\x7d"
  | .object ((k, d) :: rest) =>
    (writeFields (write ((writeText (out.push '\x7b') k).push ':') d) rest).push '\x7d'

/-- Write the items after the first. -/
def writeItems (out : String) : List Document → String
  | [] => out
  | d :: rest => writeItems (write (out.push ',') d) rest

/-- Write the fields after the first. -/
def writeFields (out : String) : List (String × Document) → String
  | [] => out
  | (k, d) :: rest => writeFields (write ((writeText (out.push ',') k).push ':') d) rest

end

/-- The text of a document. -/
def print (d : Document) : String := d.write ""

end Document

end WorkflowEngine
