/-! # TOML Values

    The values that a TOML text can write. Dates and times are recognised and
    not looked into.
-/

namespace WorkflowEngine

/-- A TOML value. -/
inductive Toml where
  | string (s : String)
  | integer (n : Int)
  | float (x : Float)
  | bool (b : Bool)
  /-- A date, a time, or both. -/
  | dateTime
  | array (items : List Toml)
  | table (fields : List (String × Toml))
  deriving Inhabited

namespace Toml

/-- Arrays and tables nested deeper than this are refused, and so are dotted
    keys of more parts. -/
def depthLimit : Nat := 79

/-! ## White space and comments -/

/-- Drop blanks and tabs. -/
def dropBlanks (text : List Char) : List Char := text.dropWhile fun c => c == ' ' || c == '\t'

/-- Whether a character may stand in a comment or a text: no control character
    but the tab. -/
def isPrintable (c : Char) : Bool := c == '\t' || (0x20 ≤ c.toNat && c.toNat ≠ 0x7F)

/-- Drop a comment, if one begins here. -/
def dropComment (text : List Char) : List Char :=
  match text with
  | '#' :: rest => rest.dropWhile isPrintable
  | _ => text

/-- Drop the end of a line. -/
def dropNewline? : List Char → Option (List Char)
  | '\n' :: rest => some rest
  | '\r' :: '\n' :: rest => some rest
  | _ => none

/-- Drop what may follow a statement on its line: blanks, a comment, and the end
    of the line or of the text. -/
def dropLineEnd? (text : List Char) : Option (List Char) :=
  match dropComment (dropBlanks text) with
  | [] => some []
  | rest => dropNewline? rest

/-- Drop blanks, comments and line ends. The first argument bounds their number. -/
def dropSpace? : Nat → List Char → Option (List Char)
  | 0, text => some (dropBlanks text)
  | n + 1, text =>
    match dropBlanks text with
    | '#' :: rest => dropNewline? (dropComment ('#' :: rest)) >>= dropSpace? n
    | '\n' :: rest => dropSpace? n rest
    | '\r' :: rest => dropNewline? ('\r' :: rest) >>= dropSpace? n
    | rest => some rest

end Toml

end WorkflowEngine
