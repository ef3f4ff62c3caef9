import WorkflowEngine.Json.Lexeme

/-! # Reading JSON

    The words of a text are read one by one against a stack of the arrays
    and objects that are still open.
-/

namespace WorkflowEngine

namespace Document

/-- Arrays and objects nested deeper than this cannot be read. -/
def depthLimit : Nat := 127

/-- An array or object that is still open; its parts stand in reverse. -/
inductive Frame where
  | array (items : List Document)
  | object (fields : List (String × Document)) (readable : Bool)
  /-- An object in which a field name has been read. -/
  | field (fields : List (String × Document)) (readable : Bool) (name : String)

/-- What the next word may be. -/
inductive Expected where
  | value
  /-- A document, or the end of an array that has just begun. -/
  | firstItem
  /-- A field name, or the end of an object that has just begun. -/
  | firstName
  | name
  | colon
  /-- A comma, or the end of the innermost open document. -/
  | separator
  /-- Nothing more. -/
  | nothing

/-- How far a text has been read. -/
structure Reading where
  stack : List Frame
  /-- What may follow. -/
  expected : Expected
  /-- The document, once it is complete. -/
  result : Document

namespace Reading

/-- Before the first word. -/
def start : Reading := ⟨[], .value, .null⟩

/-- Take a complete document as a part of the innermost open one. -/
def complete (stack : List Frame) (d : Document) : Option Reading :=
  match stack with
  | [] => some ⟨[], .nothing, d⟩
  | .array items :: stack => some ⟨.array (d :: items) :: stack, .separator, .null⟩
  | .field fields readable name :: stack =>
    some ⟨.object ((name, d) :: fields) readable :: stack, .separator, .null⟩
  | .object .. :: _ => none

/-- Close the innermost open document. -/
def close (depth : Nat) : Frame → Document
  | .array items => if depth ≤ depthLimit then .array items.reverse else .unreadable
  | .object fields readable | .field fields readable _ =>
    if readable && depth ≤ depthLimit then .object fields.reverse else .unreadable

/-- Take a field name; one with half of a surrogate pair spoils the object. -/
def takeName (stack : List Frame) (name : Option String) : Option Reading :=
  match stack with
  | .object fields readable :: stack =>
    some ⟨.field fields (readable && name.isSome) (name.getD "") :: stack, .colon, .null⟩
  | _ => none

/-- Read one word where a document has to stand. -/
def stepValue (stack : List Frame) : Lexeme → Option Reading
  | .openBrace => some ⟨.object [] true :: stack, .firstName, .null⟩
  | .openBracket => some ⟨.array [] :: stack, .firstItem, .null⟩
  | .text (some s) => complete stack (.text s)
  | .text none => complete stack .unreadable
  | .scalar d => complete stack d
  | _ => none

/-- Read one word. -/
def step (r : Reading) (word : Lexeme) : Option Reading :=
  match r.expected, word, r.stack with
  | .value, word, stack => stepValue stack word
  | .firstItem, .closeBracket, frame :: stack
  | .firstName, .closeBrace, frame :: stack => complete stack (close (stack.length + 1) frame)
  | .firstItem, word, stack => stepValue stack word
  | .firstName, .text name, stack | .name, .text name, stack => takeName stack name
  | .colon, .colon, stack => some ⟨stack, .value, .null⟩
  | .separator, .comma, .array items :: stack => some ⟨.array items :: stack, .value, .null⟩
  | .separator, .comma, .object fields readable :: stack =>
    some ⟨.object fields readable :: stack, .name, .null⟩
  | .separator, .closeBracket, .array items :: stack =>
    complete stack (close (stack.length + 1) (.array items))
  | .separator, .closeBrace, .object fields readable :: stack =>
    complete stack (close (stack.length + 1) (.object fields readable))
  | _, _, _ => none

/-- The document, if the text is at its end. -/
def result? (r : Reading) : Option Document :=
  match r.expected with
  | .nothing => some r.result
  | _ => none

end Reading

/-- The document that a list of words writes. -/
def ofWords? (words : List Lexeme) : Option Document := do
  let reading ← words.foldlM Reading.step Reading.start
  reading.result?

/-- The document that a text writes. -/
def parse? (text : String) : Option Document := Lexeme.scan text.toList >>= ofWords?

end Document

end WorkflowEngine
