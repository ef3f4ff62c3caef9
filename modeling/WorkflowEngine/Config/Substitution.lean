/-! # Variables in Configuration Texts

    A placeholder in a configuration text is a variable name between `${`
    and a closing brace. The placeholders of a text are looked up one after
    another in their order, and each that is set is replaced wherever it
    stands by then, in values put in before as well.
-/

namespace WorkflowEngine

/-- The values of the variables that are set. -/
abbrev Environment := String → Option String

namespace Placeholder

/-! ## Finding placeholders -/

/-- Whether a variable name may begin with a character. -/
def isNameStart (c : Char) : Bool := ('A' ≤ c && c ≤ 'Z') || c == '_'

/-- Whether a character may stand in a variable name. -/
def isNameChar (c : Char) : Bool := isNameStart c || ('0' ≤ c && c ≤ '9')

/-- The variable name of the placeholder at the front of a text. -/
def name? : List Char → Option (List Char)
  | '$' :: '\x7b' :: c :: rest =>
    if isNameStart c then
      match rest.dropWhile isNameChar with
      | '\x7d' :: _ => some (c :: rest.takeWhile isNameChar)
      | _ => none
    else none
  | _ => none

/-- The variable names of the placeholders of a text in order. -/
def names : List Char → List (List Char)
  | [] => []
  | c :: rest =>
    match name? (c :: rest) with
    | some name => name :: names rest
    | none => names rest

/-- The placeholder of a variable. -/
def ofName (name : List Char) : List Char := '$' :: '\x7b' :: name ++ ['\x7d']

/-! ## Replacing them -/

/-- Replace a word wherever it stands, from the left, after passing over a
    number of characters. -/
def replaceAfter (word value : List Char) : Nat → List Char → List Char
  | _, [] => []
  | n + 1, _ :: rest => replaceAfter word value n rest
  | 0, c :: rest =>
    -- What is put in is not looked through for the same word.
    if word.isPrefixOf (c :: rest) then value ++ replaceAfter word value (word.length - 1) rest
    else c :: replaceAfter word value 0 rest

/-- Replace a word wherever it stands, from the left. -/
def replace (word value text : List Char) : List Char := replaceAfter word value 0 text

/-- Replace the placeholder of a variable, if it is set. -/
def fill (env : Environment) (text name : List Char) : List Char :=
  match env (String.ofList name) with
  | some value => replace (ofName name) value.toList text
  | none => text

/-- Replace the placeholders of a text by the values of their variables. -/
def substitute (env : Environment) (text : String) : String :=
  String.ofList ((names text.toList).foldl (fill env) text.toList)

end Placeholder

end WorkflowEngine
