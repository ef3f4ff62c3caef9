import WorkflowEngine.Json.Lexeme
import WorkflowEngine.Toml.Basic

/-! # TOML Texts and Keys

    A text stands between quotes: with escapes between double quotes, as it
    is between single quotes, and over several lines between three of either.
    A key is a plain word or a text on one line, and a dotted key joins
    several.
-/

namespace WorkflowEngine

namespace Toml

/-! ## Escapes -/

/-- The character of a one-letter escape. -/
def escaped? : Char → Option Char
  | 'b' => some '\x08'
  | 't' => some '\t'
  | 'n' => some '\n'
  | 'f' => some '\x0c'
  | 'r' => some '\r'
  | '"' => some '"'
  | '\\' => some '\\'
  | _ => none

/-- The character of a code point, unless it is half of a surrogate pair or too large. -/
def charOf? (code : Nat) : Option Char :=
  if code < 0xD800 ∨ (0xE000 ≤ code ∧ code < 0x110000) then some (Char.ofNat code) else none

/-- The character of a number of hexadecimal digits, and the rest. -/
def takeCode? (digits : Nat) (text : List Char) : Option (Char × List Char) := do
  let word := text.take digits
  guard (word.length = digits)
  let code ← Lexeme.hexValue? word
  let c ← charOf? code
  return (c, text.drop digits)

/-- The character that an escape stands for, after its backslash, and the rest. -/
def takeEscape? : List Char → Option (Char × List Char)
  | 'u' :: rest => takeCode? 4 rest
  | 'U' :: rest => takeCode? 8 rest
  | c :: rest => (escaped? c).map (·, rest)
  | [] => none

/-! ## Texts on one line -/

/-- The rest of a text between double quotes, its characters in reverse. The
    first argument bounds their number. -/
def takeBasic? : Nat → List Char → List Char → Option (List Char × List Char)
  | 0, _, _ => none
  | _, _, [] => none
  | _ + 1, chars, '"' :: rest => some (chars, rest)
  | n + 1, chars, '\\' :: rest =>
    match takeEscape? rest with
    | some (c, rest) => takeBasic? n (c :: chars) rest
    | none => none
  | n + 1, chars, c :: rest => if isPrintable c then takeBasic? n (c :: chars) rest else none

/-- The rest of a text between single quotes, its characters in reverse. -/
def takeLiteral? (chars : List Char) : List Char → Option (List Char × List Char)
  | [] => none
  | '\'' :: rest => some (chars, rest)
  | c :: rest => if isPrintable c then takeLiteral? (c :: chars) rest else none

/-! ## Texts over several lines -/

/-- Drop blanks and line ends. -/
def dropBlankLines : List Char → List Char
  | [] => []
  | c :: rest =>
    if c == ' ' || c == '\t' || c == '\n' then dropBlankLines rest
    else
      match c, rest with
      | '\r', '\n' :: rest => dropBlankLines rest
      | _, _ => c :: rest

/-- What follows an escaped line end: the next character that is not blank. -/
def dropEscapedNewline? (text : List Char) : Option (List Char) :=
  (dropNewline? (dropBlanks text)).map dropBlankLines

/-- The number of quotes at the front of a text. -/
def countQuotes (quote : Char) : List Char → Nat
  | [] => 0
  | c :: rest => if c = quote then countQuotes quote rest + 1 else 0

/-- The rest of a text between three quotes, its characters in reverse. One or
    two quotes belong to the text; of three to five the last three end it.
    The first argument bounds the number of characters. -/
def takeLines? (quote : Char) : Nat → List Char → List Char → Option (List Char × List Char)
  | 0, _, _ => none
  | _, _, [] => none
  | n + 1, chars, c :: rest =>
    if c = quote then
      let quotes := countQuotes quote (c :: rest)
      if quotes < 3 then takeLines? quote n (quote :: chars) rest
      else
        -- The first quotes of four or five are the last characters of the text.
        let inside := min quotes 5 - 3
        some (List.replicate inside quote ++ chars, rest.drop (inside + 2))
    else if c = '\\' ∧ quote = '"' then
      match dropEscapedNewline? rest with
      | some rest => takeLines? quote n chars rest
      | none =>
        match takeEscape? rest with
        | some (c, rest) => takeLines? quote n (c :: chars) rest
        | none => none
    else
      match dropNewline? (c :: rest) with
      | some rest => takeLines? quote n ('\n' :: chars) rest
      | none => if isPrintable c then takeLines? quote n (c :: chars) rest else none

/-- A line end right after the opening quotes is not part of the text. -/
def dropFirstNewline (text : List Char) : List Char := (dropNewline? text).getD text

/-- A text of any kind, and what follows it. -/
def takeText? (text : List Char) : Option (String × List Char) :=
  let result :=
    match text with
    | '"' :: '"' :: '"' :: rest => takeLines? '"' (rest.length + 1) [] (dropFirstNewline rest)
    | '"' :: rest => takeBasic? (rest.length + 1) [] rest
    | '\'' :: '\'' :: '\'' :: rest => takeLines? '\'' (rest.length + 1) [] (dropFirstNewline rest)
    | '\'' :: rest => takeLiteral? [] rest
    | _ => none
  result.map fun (chars, rest) => (String.ofList chars.reverse, rest)

/-! ## Keys -/

/-- Whether a character may stand in a plain key. -/
def isKeyChar (c : Char) : Bool :=
  ('a' ≤ c && c ≤ 'z') || ('A' ≤ c && c ≤ 'Z') || ('0' ≤ c && c ≤ '9') ||
    c == '-' || c == '_'

/-- A key without dots, and what follows it. -/
def takeSimpleKey? (text : List Char) : Option (String × List Char) :=
  match text with
  | '"' :: rest =>
    (takeBasic? (rest.length + 1) [] rest).map fun (chars, rest) =>
      (String.ofList chars.reverse, rest)
  | '\'' :: rest =>
    (takeLiteral? [] rest).map fun (chars, rest) => (String.ofList chars.reverse, rest)
  | _ =>
    let word := text.takeWhile isKeyChar
    if word.isEmpty then none else some (String.ofList word, text.dropWhile isKeyChar)

/-- The parts of a dotted key, and what follows it; blanks may surround each
    part. The first argument bounds the number of parts. -/
def takeKey? : Nat → List Char → Option (List String × List Char)
  | 0, _ => none
  | n + 1, text => do
    let (part, rest) ← takeSimpleKey? (dropBlanks text)
    match dropBlanks rest with
    | '.' :: rest =>
      let (parts, rest) ← takeKey? n rest
      return (part :: parts, rest)
    | rest => return ([part], rest)

end Toml

end WorkflowEngine
