import WorkflowEngine.Json.Document
import WorkflowEngine.Number.Numeral
import WorkflowEngine.Number.Word

/-! # JSON Words

    The words of a JSON text: punctuation, and the documents that have no
    parts. White space between words is dropped.
-/

namespace WorkflowEngine

/-- A word of a JSON text. -/
inductive Lexeme where
  | openBrace
  | closeBrace
  | openBracket
  | closeBracket
  | comma
  | colon
  /-- A text; none if it holds half of a surrogate pair. -/
  | text (s : Option String)
  | scalar (d : Document)
  deriving DecidableEq

namespace Lexeme

/-! ## Numbers -/

/-- The document that a numeral writes. Digits alone are an integer as long as
    it fits 64 bits, signed if negative; all else is a float, zero with a minus
    sign included. -/
def ofNumeral (n : Numeral) : Document :=
  let magnitude := Numeral.value n.whole
  if n.isWhole && !n.negative && magnitude < words64 then .integer magnitude
  else if n.isWhole && n.negative && 0 < magnitude && magnitude ≤ halfWords64 then
    .integer (-magnitude)
  else
    match n.scaled? with
    | some x => .float x
    | none => .unreadable

/-- Whether a character can stand in a numeral. -/
def isNumeralChar (c : Char) : Bool :=
  ('0' ≤ c && c ≤ '9') || c == '-' || c == '+' || c == '.' || c == 'e' || c == 'E'

/-! ## Texts -/

/-- The value of a hexadecimal digit. -/
def hexDigit? (c : Char) : Option Nat :=
  if '0' ≤ c ∧ c ≤ '9' then some (c.toNat - '0'.toNat)
  else if 'a' ≤ c ∧ c ≤ 'f' then some (c.toNat - 'a'.toNat + 10)
  else if 'A' ≤ c ∧ c ≤ 'F' then some (c.toNat - 'A'.toNat + 10)
  else none

/-- The number that hexadecimal digits write. -/
def hexValue? (digits : List Char) : Option Nat :=
  digits.foldlM (fun n c => (hexDigit? c).map (16 * n + ·)) 0

/-- The character that a one-letter escape stands for. -/
def escaped? : Char → Option Char
  | '"' => some '"'
  | '\\' => some '\\'
  | '/' => some '/'
  | 'b' => some '\x08'
  | 'f' => some '\x0c'
  | 'n' => some '\n'
  | 'r' => some '\r'
  | 't' => some '\t'
  | _ => none

/-- Read the rest of a text after its opening quote, as code points in reverse. -/
def readText (codes : List Nat) : List Char → Option (List Nat × List Char)
  | [] => none
  | '"' :: rest => some (codes, rest)
  | '\\' :: 'u' :: a :: b :: c :: d :: rest =>
    match hexValue? [a, b, c, d] with
    | some code => readText (code :: codes) rest
    | none => none
  | '\\' :: c :: rest =>
    match escaped? c with
    | some c => readText (c.toNat :: codes) rest
    | none => none
  | c :: rest => if c.toNat < 0x20 then none else readText (c.toNat :: codes) rest

/-- Whether a code point is the first half of a surrogate pair. -/
def isHighSurrogate (code : Nat) : Bool := 0xD800 ≤ code && code < 0xDC00

/-- Whether a code point is the second half of a surrogate pair. -/
def isLowSurrogate (code : Nat) : Bool := 0xDC00 ≤ code && code < 0xE000

/-- Join surrogate pairs; a half that stands alone is no character. The code
    points are given in reverse and the characters come out in order. -/
def joinSurrogates (chars : List Char) : List Nat → Option (List Char)
  | [] => some chars
  | low :: high :: rest =>
    if isLowSurrogate low then
      if isHighSurrogate high then
        joinSurrogates
          (Char.ofNat (0x10000 + (high - 0xD800) * 0x400 + (low - 0xDC00)) :: chars) rest
      else none
    else if isHighSurrogate low then none
    else joinSurrogates (Char.ofNat low :: chars) (high :: rest)
  | [code] =>
    if isLowSurrogate code || isHighSurrogate code then none
    else some (Char.ofNat code :: chars)

/-! ## Words -/

/-- Whether a character is white space between words. -/
def isBlank (c : Char) : Bool := c == ' ' || c == '\n' || c == '\t' || c == '\r'

/-- Drop a word from the front of a text. -/
def dropWord? (word text : List Char) : Option (List Char) :=
  if word.isPrefixOf text then some (text.drop word.length) else none

/-- The word at the front of a text that starts with the given character, and
    the rest. -/
def next? (c : Char) (rest : List Char) : Option (Lexeme × List Char) :=
  match c with
  | '\x7b' => some (openBrace, rest)
  | '\x7d' => some (closeBrace, rest)
  | '[' => some (openBracket, rest)
  | ']' => some (closeBracket, rest)
  | ',' => some (comma, rest)
  | ':' => some (colon, rest)
  | 'n' => (dropWord? ['u', 'l', 'l'] rest).map (scalar .null, ·)
  | 't' => (dropWord? ['r', 'u', 'e'] rest).map (scalar (.bool true), ·)
  | 'f' => (dropWord? ['a', 'l', 's', 'e'] rest).map (scalar (.bool false), ·)
  | '"' =>
    (readText [] rest).map fun (codes, rest) =>
      (text ((joinSurrogates [] codes).map String.ofList), rest)
  | _ =>
    let numeral := c :: rest.takeWhile isNumeralChar
    (Numeral.ofText? numeral).map fun n =>
      (scalar (ofNumeral n), rest.dropWhile isNumeralChar)

/-- Split a text into words. Each step passes over at least one character, and
    the first argument bounds the number of steps. -/
def scanFrom : Nat → List Lexeme → List Char → Option (List Lexeme)
  | _, words, [] => some words.reverse
  | 0, _, _ :: _ => none
  | steps + 1, words, c :: rest =>
    if isBlank c then scanFrom steps words rest
    else
      match next? c rest with
      | some (word, rest) => scanFrom steps (word :: words) rest
      | none => none

/-- The words of a text. -/
def scan (text : List Char) : Option (List Lexeme) := scanFrom text.length [] text

end Lexeme

end WorkflowEngine
