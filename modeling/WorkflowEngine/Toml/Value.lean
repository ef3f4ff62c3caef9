import WorkflowEngine.Number.Word
import WorkflowEngine.Timestamp
import WorkflowEngine.Toml.Text

/-! # Reading TOML Values -/

namespace WorkflowEngine

namespace Toml

/-! ## Numbers -/

/-- Digits after a first one, and the rest. An underscore may stand before a
    digit, and nowhere else. -/
def takeMoreDigits? (digit? : Char → Option Nat) : List Char → Option (List Nat × List Char)
  | [] => some ([], [])
  | '_' :: rest =>
    match rest with
    | [] => none
    | c :: rest =>
      match digit? c with
      | some d => (takeMoreDigits? digit? rest).map fun (ds, rest) => (d :: ds, rest)
      | none => none
  | c :: rest =>
    match digit? c with
    | some d => (takeMoreDigits? digit? rest).map fun (ds, rest) => (d :: ds, rest)
    | none => some ([], c :: rest)

/-- Digits that single underscores may separate, and the rest. -/
def takeDigits? (digit? : Char → Option Nat) : List Char → Option (List Nat × List Char)
  | [] => none
  | c :: rest => do
    let d ← digit? c
    let (ds, rest) ← takeMoreDigits? digit? rest
    return (d :: ds, rest)

/-- The digit of a base up to sixteen. -/
def digitOf (base : Nat) (c : Char) : Option Nat :=
  (Lexeme.hexDigit? c).filter (· < base)

/-- The number of digits in a base. -/
def valueIn (base : Nat) (digits : List Nat) : Nat := digits.foldl (fun n d => base * n + d) 0

/-- An integer that fits 64 bits with its sign. -/
def ofInt? (n : Int) : Option Toml :=
  if fitsSigned64 n then some (.integer n) else none

/-- An integer in a base, and the rest. -/
def takeBased? (base : Nat) (text : List Char) : Option (Toml × List Char) := do
  let (digits, rest) ← takeDigits? (digitOf base) text
  let value ← ofInt? (valueIn base digits)
  return (value, rest)

/-- The digits of a decimal integer: a zero alone, or digits without leading zero. -/
def takeWhole? : List Char → Option (List Nat × List Char)
  | '0' :: rest => some ([0], rest)
  | text => takeDigits? Numeral.digit? text

/-- The digits after a point, if there is one. -/
def takeFraction? : List Char → Option (Option (List Nat) × List Char)
  | '.' :: rest => (takeDigits? Numeral.digit? rest).map fun (ds, rest) => (some ds, rest)
  | rest => some (none, rest)

/-- The power of ten after an `e`, if there is one. -/
def takeExponent? : List Char → Option (Option Int × List Char)
  | c :: rest =>
    if c = 'e' ∨ c = 'E' then
      let (negative, rest) := Numeral.takeExponentSign rest
      (takeDigits? Numeral.digit? rest).map fun (ds, rest) =>
        let n : Int := Numeral.value ds
        (some (if negative then -n else n), rest)
    else some (none, c :: rest)
  | [] => some (none, [])

/-- The value of a numeral. A float may not overflow upwards. -/
def ofNumeral? (n : Numeral) : Option Toml :=
  if n.isWhole then
    let magnitude : Int := Numeral.value n.whole
    ofInt? (if n.negative then -magnitude else magnitude)
  else
    let x := n.nearest
    -- Downwards it becomes negative infinity.
    if x == 1 / 0 then none else some (.float x)

/-- A decimal number or a special float after its sign, and the rest. -/
def takeUnsigned? (negative : Bool) (text : List Char) : Option (Toml × List Char) :=
  match text with
  | 'i' :: 'n' :: 'f' :: rest => some (.float (if negative then -1 / 0 else 1 / 0), rest)
  | 'n' :: 'a' :: 'n' :: rest => some (.float (0 / 0), rest)
  | _ => do
    let (whole, rest) ← takeWhole? text
    let (fraction, rest) ← takeFraction? rest
    let (exponent, rest) ← takeExponent? rest
    let value ← ofNumeral? ⟨negative, whole, fraction, exponent⟩
    return (value, rest)

/-- A number, and the rest. -/
def takeNumber? : List Char → Option (Toml × List Char)
  | '0' :: 'x' :: rest => takeBased? 16 rest
  | '0' :: 'o' :: rest => takeBased? 8 rest
  | '0' :: 'b' :: rest => takeBased? 2 rest
  | '+' :: rest => takeUnsigned? false rest
  | '-' :: rest => takeUnsigned? true rest
  | text => takeUnsigned? false text

/-! ## Dates and times -/

/-- Exactly `width` digits that write a number in a range, and the rest. -/
def takeFixed? (width least greatest : Nat) (text : List Char) : Option (Nat × List Char) := do
  let digits ← (text.take width).mapM Numeral.digit?
  let n := Numeral.value digits
  guard (digits.length = width && least ≤ n && n ≤ greatest)
  return (n, text.drop width)

/-- Drop one character. -/
def dropChar? (c : Char) : List Char → Option (List Char)
  | d :: rest => if c = d then some rest else none
  | [] => none

/-- Drop a date. -/
def dropDate? (text : List Char) : Option (List Char) := do
  let (year, rest) ← takeFixed? 4 0 9999 text
  let (month, rest) ← takeFixed? 2 1 12 (← dropChar? '-' rest)
  let (day, rest) ← takeFixed? 2 1 31 (← dropChar? '-' rest)
  guard (day ≤ Date.daysIn year month)
  return rest

/-- Drop a fraction of a second, if there is one. -/
def dropFraction? : List Char → Option (List Char)
  | '.' :: rest =>
    match Numeral.takeDigits rest with
    | ([], _) => none
    | (_, rest) => some rest
  | rest => some rest

/-- Drop a time of day. -/
def dropTime? (text : List Char) : Option (List Char) := do
  let (_, rest) ← takeFixed? 2 0 23 text
  let (_, rest) ← takeFixed? 2 0 59 (← dropChar? ':' rest)
  let (_, rest) ← takeFixed? 2 0 60 (← dropChar? ':' rest)
  dropFraction? rest

/-- Drop an offset, if there is one. -/
def dropOffset (text : List Char) : List Char :=
  let offset : Option (List Char) :=
    match text with
    | c :: rest =>
      if c = 'Z' ∨ c = 'z' then some rest
      else if c = '+' ∨ c = '-' then do
        let (_, rest) ← takeFixed? 2 0 23 rest
        let (_, rest) ← takeFixed? 2 0 59 (← dropChar? ':' rest)
        return rest
      else none
    | [] => none
  offset.getD text

/-- Drop a time and an offset after a date, if a time follows. -/
def dropTimeOfDate (text : List Char) : List Char :=
  match text with
  | c :: rest =>
    if c = 'T' ∨ c = 't' ∨ c = ' ' then ((dropTime? rest).map dropOffset).getD text else text
  | [] => []

/-- A date, a time, or both, and the rest. -/
def takeDateTime? (text : List Char) : Option (Toml × List Char) :=
  (((dropDate? text).map dropTimeOfDate).or (dropTime? text)).map (dateTime, ·)

/-! ## Arrays and inline tables -/

/-- The items of an array after its opening bracket, in reverse; a comma may
    follow the last one. The first argument bounds their number. -/
def takeItems? (item : List Char → Option (Toml × List Char)) :
    Nat → List Toml → List Char → Option (List Toml × List Char)
  | 0, _, _ => none
  | n + 1, items, text =>
    match dropSpace? text.length text with
    | some (']' :: rest) => some (items, rest)
    | some text =>
      match item text with
      | none => none
      | some (value, rest) =>
        match dropSpace? rest.length rest with
        | some (',' :: rest) => takeItems? item n (value :: items) rest
        | some (']' :: rest) => some (value :: items, rest)
        | _ => none
    | none => none

/-- A key with its value, and the rest. -/
def takeKeyValue? (item : List Char → Option (Toml × List Char)) (text : List Char) :
    Option ((List String × Toml) × List Char) := do
  let (key, rest) ← takeKey? depthLimit text
  let (value, rest) ← item (dropBlanks (← dropChar? '=' rest))
  return ((key, value), rest)

/-- The entries of an inline table after its first one, in reverse. The first
    argument bounds their number. -/
def takeEntries? (item : List Char → Option (Toml × List Char)) :
    Nat → List (List String × Toml) → List Char →
      Option (List (List String × Toml) × List Char)
  | 0, _, _ => none
  | n + 1, entries, text => do
    let (entry, rest) ← takeKeyValue? item text
    match dropBlanks rest with
    | ',' :: rest => takeEntries? item n (entry :: entries) rest
    | '\x7d' :: rest => some (entry :: entries, rest)
    | _ => none

/-- A table that is put together from dotted keys. -/
inductive Inline where
  /-- A value that is complete. -/
  | value (v : Toml)
  /-- A table that dotted keys may still extend. -/
  | dotted (entries : List (String × Inline))

namespace Inline

/-- Add a value under a dotted key; nothing may stand there, and all tables on
    the way have to come from dotted keys as well. -/
def insert? (v : Toml) :
    List String → List (String × Inline) → Option (List (String × Inline))
  | [], _ => none
  | [key], entries =>
    if (entries.lookup key).isSome then none else some (entries ++ [(key, value v)])
  | key :: path, entries =>
    match entries.lookup key with
    | none => (insert? v path []).map fun inner => entries ++ [(key, dotted inner)]
    | some (dotted inner) =>
      (insert? v path inner).map fun inner =>
        entries.map fun e => if e.1 == key then (key, dotted inner) else e
    | some (value _) => none

mutual

/-- The value that has been put together. -/
def toToml : Inline → Toml
  | value v => v
  | dotted entries => .table (entriesToToml entries)

/-- The values of all entries. -/
def entriesToToml : List (String × Inline) → List (String × Toml)
  | [] => []
  | (k, e) :: rest => (k, toToml e) :: entriesToToml rest

end

/-- The table of some entries. -/
def table? (entries : List (List String × Toml)) : Option Toml :=
  (entries.foldlM (fun es e => insert? e.2 e.1 es) []).map fun es => .table (entriesToToml es)

end Inline

/-! ## Values -/

/-- A value, and the rest. The first argument bounds the nesting. -/
def takeValue? : Nat → List Char → Option (Toml × List Char)
  | depth, text =>
    match text with
    | '"' :: _ | '\'' :: _ => (takeText? text).map fun (s, rest) => (.string s, rest)
    | 't' :: 'r' :: 'u' :: 'e' :: rest => some (.bool true, rest)
    | 'f' :: 'a' :: 'l' :: 's' :: 'e' :: rest => some (.bool false, rest)
    | '[' :: rest =>
      match depth with
      | 0 => none
      | depth + 1 =>
        (takeItems? (takeValue? depth) (rest.length + 1) [] rest).map fun (items, rest) =>
          (.array items.reverse, rest)
    | '\x7b' :: rest =>
      match depth with
      | 0 => none
      | depth + 1 =>
        match dropBlanks rest with
        | '\x7d' :: rest => some (.table [], rest)
        | _ => do
          let (entries, rest) ← takeEntries? (takeValue? depth) (rest.length + 1) [] rest
          let table ← Inline.table? entries.reverse
          return (table, rest)
    | _ => (takeDateTime? text).or (takeNumber? text)

end Toml

end WorkflowEngine
