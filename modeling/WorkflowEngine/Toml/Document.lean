import WorkflowEngine.Toml.Value

/-! # Reading TOML Documents

    A document is a sequence of statements: keys with their values, and the
    headers of tables and of arrays of tables. No table is defined twice:
    a header may complete a table that so far only stood on the way to
    others, and dotted keys may extend only tables that come from dotted keys.
-/

namespace WorkflowEngine

namespace Toml

/-- How a table came to be. -/
inductive Origin where
  /-- By a header of its own, or as the whole document. -/
  | header
  /-- On the way to the table of another header. -/
  | onTheWay
  /-- By dotted keys. -/
  | dotted
  deriving DecidableEq

/-- A part of a document that is being read. -/
inductive Part where
  | value (v : Toml)
  | table (origin : Origin) (entries : List (String × Part))
  /-- The tables of an array before the last one, in reverse, and the last one. -/
  | tables (before : List (List (String × Part))) (last : List (String × Part))

namespace Part

/-- The parts of a table by name. -/
abbrev Entries := List (String × Part)

/-- Replace the part of a name, or add it. -/
def put (entries : Entries) (key : String) (part : Part) : Entries :=
  if (entries.lookup key).isSome then
    entries.map fun e => if e.1 == key then (key, part) else e
  else entries ++ [(key, part)]

/-- Change the table that dotted keys lead to from a table of a given origin. -/
def alterDotted (f : Origin → Entries → Option Entries) :
    List String → Origin → Entries → Option Entries
  | [], origin, entries => f origin entries
  | key :: path, _, entries =>
    match entries.lookup key with
    | none =>
      (alterDotted f path .dotted []).map fun inner =>
        put entries key (.table .dotted inner)
    | some (.table origin inner) =>
      -- A table with a header of its own is complete.
      if origin = .header then none
      else (alterDotted f path origin inner).map fun inner => put entries key (.table origin inner)
    | some (.tables before last) =>
      (alterDotted f path .header last).map fun last => put entries key (.tables before last)
    | some (.value _) => none

/-- Change the table that the names of a header lead to. -/
def alter (f : Origin → Entries → Option Entries) :
    List String → Origin → Entries → Option Entries
  | [], origin, entries => f origin entries
  | key :: path, _, entries =>
    match entries.lookup key with
    | none =>
      (alter f path .onTheWay []).map fun inner => put entries key (.table .onTheWay inner)
    | some (.table origin inner) =>
      (alter f path origin inner).map fun inner => put entries key (.table origin inner)
    | some (.tables before last) =>
      (alter f path .header last).map fun last => put entries key (.tables before last)
    | some (.value _) => none

/-- Add a value to the table at the end of a dotted key. Only a plain key goes
    into a table that has a header, and only a dotted one into other tables. -/
def addValue (key : String) (v : Toml) (plain : Bool) (origin : Origin) (entries : Entries) :
    Option Entries :=
  if (origin = .dotted) = plain ∨ (entries.lookup key).isSome then none
  else some (entries ++ [(key, .value v)])

/-- Define the table of a header. -/
def addTable (key : String) (_ : Origin) (entries : Entries) : Option Entries :=
  match entries.lookup key with
  | none => some (entries ++ [(key, .table .header [])])
  -- A table on the way to others gets its own header once.
  | some (.table .onTheWay inner) => some (put entries key (.table .header inner))
  | some _ => none

/-- Add a table to the array of a header. -/
def addToTables (key : String) (_ : Origin) (entries : Entries) : Option Entries :=
  match entries.lookup key with
  | none => some (entries ++ [(key, .tables [] [])])
  | some (.tables before last) => some (put entries key (.tables (last :: before) []))
  | some _ => none

mutual

/-- The value of a part. -/
def toToml : Part → Toml
  | value v => v
  | table _ entries => .table (entriesToToml entries)
  | tables before last =>
    .array ((rowsToToml before).reverse ++ [.table (entriesToToml last)])

/-- The values of all parts of a table. -/
def entriesToToml : List (String × Part) → List (String × Toml)
  | [] => []
  | (k, p) :: rest => (k, toToml p) :: entriesToToml rest

/-- The values of the tables of an array. -/
def rowsToToml : List (List (String × Part)) → List Toml
  | [] => []
  | row :: rest => .table (entriesToToml row) :: rowsToToml rest

end

end Part

/-- A document that is being read. -/
structure Reading where
  root : Part.Entries := []
  /-- The names of the header under which values go. -/
  header : List String := []

namespace Reading

/-- Add a value under a dotted key. -/
def addValue (r : Reading) (key : List String) (v : Toml) : Option Reading := do
  let name ← key.getLast?
  let path := key.dropLast
  let add := Part.addValue name v path.isEmpty
  let root ← Part.alter (Part.alterDotted add path) r.header .header r.root
  return { r with root }

/-- Begin the table of a header. -/
def beginTable (r : Reading) (key : List String) : Option Reading := do
  let name ← key.getLast?
  let root ← Part.alter (Part.addTable name) key.dropLast .header r.root
  return ⟨root, key⟩

/-- Begin a further table of an array. -/
def beginTables (r : Reading) (key : List String) : Option Reading := do
  let name ← key.getLast?
  let root ← Part.alter (Part.addToTables name) key.dropLast .header r.root
  return ⟨root, key⟩

end Reading

/-- Read a header after its opening brackets. -/
def readHeader (begin : List String → Option Reading) (brackets : Nat) (text : List Char) :
    Option (Reading × List Char) := do
  let (key, rest) ← takeKey? depthLimit text
  guard (rest.take brackets = List.replicate brackets ']')
  let reading ← begin key
  let rest ← dropLineEnd? (rest.drop brackets)
  return (reading, rest)

/-- Read a key with its value. -/
def readKeyValue (r : Reading) (text : List Char) : Option (Reading × List Char) := do
  let ((key, value), rest) ← takeKeyValue? (takeValue? depthLimit) text
  let rest ← dropLineEnd? rest
  let reading ← r.addValue key value
  return (reading, rest)

/-- Read one statement. -/
def readStatement (r : Reading) (text : List Char) : Option (Reading × List Char) :=
  match text with
  | '#' :: _ | '\n' :: _ | '\r' :: _ => (dropLineEnd? text).map (r, ·)
  | '[' :: '[' :: rest => readHeader r.beginTables 2 rest
  | '[' :: rest => readHeader r.beginTable 1 rest
  | _ => readKeyValue r text

/-- Read statements to the end of the text. The first argument bounds their number. -/
def readStatements : Nat → Reading → List Char → Option Reading
  | 0, _, _ => none
  | n + 1, r, text =>
    match dropBlanks text with
    | [] => some r
    | text =>
      match readStatement r text with
      | some (r, rest) => readStatements n r rest
      | none => none

/-- The fields of the document that a text writes; a byte order mark may precede it. -/
def parse? (text : String) : Option (List (String × Toml)) :=
  let chars :=
    match text.toList with
    | '\ufeff' :: rest => rest
    | chars => chars
  (readStatements (chars.length + 1) {} chars).map fun r => Part.entriesToToml r.root

end Toml

end WorkflowEngine
