import Hierarchy.Toml.Scalar
import Hierarchy.Toml.TextReader

/-!
# TOML documents

`readDocument` reads a document and gives the fields of its root.  A table may be spread over a
document: as a header, as the path of a deeper header, as the front of a dotted key.  Where a table
came from decides what may still be added to it, so `Origin` keeps that; a key that is set twice and
a table that is extended against these rules make the whole document unreadable.
-/

namespace Hierarchy.Toml

abbrev Key := List Char

/-- Where a table came from. -/
inductive Origin where
  /-- From its own header, or it is the root or a row of a list of tables. -/
  | header
  /-- From the header of a table inside it: its own header may follow. -/
  | deeperHeader
  /-- From a dotted key: only dotted keys may add to it. -/
  | dottedKey
  /-- From braces: nothing may be added. -/
  | braces
  deriving DecidableEq, Repr

inductive Value where
  | text (cs : List Char)
  | scalar (s : Scalar)
  | list (items : List Value)
  | table (origin : Origin) (fields : List (Key × Value))
  /-- Tables with double-bracketed headers of one name; the last one can be extended. -/
  | tables (rows : List (List (Key × Value)))

abbrev Fields := List (Key × Value)

/-! ## Adding fields -/

/-- The fields with another value for a key that is among them. -/
def Fields.replace (fields : Fields) (key : Key) (value : Value) : Fields :=
  fields.map fun field => if field.1 = key then (key, value) else field

/-- Changes the table at the end of a path, starting from a table with this origin.  Missing tables
on the way are made.  `dotted` says that the path is the front of a dotted key, not of a header. -/
def Fields.change (dotted : Bool) (f : Origin → Fields → Option Fields) :
    List Key → Origin → Fields → Option Fields
  | [], origin, fields => f origin fields
  | key :: path, _, fields =>
    match fields.lookup key with
    | none => do
      let origin := if dotted then .dottedKey else .deeperHeader
      let inner ← change dotted f path origin []
      return fields ++ [(key, .table origin inner)]
    | some (.table origin inner) =>
      if origin = .braces ∨ (dotted ∧ origin = .header) then none
      else do
        let inner ← change dotted f path origin inner
        return fields.replace key (.table origin inner)
    | some (.tables rows) => do
      let row ← rows.getLast?
      let row ← change dotted f path .header row
      return fields.replace key (.tables (rows.dropLast ++ [row]))
    | some _ => none

/-- Sets a field.  The table at the end of a dotted key's front must come from dotted keys too. -/
def Fields.set (fields : Fields) (path : List Key) (value : Value) : Option Fields := do
  let key ← path.getLast?
  let front := path.dropLast
  let add (origin : Origin) (fields : Fields) : Option Fields :=
    if (origin == .dottedKey) == front.isEmpty then none
    else if (fields.lookup key).isSome then none
    else some (fields ++ [(key, value)])
  change true add front .header fields

/-- Opens the table of a header. -/
def Fields.openTable (fields : Fields) (path : List Key) : Option Fields := do
  let key ← path.getLast?
  let add (_ : Origin) (fields : Fields) : Option Fields :=
    match fields.lookup key with
    | none => some (fields ++ [(key, .table .header [])])
    | some (.table .deeperHeader inner) => some (fields.replace key (.table .header inner))
    | some _ => none
  change false add path.dropLast .header fields

/-- Opens one more table of a double-bracketed header. -/
def Fields.openRow (fields : Fields) (path : List Key) : Option Fields := do
  let key ← path.getLast?
  let add (_ : Origin) (fields : Fields) : Option Fields :=
    match fields.lookup key with
    | none => some (fields ++ [(key, .tables [[]])])
    | some (.tables rows) => some (fields.replace key (.tables (rows ++ [[]])))
    | some _ => none
  change false add path.dropLast .header fields

/-! ## Between values -/

def isSpace (c : Char) : Bool := c == ' ' || c == '\t'

def skipSpace (cs : List Char) : List Char := cs.dropWhile isSpace

/-- Characters that a comment may hold. -/
def isCommentChar (c : Char) : Bool := c == '\t' || (0x20 ≤ c.toNat && c.toNat != 0x7F)

/-- What follows a line end; the end of the document is one. -/
def lineEnd? : List Char → Option (List Char)
  | [] => some []
  | '\n' :: rest => some rest
  | '\r' :: '\n' :: rest => some rest
  | _ => none

/-- What follows the rest of a line on which only blanks and a comment are left. -/
def finishLine (cs : List Char) : Option (List Char) :=
  match skipSpace cs with
  | '#' :: rest => lineEnd? (rest.dropWhile isCommentChar)
  | cs => lineEnd? cs

/-- Skips blanks, line ends and comments, which may stand between the items of a list. -/
def skipFiller (inComment : Bool) : List Char → List Char
  | [] => []
  | '\n' :: rest => skipFiller false rest
  | '\r' :: '\n' :: rest => skipFiller false rest
  | c :: rest =>
    if inComment then if isCommentChar c then skipFiller true rest else c :: rest
    else if isSpace c then skipFiller false rest
    else if c = '#' then skipFiller true rest
    else c :: rest

/-! ## Keys and values -/

/-- Keys of one path, and values within values, are fewer than this. -/
def depthLimit : Nat := 80

def isBareKeyChar (c : Char) : Bool := c.isAlphanum || c == '_' || c == '-'

/-- Reads one key, bare or quoted. -/
def readKey (cs : List Char) : Option (Key × List Char) :=
  match cs with
  | '"' :: _ | '\'' :: _ => unquoteLine cs
  | _ =>
    let key := cs.takeWhile isBareKeyChar
    if key.isEmpty then none else some (key, cs.dropWhile isBareKeyChar)

/-- Reads at most `limit` keys with dots between them, and the blanks around them. -/
def readPath : Nat → List Char → Option (List Key × List Char)
  | 0, _ => none
  | limit + 1, cs => do
    let (key, cs) ← readKey (skipSpace cs)
    match skipSpace cs with
    | '.' :: rest =>
      let (path, rest) ← readPath limit rest
      return (key :: path, rest)
    | rest => return ([key], rest)

/-- Reads a dotted key. -/
def readDottedKey (cs : List Char) : Option (List Key × List Char) := readPath (depthLimit - 1) cs

abbrev ValueReader := List Char → Option (Value × List Char)

/-- Reads at most `limit` items up to the closing bracket; a comma may follow the last one. -/
def readItems (read : ValueReader) : Nat → List Char → Option (List Value × List Char)
  | 0, _ => none
  | limit + 1, cs =>
    match skipFiller false cs with
    | ']' :: rest => some ([], rest)
    | cs => do
      let (item, cs) ← read cs
      match skipFiller false cs with
      | ',' :: rest =>
        let (items, rest) ← readItems read limit rest
        return (item :: items, rest)
      | ']' :: rest => return ([item], rest)
      | _ => none

/-- Reads a key, the sign behind it, and a value. -/
def readField (read : ValueReader) (cs : List Char) :
    Option ((List Key × Value) × List Char) := do
  let (path, cs) ← readDottedKey cs
  let cs ← expect? '=' cs
  let (value, cs) ← read (skipSpace cs)
  return ((path, value), cs)

/-- Reads at most `limit` fields, at least one, up to the closing brace. -/
def readFields (read : ValueReader) :
    Nat → List Char → Option (List (List Key × Value) × List Char)
  | 0, _ => none
  | limit + 1, cs => do
    let (field, cs) ← readField read cs
    match skipSpace cs with
    | ',' :: rest =>
      let (fields, rest) ← readFields read limit rest
      return (field :: fields, rest)
    | '\x7d' :: rest => return ([field], rest)
    | _ => none

/-- Reads a value that holds no others. -/
def readPlain (cs : List Char) : Option (Value × List Char) :=
  match cs with
  | '"' :: _ | '\'' :: _ => (unquote cs).map fun (text, rest) => (.text text, rest)
  | _ => (readScalar cs).map fun (s, rest) => (.scalar s, rest)

/-- Reads a value; `read` reads those within it. -/
def readNested (read : ValueReader) (cs : List Char) : Option (Value × List Char) :=
  match cs with
  | '[' :: rest =>
    (readItems read (rest.length + 1) rest).map fun (items, rest) => (.list items, rest)
  | '\x7b' :: rest =>
    match skipSpace rest with
    | '\x7d' :: rest => some (.table .braces [], rest)
    | rest => do
      let (fields, rest) ← readFields read (rest.length + 1) rest
      let fields ← fields.foldlM (fun fields field => Fields.set fields field.1 field.2) []
      return (.table .braces fields, rest)
  | _ => readPlain cs

/-- Reads a value that holds values within values at most `depth` deep. -/
def readValue : Nat → ValueReader
  | 0 => readPlain
  | depth + 1 => readNested (readValue depth)

/-! ## Documents -/

/-- One statement of a document. -/
inductive Statement where
  | field (path : List Key) (value : Value)
  | table (path : List Key)
  | row (path : List Key)

/-- Reads the statement at the start of a line, up to the end of its line. -/
def readStatement (cs : List Char) : Option (Statement × List Char) :=
  match cs with
  | '[' :: '[' :: rest => do
    let (path, rest) ← readDottedKey rest
    let rest ← expect? ']' rest
    let rest ← expect? ']' rest
    return (.row path, ← finishLine rest)
  | '[' :: rest => do
    let (path, rest) ← readDottedKey rest
    let rest ← expect? ']' rest
    return (.table path, ← finishLine rest)
  | _ => do
    let ((path, value), rest) ← readField (readValue (depthLimit - 1)) cs
    return (.field path value, ← finishLine rest)

/-- Reads at most `limit` lines. -/
def readLines : Nat → List Char → Option (List Statement)
  | 0, _ => none
  | limit + 1, cs =>
    match skipSpace cs with
    | [] => some []
    | '\n' :: rest => readLines limit rest
    | '\r' :: '\n' :: rest => readLines limit rest
    | '#' :: rest => do readLines limit (← lineEnd? (rest.dropWhile isCommentChar))
    | cs => do
      let (statement, rest) ← readStatement cs
      return statement :: (← readLines limit rest)

/-- Carries out a statement on the fields of the root; fields belong to the table opened last. -/
def Statement.apply (fields : Fields) (opened : List Key) :
    Statement → Option (Fields × List Key)
  | .field path value => do
    let fields ← Fields.change false (fun _ fields => fields.set path value) opened .header fields
    return (fields, opened)
  | .table path => do return (← fields.openTable path, path)
  | .row path => do return (← fields.openRow path, path)

/-- A byte order mark may stand before a document. -/
def dropByteOrderMark : List Char → List Char
  | '\ufeff' :: rest => rest
  | cs => cs

/-- The fields of a document's root. -/
def readDocument (cs : List Char) : Option Fields := do
  let cs := dropByteOrderMark cs
  let statements ← readLines (cs.length + 1) cs
  let (fields, _) ← statements.foldlM (fun (fields, opened) s => s.apply fields opened) ([], [])
  return fields

end Hierarchy.Toml
