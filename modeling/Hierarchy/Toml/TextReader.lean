import Hierarchy.Toml.Text

/-!
# Reading texts in TOML

`unquote` reads a text in any of the four forms that `Toml.Text` describes and gives what follows
it.  Line ends inside a block read as one character, however the document writes them.
-/

namespace Hierarchy.Toml

/-- Characters that no text may hold as they are; the line ends of blocks are read before. -/
def isForbidden (c : Char) : Bool := (c.toNat ≤ 0x1F && c != '\t') || c.toNat == 0x7F

def hexValue? (c : Char) : Option Nat :=
  if '0' ≤ c ∧ c ≤ '9' then some (c.toNat - 48)
  else if 'a' ≤ c ∧ c ≤ 'f' then some (c.toNat - 87)
  else if 'A' ≤ c ∧ c ≤ 'F' then some (c.toNat - 55)
  else none

/-- The character with a code point written in hexadecimal digits. -/
def scalar? (digits : List Char) : Option Char := do
  let n ← digits.foldlM (fun n c => (hexValue? c).map (16 * n + ·)) 0
  if h : n.isValidChar then return Char.ofNatAux n h else none

/-- What a backslash and one letter stand for. -/
def simpleEscape? (c : Char) : Option Char :=
  match c with
  | 'b' => some '\x08'
  | 't' => some '\t'
  | 'n' => some '\n'
  | 'f' => some '\x0c'
  | 'r' => some '\r'
  | '"' => some '"'
  | '\\' => some '\\'
  | _ => none

abbrev Reading := Option (List Char × List Char)

/-- Puts a character before a text that was read. -/
def Reading.cons (c : Char) (r : Reading) : Reading := r.map fun (text, rest) => (c :: text, rest)

/-- The inside of a basic text, up to its closing quote. -/
def readBasic : List Char → Reading
  | [] => none
  | '"' :: rest => some ([], rest)
  | '\\' :: 'u' :: a :: b :: c :: d :: rest => do
    let x ← scalar? [a, b, c, d]
    (readBasic rest).cons x
  | '\\' :: 'U' :: a :: b :: c :: d :: e :: f :: g :: h :: rest => do
    let x ← scalar? [a, b, c, d, e, f, g, h]
    (readBasic rest).cons x
  | '\\' :: c :: rest => do
    let x ← simpleEscape? c
    (readBasic rest).cons x
  | c :: rest => if c = '\\' ∨ isForbidden c then none else (readBasic rest).cons c

/-- The inside of a literal text, up to its closing quote. -/
def readLiteral : List Char → Reading
  | [] => none
  | '\'' :: rest => some ([], rest)
  | c :: rest => if isForbidden c then none else (readLiteral rest).cons c

/-- Only blanks are left on the line. -/
def atLineEnd (cs : List Char) : Bool :=
  match cs.dropWhile (fun c => c == ' ' || c == '\t') with
  | '\n' :: _ | '\r' :: '\n' :: _ => true
  | _ => false

/-- The inside of a basic block.  `skipping` says that a backslash at the end of a line was read,
behind which blanks and line ends do not count. -/
def readBlockBasic (skipping : Bool) : List Char → Reading
  | [] => none
  | '"' :: '"' :: '"' :: '"' :: '"' :: rest => some (['"', '"'], rest)
  | '"' :: '"' :: '"' :: '"' :: rest => some (['"'], rest)
  | '"' :: '"' :: '"' :: rest => some ([], rest)
  | '\r' :: '\n' :: rest =>
    if skipping then readBlockBasic true rest else (readBlockBasic false rest).cons '\n'
  | '\\' :: 'u' :: a :: b :: c :: d :: rest => do
    let x ← scalar? [a, b, c, d]
    (readBlockBasic false rest).cons x
  | '\\' :: 'U' :: a :: b :: c :: d :: e :: f :: g :: h :: rest => do
    let x ← scalar? [a, b, c, d, e, f, g, h]
    (readBlockBasic false rest).cons x
  | '\\' :: c :: rest =>
    if atLineEnd (c :: rest) then readBlockBasic true (c :: rest)
    else do
      let x ← simpleEscape? c
      (readBlockBasic false rest).cons x
  | c :: rest =>
    if skipping && (c == ' ' || c == '\t' || c == '\n') then readBlockBasic true rest
    else if c = '\n' then (readBlockBasic false rest).cons c
    else if c = '\\' ∨ isForbidden c then none
    else (readBlockBasic false rest).cons c

/-- The inside of a literal block. -/
def readBlockLiteral : List Char → Reading
  | [] => none
  | '\'' :: '\'' :: '\'' :: '\'' :: '\'' :: rest => some (['\'', '\''], rest)
  | '\'' :: '\'' :: '\'' :: '\'' :: rest => some (['\''], rest)
  | '\'' :: '\'' :: '\'' :: rest => some ([], rest)
  | '\r' :: '\n' :: rest => (readBlockLiteral rest).cons '\n'
  | c :: rest =>
    if c = '\n' then (readBlockLiteral rest).cons c
    else if isForbidden c then none
    else (readBlockLiteral rest).cons c

/-- A line end right behind the opening quotes of a block does not count. -/
def dropLineEnd : List Char → List Char
  | '\n' :: rest => rest
  | '\r' :: '\n' :: rest => rest
  | cs => cs

/-- Reads a text on one line. -/
def unquoteLine : List Char → Reading
  | '"' :: rest => readBasic rest
  | '\'' :: rest => readLiteral rest
  | _ => none

/-- Reads a text in any form. -/
def unquote : List Char → Reading
  | '"' :: '"' :: '"' :: rest => readBlockBasic false (dropLineEnd rest)
  | '\'' :: '\'' :: '\'' :: rest => readBlockLiteral (dropLineEnd rest)
  | cs => unquoteLine cs

end Hierarchy.Toml
