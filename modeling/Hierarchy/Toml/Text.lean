import Hierarchy.Text.Integer

/-!
# Texts in TOML

A text has four forms: between double quotes with escapes (basic) or between single quotes as it
is (literal), each on one line or, with tripled quotes, over several (block).  `quote` takes the
first form that needs no escapes, in the order basic, literal, block basic, block literal; if none
does, a basic form with escapes, over several lines if the text has several.
-/

namespace Hierarchy.Toml

/-! ## Writing -/

inductive TextForm where
  | basic | literal | blockBasic | blockLiteral
  deriving DecidableEq, Repr

/-- The length of the longest run of `c`, where `run` of them have just been read. -/
def longestRun (c : Char) (run : Nat) : List Char → Nat
  | [] => run
  | x :: rest => if x = c then longestRun c (run + 1) rest else max run (longestRun c 0 rest)

/-- Control characters other than tabs and line ends: they are always escaped. -/
def needsEscape (c : Char) : Bool :=
  (c.toNat ≤ 0x1F && c != '\t' && c != '\n') || c.toNat == 0x7F

def textForm (cs : List Char) : TextForm :=
  let escapes := cs.any needsEscape
  let backslash := cs.contains '\\'
  let lines := cs.contains '\n'
  let double := longestRun '"' 0 cs
  let single := longestRun '\'' 0 cs
  if !escapes && !backslash && double == 0 && !lines then .basic
  else if !escapes && single == 0 && !lines then .literal
  else if !escapes && !backslash && double ≤ 2 then .blockBasic
  else if !escapes && single ≤ 2 then .blockLiteral
  else if lines then .blockBasic
  else .basic

def hexDigits4 (n : Nat) : List Char :=
  [n / 4096, n / 256, n / 16, n].map fun d => ((Nat.toDigits 16 (d % 16)).headD '0').toUpper

def escapeChar (c : Char) : List Char :=
  match c with
  | '"' => ['\\', '"']
  | '\\' => ['\\', '\\']
  | '\n' => ['\\', 'n']
  | '\t' => ['\\', 't']
  | '\r' => ['\\', 'r']
  | '\x08' => ['\\', 'b']
  | '\x0c' => ['\\', 'f']
  | c => if needsEscape c then ['\\', 'u'] ++ hexDigits4 c.toNat else [c]

/-- The inside of a block with escapes: lines stay lines, and of three double quotes in a row the
third is escaped.  `quotes` counts those just written. -/
def blockBody (quotes : Nat) : List Char → List Char
  | [] => []
  | c :: rest =>
    if c = '"' then
      if quotes < 2 then c :: blockBody (quotes + 1) rest
      else escapeChar c ++ blockBody 0 rest
    else if c = '\n' then c :: blockBody 0 rest
    else escapeChar c ++ blockBody 0 rest

/-- A line end right behind the opening quotes of a block belongs to the quotes. -/
def blockStart (cs : List Char) : List Char := if cs.contains '\n' then ['\n'] else []

/-- A text in the form that `textForm` takes. -/
def quote (cs : List Char) : List Char :=
  let double := ['"', '"', '"']
  let single := ['\'', '\'', '\'']
  match textForm cs with
  | .basic => ['"'] ++ cs.flatMap escapeChar ++ ['"']
  | .literal => ['\''] ++ cs ++ ['\'']
  | .blockBasic => double ++ blockStart cs ++ blockBody 0 cs ++ double
  | .blockLiteral => single ++ blockStart cs ++ cs ++ single

end Hierarchy.Toml
