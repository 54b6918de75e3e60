import Hierarchy.Text.Integer

/-!
# YAML scalars

How one text is written in a YAML document.  It stands plain if it then reads back as the same
text; between single quotes if it would be taken for something else (a number, a truth value,
nothing) or for a part of the layout; as a literal block if it has several lines; and between
double quotes, with escapes, if it holds characters that may not be shown or blanks that none of
the others keeps.
-/

namespace Hierarchy.Yaml

/-! ## Texts that read as something else -/

def isDigit (c : Char) : Bool := '0' ≤ c && c ≤ '9'

/-- A number in a base up to sixteen, of at least one digit. -/
def readBase? (base : Nat) (cs : List Char) : Option Nat :=
  let digit (c : Char) : Option Nat :=
    if '0' ≤ c ∧ c ≤ '9' then some (c.toNat - 48)
    else if 'a' ≤ c ∧ c ≤ 'f' then some (c.toNat - 87)
    else if 'A' ≤ c ∧ c ≤ 'F' then some (c.toNat - 55)
    else none
  if cs.isEmpty then none
  else cs.foldl (fun acc c => acc.bind fun n =>
    (digit c).bind fun d => if d < base then some (n * base + d) else none) (some 0)

/-- Zeros before other digits: such a text is no number. -/
def hasLeadingZero (cs : List Char) : Bool :=
  let body := match cs with
    | '-' :: rest | '+' :: rest => rest
    | _ => cs
  match body with
  | '0' :: rest => !rest.isEmpty && rest.all isDigit
  | _ => false

/-- The size of an integer behind its sign: decimal, or in the base that its beginning names. -/
def magnitude? (cs : List Char) : Option Nat :=
  match cs with
  | '0' :: 'x' :: rest => readBase? 16 rest
  | '0' :: 'o' :: rest => readBase? 8 rest
  | '0' :: 'b' :: rest => readBase? 2 rest
  | _ => if hasLeadingZero cs then none else readBase? 10 cs

/-- The text is an integer of up to 128 bits. -/
def isInteger (cs : List Char) : Bool :=
  match cs with
  | '-' :: rest => (magnitude? rest).any (· ≤ Nat.pow 2 127)
  | '+' :: rest => (magnitude? rest).any (· < Nat.pow 2 128)
  | _ => (magnitude? cs).any (· < Nat.pow 2 128)

/-- `m · 10^e` lies so far from zero that no floating point number is near. -/
def overflows (m : Nat) (e : Int) : Bool :=
  let size := (Nat.toDigits 10 m).length + e
  if m = 0 ∨ size < 300 then false
  else if size > 320 then true
  else
    let limit := Nat.pow 2 1024 - Nat.pow 2 970
    if e < 0 then m ≥ limit * Nat.pow 10 (-e).toNat else m * Nat.pow 10 e.toNat ≥ limit

/-- An exponent: a mark, a sign or none, and digits; an empty text counts as exponent zero. -/
def readExponent? (cs : List Char) : Option Int :=
  match cs with
  | [] => some 0
  | c :: rest => if c = 'e' ∨ c = 'E' then Text.readInt? rest else none

/-- A decimal number without sign, with or without a point and an exponent, of finite size. -/
def isFiniteDecimal (cs : List Char) : Bool :=
  let whole := cs.takeWhile isDigit
  let rest := cs.dropWhile isDigit
  let (fraction, rest) := match rest with
    | '.' :: rest => (rest.takeWhile isDigit, rest.dropWhile isDigit)
    | _ => ([], rest)
  match readBase? 10 (whole ++ fraction), readExponent? rest with
  | some m, some e => !overflows m (e - fraction.length)
  | _, _ => false

def isFloat (cs : List Char) : Bool :=
  let body := match cs with
    | '-' :: rest | '+' :: rest => rest
    | _ => cs
  [".inf", ".Inf", ".INF"].any (·.toList == body) ||
    [".nan", ".NaN", ".NAN"].any (·.toList == cs) || isFiniteDecimal body

/-- Read without quotes the text would not be a text. -/
def isAmbiguous (s : String) : Bool :=
  ["", "null", "Null", "NULL", "~", "true", "True", "TRUE", "false", "False", "FALSE"].contains s ||
    isInteger s.toList || hasLeadingZero s.toList || isFloat s.toList

/-! ## What a text is made of -/

def isBreak (c : Char) : Bool :=
  c == '\n' || c == '\r' || c == '\u0085' || c == '\u2028' || c == '\u2029'

/-- A blank or the end of a line. -/
def isGap (c : Char) : Bool := c == ' ' || c == '\t' || c == '\x00' || isBreak c

/-- Characters that may stand in a document as they are. -/
def isPrintable (c : Char) : Bool :=
  let n := c.toNat
  n == 0x0A || (0x20 ≤ n && n ≤ 0x7E) ||
    (0xA0 ≤ n && n != 0xFEFF && n != 0xFFFE && n != 0xFFFF)

/-- Two characters of these kinds stand side by side. -/
def hasPair (first second : Char → Bool) : List Char → Bool
  | a :: b :: rest => (first a && second b) || hasPair first second (b :: rest)
  | _ => false

def startsWithGap (cs : List Char) : Bool :=
  match cs with
  | [] => true
  | c :: _ => isGap c

/-- The beginning of the text would be taken for a part of the layout. -/
def startsAsLayout (cs : List Char) : Bool :=
  match cs with
  | [] => false
  | c :: rest =>
    "#,[]\x7b\x7d&*!|>'\"%@\x60".toList.contains c ||
      ((c == '?' || c == '-') && startsWithGap rest) ||
      "---".toList.isPrefixOf cs || "...".toList.isPrefixOf cs

/-- A colon before a gap, or a number sign behind one, would be taken for a part of the layout. -/
def holdsLayout : List Char → Bool
  | [] => false
  | a :: rest =>
    match rest with
    | [] => a == ':'
    | b :: _ => (a == ':' && isGap b) || (isGap a && b == '#') || holdsLayout rest

/-! ## The four ways of writing it -/

inductive Style where
  | plain | singleQuoted | doubleQuoted | literal
  deriving DecidableEq, Repr

def hasSpaceAtEnd (cs : List Char) : Bool := cs.getLast? == some ' '

/-- Only double quotes keep the text: it holds characters that are not printable, or blanks at the
end of a line. -/
def needsEscapes (cs : List Char) : Bool :=
  cs.any (fun c => !isPrintable c) || hasPair (· == ' ') isBreak cs

def plainAllowed (cs : List Char) : Bool :=
  !(needsEscapes cs || cs.any isBreak || cs.head? == some ' ' || hasSpaceAtEnd cs ||
    startsAsLayout cs || holdsLayout cs)

def singleQuotedAllowed (cs : List Char) : Bool :=
  !(needsEscapes cs || hasPair isBreak (· == ' ') cs)

def literalAllowed (cs : List Char) : Bool := !(needsEscapes cs || hasSpaceAtEnd cs)

def style (s : String) : Style :=
  let cs := s.toList
  if cs.contains '\n' then
    if literalAllowed cs then .literal else .doubleQuoted
  else if !isAmbiguous s && plainAllowed cs then .plain
  else if singleQuotedAllowed cs then .singleQuoted
  else .doubleQuoted

def blanks (n : Nat) : List Char := List.replicate n ' '

/-- The inside of single quotes: a quote is written twice, and what follows a line break is
indented. -/
def singleQuotedBody (indent : Nat) (afterBreak : Bool) : List Char → List Char
  | [] => if afterBreak then blanks indent else []
  | c :: rest =>
    if isBreak c then c :: singleQuotedBody indent true rest
    else if c == ' ' then c :: singleQuotedBody indent afterBreak rest
    else
      (if afterBreak then blanks indent else []) ++
        (if c == '\'' then ['\'', '\''] else [c]) ++ singleQuotedBody indent false rest

def hexDigits (width n : Nat) : List Char :=
  (List.range width).reverse.map fun i =>
    ((Nat.toDigits 16 (n / Nat.pow 16 i % 16)).headD '0').toUpper

def escapeChar (c : Char) : List Char :=
  let n := c.toNat
  if n == 0x22 || n == 0x5C then ['\\', c]
  else if isPrintable c && !isBreak c then [c]
  else
    let short : List (Nat × Char) := [(0, '0'), (7, 'a'), (8, 'b'), (9, 't'), (0xA, 'n'),
      (0xB, 'v'), (0xC, 'f'), (0xD, 'r'), (0x1B, 'e'), (0x85, 'N'), (0xA0, '_'), (0x2028, 'L'),
      (0x2029, 'P')]
    match short.lookup n with
    | some letter => ['\\', letter]
    | none =>
      if n ≤ 0xFF then ['\\', 'x'] ++ hexDigits 2 n
      else if n ≤ 0xFFFF then ['\\', 'u'] ++ hexDigits 4 n
      else ['\\', 'U'] ++ hexDigits 8 n

/-- The lines of a literal block, indented unless empty. -/
def literalBody (indent : Nat) (afterBreak : Bool) : List Char → List Char
  | [] => []
  | c :: rest =>
    if isBreak c then c :: literalBody indent true rest
    else (if afterBreak then blanks indent else []) ++ c :: literalBody indent false rest

/-- Behind the bar: the indentation, if the text begins with a blank or a line break, and what
becomes of the line breaks at its end. -/
def literalHints (cs : List Char) : List Char :=
  (if cs.head?.any fun c => c == ' ' || isBreak c then ['2'] else []) ++
    match cs.reverse with
    | [] => ['-']
    | [c] => if isBreak c then ['+'] else ['-']
    | c :: d :: _ => if isBreak c then (if isBreak d then ['+'] else []) else ['-']

/-- A text as it is written `indent` deep, up to the end of its last line. -/
def scalar (indent : Nat) (s : String) : String :=
  let cs := s.toList
  String.ofList <| match style s with
    | .plain => cs ++ ['\n']
    | .singleQuoted => ['\''] ++ singleQuotedBody indent false cs ++ ['\'', '\n']
    | .doubleQuoted => ['"'] ++ cs.flatMap escapeChar ++ ['"', '\n']
    | .literal =>
      ['|'] ++ literalHints cs ++ ['\n'] ++ literalBody indent true cs ++
        (if cs.getLast?.any isBreak then [] else ['\n'])

/-- Keys that stand before their colon on one line: short and without line breaks. -/
def isSimpleKey (s : String) : Bool := s.utf8ByteSize ≤ 128 && !s.toList.any isBreak

end Hierarchy.Yaml
