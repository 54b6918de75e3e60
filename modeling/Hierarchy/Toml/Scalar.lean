import Hierarchy.Decimal.Notation

/-!
# Scalars in TOML other than texts

Truth values, integers, floating point numbers, and dates and times.  The settings need the first
two; of the others only the form is checked.
-/

namespace Hierarchy.Toml

inductive Scalar where
  | truth (b : Bool)
  | integer (n : Int)
  | float
  | moment
  deriving DecidableEq, Repr

def isDigit (c : Char) : Bool := '0' ≤ c && c ≤ '9'

/-- Digits of a base, with single underscores between them; gives the digits alone. -/
def digits? (isDigit : Char → Bool) : List Char → Option (List Char)
  | [] => none
  | [c] => if isDigit c then some [c] else none
  | c :: '_' :: rest => if isDigit c then (digits? isDigit rest).map (c :: ·) else none
  | c :: rest => if isDigit c then (digits? isDigit rest).map (c :: ·) else none

/-- Digits without a zero before others. -/
def decimal? (cs : List Char) : Option (List Char) := do
  let digits ← digits? isDigit cs
  match digits with
  | '0' :: _ :: _ => none
  | _ => return digits

def valueIn (base : Nat) (digits : List Char) : Nat :=
  digits.foldl (fun n c => base * n +
    (if isDigit c then c.toNat - 48 else if 'a' ≤ c then c.toNat - 87 else c.toNat - 55)) 0

def isHexDigit (c : Char) : Bool := isDigit c || ('a' ≤ c && c ≤ 'f') || ('A' ≤ c && c ≤ 'F')

/-- An integer of 64 bits with sign; only decimal ones may have a sign. -/
def integer? (cs : List Char) : Option Int :=
  let inBase (base : Nat) (isDigit : Char → Bool) (rest : List Char) : Option Int :=
    (digits? isDigit rest).map fun digits => (valueIn base digits : Int)
  let n := match cs with
    | '0' :: 'x' :: rest => inBase 16 isHexDigit rest
    | '0' :: 'o' :: rest => inBase 8 (fun c => isDigit c && c ≤ '7') rest
    | '0' :: 'b' :: rest => inBase 2 (fun c => c == '0' || c == '1') rest
    | '-' :: rest => (decimal? rest).map fun digits => -(valueIn 10 digits : Int)
    | '+' :: rest => (decimal? rest).map fun digits => (valueIn 10 digits : Int)
    | _ => (decimal? cs).map fun digits => (valueIn 10 digits : Int)
  n.filter fun n => -(Text.int64Limit : Int) ≤ n && n < Text.int64Limit

def dropSign : List Char → List Char
  | '-' :: rest => rest
  | '+' :: rest => rest
  | cs => cs

/-- A floating point number: a word, or digits with a point, an exponent or both.  Digits may not
stand for a number beyond the greatest one of 64 bits; below the least one they may. -/
def isFloat (cs : List Char) : Bool :=
  let body := dropSign cs
  if body == "inf".toList || body == "nan".toList then true
  else if Decimal.read? (cs.filter (· != '_')) == some (.infinite false) then false
  else
    let whole := body.takeWhile fun c => isDigit c || c == '_'
    let rest := body.dropWhile fun c => isDigit c || c == '_'
    let isExponent (cs : List Char) : Bool :=
      match cs with
      | c :: rest => (c == 'e' || c == 'E') && (digits? isDigit (dropSign rest)).isSome
      | [] => false
    (decimal? whole).isSome && match rest with
      | '.' :: rest =>
        let fraction := rest.takeWhile fun c => isDigit c || c == '_'
        let rest := rest.dropWhile fun c => isDigit c || c == '_'
        (digits? isDigit fraction).isSome && (rest.isEmpty || isExponent rest)
      | _ => isExponent rest

/-! ## Dates and times -/

/-- A number of a fixed count of digits within bounds, and what follows it. -/
def field? (count low high : Nat) (cs : List Char) : Option (Nat × List Char) :=
  let digits := cs.take count
  let n := valueIn 10 digits
  if digits.length = count ∧ digits.all isDigit ∧ low ≤ n ∧ n ≤ high then some (n, cs.drop count)
  else none

def isLeapYear (y : Nat) : Bool := (y % 4 == 0 && y % 100 != 0) || y % 400 == 0

def daysIn (year month : Nat) : Nat :=
  if month = 2 then (if isLeapYear year then 29 else 28)
  else if month = 4 ∨ month = 6 ∨ month = 9 ∨ month = 11 then 30
  else 31

def expect? (c : Char) : List Char → Option (List Char)
  | d :: rest => if d = c then some rest else none
  | [] => none

/-- A date; gives what follows it. -/
def date? (cs : List Char) : Option (List Char) := do
  let (year, cs) ← field? 4 0 9999 cs
  let (month, cs) ← field? 2 1 12 (← expect? '-' cs)
  let (_, cs) ← field? 2 1 (daysIn year month) (← expect? '-' cs)
  return cs

/-- A time of day; gives what follows it. -/
def time? (cs : List Char) : Option (List Char) := do
  let (_, cs) ← field? 2 0 23 cs
  let (_, cs) ← field? 2 0 59 (← expect? ':' cs)
  let (_, cs) ← field? 2 0 60 (← expect? ':' cs)
  match cs with
  | '.' :: rest =>
    let fraction := rest.takeWhile isDigit
    if fraction.isEmpty then none else return rest.dropWhile isDigit
  | _ => return cs

/-- What may follow a time with a date: nothing, or the distance from universal time. -/
def isOffset (cs : List Char) : Bool :=
  match cs with
  | [] | ['Z'] | ['z'] => true
  | c :: rest =>
    (c == '+' || c == '-') && ((do
      let (_, cs) ← field? 2 0 23 rest
      let (_, cs) ← field? 2 0 59 (← expect? ':' cs)
      return cs.isEmpty : Option Bool) == some true)

def isMoment (cs : List Char) : Bool :=
  match date? cs with
  | some [] => true
  | some (c :: rest) =>
    (c == 'T' || c == 't' || c == ' ') && (time? rest).any isOffset
  | none => (time? cs).any (·.isEmpty)

/-- What a run of characters without blanks stands for. -/
def scalarValue? (cs : List Char) : Option Scalar :=
  if cs == "true".toList then some (.truth true)
  else if cs == "false".toList then some (.truth false)
  else match integer? cs with
    | some n => some (.integer n)
    | none => if isFloat cs then some .float else if isMoment cs then some .moment else none

/-- The characters of a scalar. -/
def isScalarChar (c : Char) : Bool :=
  c.isAlphanum || c == '+' || c == '-' || c == '_' || c == '.' || c == ':'

/-- Reads a scalar.  Between a date and a time there may be one blank. -/
def readScalar (cs : List Char) : Option (Scalar × List Char) :=
  let word := cs.takeWhile isScalarChar
  let rest := cs.dropWhile isScalarChar
  let (word, rest) := match date? word, rest with
    | some [], ' ' :: d :: after =>
      if isDigit d then
        (word ++ ' ' :: (d :: after).takeWhile isScalarChar, (d :: after).dropWhile isScalarChar)
      else (word, rest)
    | _, _ => (word, rest)
  (scalarValue? word).map fun value => (value, rest)

end Hierarchy.Toml
