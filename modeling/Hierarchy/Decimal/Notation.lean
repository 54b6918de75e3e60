import Hierarchy.Decimal.Binary64
import Hierarchy.Text.Integer

/-!
# Reading floating point numbers

A written number is a sign, digits with or without a point among or around them, and an exponent;
sign and exponent may be missing, but there is at least one digit.  The words for infinity and for
what is no number are read in any mix of capitals and small letters.
-/

namespace Hierarchy.Decimal

def isDigit (c : Char) : Bool := (Text.digitValue? c).isSome

/-- Reads what may follow the digits: nothing, or an exponent. -/
def readExponent? : List Char → Option Int
  | [] => some 0
  | c :: rest => if c = 'e' ∨ c = 'E' then Text.readInt? rest else none

/-- Reads a number without a sign: its digits and its power of ten. -/
def readUnsigned? (cs : List Char) : Option (List Char × Int) := do
  let whole := cs.takeWhile isDigit
  let (fraction, rest) := match cs.dropWhile isDigit with
    | '.' :: rest => (rest.takeWhile isDigit, rest.dropWhile isDigit)
    | rest => ([], rest)
  if whole.isEmpty ∧ fraction.isEmpty then none
  else
    let exponent ← readExponent? rest
    return (whole ++ fraction, exponent - fraction.length)

/-- The binary number nearest to `digits * 10 ^ k`.  Powers far beyond the range of binary numbers
are not computed. -/
def toBinary64 (negative : Bool) (digits : List Char) (k : Int) : Binary64 :=
  let n := (Text.readNat? digits).getD 0
  if n = 0 ∨ k + digits.length < -400 then .nearest negative 0 1
  else if 400 < k then .infinite negative
  else .nearest negative (n * Nat.pow 10 k.toNat) (Nat.pow 10 (-k).toNat)

/-- Reads a number that is not finite. -/
def readWord? (negative : Bool) (cs : List Char) : Option Binary64 :=
  let word := String.ofList (cs.map Char.toLower)
  if word = "inf" ∨ word = "infinity" then some (.infinite negative)
  else if word = "nan" then some .nan
  else none

/-- Reads a floating point number. -/
def read? (cs : List Char) : Option Binary64 :=
  let (negative, cs) := match cs with
    | '-' :: rest => (true, rest)
    | '+' :: rest => (false, rest)
    | _ => (false, cs)
  match readUnsigned? cs with
  | some (digits, k) => some (toBinary64 negative digits k)
  | none => readWord? negative cs

end Hierarchy.Decimal
