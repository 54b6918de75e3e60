/-!
# Reading integers

A written integer is a sign, which may be missing, and at least one decimal digit; nothing else,
so no blanks and no digit groups.  Leading zeros are allowed.
-/

namespace Hierarchy.Text

/-- The value of one decimal digit. -/
def digitValue? (c : Char) : Option Nat :=
  if '0' ≤ c ∧ c ≤ '9' then some (c.toNat - '0'.toNat) else none

/-- Reads decimal digits after those that give `n`. -/
def readDigitsFrom (n : Nat) : List Char → Option Nat
  | [] => some n
  | c :: rest => (digitValue? c).bind fun d => readDigitsFrom (10 * n + d) rest

/-- Reads one or more decimal digits. -/
def readNat? : List Char → Option Nat
  | [] => none
  | cs => readDigitsFrom 0 cs

def readInt? : List Char → Option Int
  | '-' :: rest => (readNat? rest).map fun n => -(n : Int)
  | '+' :: rest => (readNat? rest).map fun n => (n : Int)
  | cs => (readNat? cs).map fun n => (n : Int)

/-- Integers of 64 bits with sign lie from `-int64Limit` up to, but without, `int64Limit`. -/
def int64Limit : Nat := 9223372036854775808

/-- Natural numbers of 64 bits lie below this. -/
def nat64Limit : Nat := 18446744073709551616

/-- Reads an integer of 64 bits with sign. -/
def readInt64? (cs : List Char) : Option Int :=
  (readInt? cs).filter fun n => -(int64Limit : Int) ≤ n && n < int64Limit

/-- Reads a natural number of 64 bits; a plus sign may stand before it. -/
def readNat64? (cs : List Char) : Option Nat :=
  let digits := match cs with
    | '+' :: rest => rest
    | _ => cs
  (readNat? digits).filter (· < nat64Limit)

end Hierarchy.Text
