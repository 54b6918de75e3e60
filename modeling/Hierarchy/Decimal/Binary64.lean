/-!
# Binary floating point numbers of 64 bits

A finite number is a mantissa times a power of two, with or without a sign.  The mantissa has at
most 53 bits and the exponent is at least -1074; `nearest` rounds a quotient of natural numbers to
such a number, and a half goes to the even mantissa.
-/

namespace Hierarchy

inductive Binary64 where
  | finite (negative : Bool) (mantissa : Nat) (exponent : Int)
  | infinite (negative : Bool)
  | nan
  deriving DecidableEq, Repr

namespace Binary64

/-- The quotient rounded to the nearest natural number; a half goes to the even one. -/
def roundToEven (num den : Nat) : Nat :=
  let q := num / den
  let r := 2 * (num % den)
  if den < r ∨ (r = den ∧ q % 2 = 1) then q + 1 else q

/-- The quotient rounded to the nearest natural number; a half goes up. -/
def roundUp (num den : Nat) : Nat := (2 * num + den) / (2 * den)

/-- `num / den / 2 ^ e` as numerator and denominator. -/
def scale (num den : Nat) (e : Int) : Nat × Nat :=
  (num * Nat.pow 2 (-e).toNat, den * Nat.pow 2 e.toNat)

/-- The exponents of finite numbers. -/
def leastExponent : Int := -1074

def greatestExponent : Int := 971

/-- The least mantissa with 53 bits; all mantissas of finite numbers lie below its double. -/
def leastNormal : Nat := 4503599627370496

/-- The exponent with which a positive quotient has 53 bits before the point, unless that would be
below the least exponent. -/
def exponentFor (num den : Nat) : Int :=
  let e : Int := (num.log2 : Int) - den.log2 - 52
  let (n, d) := scale num den e
  max (if n / d < leastNormal then e - 1 else e) leastExponent

/-- The number nearest to a quotient. -/
def nearest (negative : Bool) (num den : Nat) : Binary64 :=
  if num = 0 then .finite negative 0 leastExponent
  else
    let e := exponentFor num den
    let (n, d) := scale num den e
    let m := roundToEven n d
    let (m, e) := if m = 2 * leastNormal then (leastNormal, e + 1) else (m, e)
    if greatestExponent < e then .infinite negative else .finite negative m e

def isZero : Binary64 → Bool
  | finite _ mantissa _ => mantissa == 0
  | infinite _ | nan => false

/-- The integers of 64 bits with sign lie between these. -/
def leastInt64 : Int := -9223372036854775808

def greatestInt64 : Int := 9223372036854775807

/-- The nearest integer of 64 bits with sign; a half goes away from zero, what is too large goes to
the greatest or the least integer, and what is no number goes to zero. -/
def toInt64 : Binary64 → Int
  | finite negative mantissa exponent =>
    let (n, d) := scale mantissa 1 (-exponent)
    let m : Int := roundUp n d
    if negative then max (-m) leastInt64 else min m greatestInt64
  | infinite negative => if negative then leastInt64 else greatestInt64
  | nan => 0

end Binary64

end Hierarchy
