import Hierarchy.Decimal.Binary64

/-!
# The shortest decimal text of a binary number

Of the decimal numbers that round to a given binary number, `shortest` takes one with the fewest
digits, and of those the nearest; of two equally near ones the greater.  The numbers that round to
`m * 2 ^ e` form an interval, whose ends belong to it if `m` is even.  On each grid of multiples of
a power of ten only the two neighbours of the number have to be looked at.

`text` writes all digits and no exponent.
-/

namespace Hierarchy.Binary64

/-- The interval of what rounds to `m * 2 ^ e`: its lower end, the number itself and its upper end,
in units of `2 ^ (e - 2)`.  Below a power of two the numbers stand twice as dense. -/
def interval (m : Nat) (e : Int) : Nat × Nat × Nat :=
  (4 * m - (if m = leastNormal ∧ leastExponent < e then 1 else 2), 4 * m, 4 * m + 2)

/-- The multiple of `10 ^ k` that is nearest to `m * 2 ^ e`, divided by `10 ^ k`, if one of its
neighbours on that grid rounds to it. -/
def onGrid? (m : Nat) (e k : Int) : Option Nat :=
  let unit := Nat.pow 10 k.toNat * Nat.pow 2 (2 - e).toNat
  let factor := Nat.pow 2 (e - 2).toNat * Nat.pow 10 (-k).toNat
  let (low, value, high) := interval m e
  let (low, value, high) := (low * factor, value * factor, high * factor)
  let inside (j : Nat) : Bool :=
    let x := j * unit
    if m % 2 = 0 then low ≤ x && x ≤ high else low < x && x < high
  let below := value / unit
  if inside below then
    if inside (below + 1) ∧ (below + 1) * unit - value ≤ value - below * unit then some (below + 1)
    else some below
  else if inside (below + 1) then some (below + 1)
  else none

/-- Looks on finer and finer grids, from `10 ^ k` on. -/
def searchGrid (m : Nat) (e : Int) : Nat → Int → Nat × Int
  | 0, k => (0, k)
  | steps + 1, k =>
    match onGrid? m e k with
    | some digits => (digits, k)
    | none => searchGrid m e steps (k - 1)

/-- The digits and the power of ten of the shortest decimal for `m * 2 ^ e`, for `m` above zero. -/
def shortest (m : Nat) (e : Int) : Nat × Int := searchGrid m e 660 310

/-- The digits with the point at its place. -/
def positional (digits : List Char) (k : Int) : List Char :=
  let places := (-k).toNat
  if places = 0 then digits ++ List.replicate k.toNat '0'
  else if places < digits.length then
    digits.take (digits.length - places) ++ '.' :: digits.drop (digits.length - places)
  else '0' :: '.' :: List.replicate (places - digits.length) '0' ++ digits

def text : Binary64 → String
  | finite negative mantissa exponent =>
    let digits :=
      if mantissa = 0 then ['0']
      else
        let (digits, k) := shortest mantissa exponent
        positional (Nat.toDigits 10 digits) k
    String.ofList (if negative then '-' :: digits else digits)
  | infinite negative => if negative then "-inf" else "inf"
  | nan => "NaN"

end Hierarchy.Binary64
