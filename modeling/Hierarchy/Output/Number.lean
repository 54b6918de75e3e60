import Hierarchy.Decimal.Shortest

/-!
# Numbers in documents

A number is written with the fewest digits that read back as it, and never as an integer: from
`10 ^ -5` up to `10 ^ 16` with a point among the digits, and beyond with an exponent.
-/

namespace Hierarchy.Binary64

/-- The digits with an exponent; the point, if there are several digits, stands behind the first. -/
def scientific (digits : List Char) (exponent : Int) : List Char :=
  (match digits with
    | first :: second :: rest => first :: '.' :: second :: rest
    | digits => digits) ++ 'e' :: (toString exponent).toList

/-- The digits times a power of ten. -/
def numeral (digits : List Char) (k : Int) : List Char :=
  let size : Int := digits.length + k
  if size ≤ -5 ∨ 16 < size then scientific digits (size - 1)
  else positional digits k ++ if 0 ≤ k then ['.', '0'] else []

/-- The text of a number in a document.  What is not finite has no digits. -/
def documentText : Binary64 → String
  | finite negative mantissa exponent =>
    let (digits, k) := if mantissa = 0 then (0, 0) else shortest mantissa exponent
    let text := numeral (Nat.toDigits 10 digits) k
    String.ofList (if negative then '-' :: text else text)
  | infinite _ | nan => "null"

end Hierarchy.Binary64
