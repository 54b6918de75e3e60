import Hierarchy.Text.CaseTable

/-!
# Small letters

`lower` writes a text in small letters.  Two letters need more than a table: the dotted capital
İ becomes two characters, and Σ becomes ς at the end of a word and σ elsewhere.
-/

namespace Hierarchy.Text

/-- The small letter of `n` in a run of capitals, if `n` belongs to the run. -/
def lowerInRun (n : Nat) (run : Nat × Nat × Nat × Nat) : Option Nat :=
  let (first, last, step, image) := run
  if first ≤ n ∧ n ≤ last ∧ (n - first) % step = 0 then some (image + (n - first)) else none

/-- The small form of a letter without regard to its place in a word. -/
def lowerChar (c : Char) : List Char :=
  if c = 'İ' then ['i', '\u0307']
  else [((lowerRuns.findSome? (lowerInRun c.toNat)).map Char.ofNat).getD c]

def inRanges (ranges : List (Nat × Nat)) (c : Char) : Bool :=
  ranges.any fun r => r.1 ≤ c.toNat && c.toNat ≤ r.2

/-- Past the characters that do not count, a letter with a case comes next. -/
def meetsCased (cs : List Char) : Bool :=
  match cs.dropWhile (inRanges ignorableRanges) with
  | [] => false
  | c :: _ => inRanges casedRanges c

/-- `before` is the text already read, nearest character first. -/
def lowerAfter (before : List Char) : List Char → List Char
  | [] => []
  | c :: rest =>
    (if c = 'Σ' then [if meetsCased before && !meetsCased rest then 'ς' else 'σ']
      else lowerChar c) ++ lowerAfter (c :: before) rest

def lower (cs : List Char) : List Char := lowerAfter [] cs

/-- A text in small letters. -/
def lowerCase (s : String) : String := String.ofList (lower s.toList)

end Hierarchy.Text
