import Hierarchy.Decimal.Notation
import Hierarchy.Decimal.Shortest
import Hierarchy.Environment
import Hierarchy.Settings
import Hierarchy.Text.Split

/-!
# Settings in environment variables

A setting is overridden by the variable with its name behind `HIERTREE_`, in any mix of capitals and
small letters.  A value is first taken for the most special thing it can be written form of: a truth
value, an integer, a number, a list (for sort criteria alone), and only then a text.  It is then
converted to the type of its setting, which can lose the form in which it was written.  A value that
cannot be converted is as good as none.  Sort criteria may also be given one by one, with their
place in brackets behind the name.
-/

namespace Hierarchy

/-- What the value of a variable is taken for. -/
inductive Guess where
  | truth (b : Bool)
  | integer (n : Int)
  | number (x : Binary64)
  | list (items : List String)
  | text (s : String)
  deriving DecidableEq, Repr

namespace Guess

/-- Takes a value for the first thing that it can be; `isList` allows lists. -/
def ofText (isList : Bool) (value : String) : Guess :=
  let word := Text.lowerCase value
  if word = "true" then .truth true
  else if word = "false" then .truth false
  else match Text.readInt64? value.toList with
    | some n => .integer n
    | none =>
      match Decimal.read? value.toList with
      | some x => .number x
      | none => if isList then .list (Text.parts ',' value) else .text value

/-- Words for truth values. -/
def truthOfWord? (s : String) : Option Bool :=
  let word := Text.lowerCase s
  if word ∈ ["true", "on", "yes"] then some true
  else if word ∈ ["false", "off", "no"] then some false
  else none

def truth? : Guess → Option Bool
  | .truth b => some b
  | .integer n => some (n != 0)
  | .number x => some (!x.isZero)
  | .list _ => none
  | .text s => truthOfWord? s

def integer? : Guess → Option Int
  | .truth b => some (if b then 1 else 0)
  | .integer n => some n
  | .number x => some x.toInt64
  | .list _ => none
  | .text s => (truthOfWord? s).map fun b => if b then 1 else 0

def strings? : Guess → Option (List String)
  | .list items => some items
  | _ => none

/-- The value written anew. -/
def text? : Guess → Option String
  | .truth b => some (if b then "true" else "false")
  | .integer n => some (toString n)
  | .number x => some x.text
  | .list _ => none
  | .text s => some s

end Guess

namespace Environment

/-- The value of the variable for a setting; of variables that differ in capitals only, the last. -/
def setting? (env : Environment) (key : String) : Option String :=
  ((env.filter fun v => Text.lowerCase v.1 == "hiertree_" ++ key).getLast?).map (·.2)

/-- The place in a list that a name asks for behind the key of a setting: a number in brackets, with
blanks around it or none. -/
def index? (key name : String) : Option Nat := do
  let rest ← ("hiertree_" ++ key ++ "[").toList.isPrefixOf? (Text.lowerCase name).toList
  let dropSpace := List.dropWhile fun c : Char => c == ' ' || c == '\t'
  match (rest.reverse : List Char) with
  | ']' :: inside => Text.readNat? (dropSpace (dropSpace inside).reverse)
  | _ => none

/-- A list whose items have variables of their own; it has no gaps. -/
def items? (env : Environment) (key : String) : Option (List String) :=
  let given := env.filterMap fun v => (index? key v.1).map fun i => (i, v.2)
  let size := (given.map (·.1 + 1)).foldl max 0
  if given.isEmpty || given.length < size then none
  else
    (List.range size).mapM fun i =>
      ((given.filter (·.1 == i)).getLast?).bind fun v => (Guess.ofText false v.2).text?

/-- What the variable for a setting is taken for. -/
def guess? (env : Environment) (key : String) : Option Guess :=
  (env.setting? key).map (Guess.ofText (key == "sort"))

/-- The settings that variables override. -/
def overlay (env : Environment) : Except RunError Overlay := do
  let parallel ← match (env.guess? "parallel").bind Guess.integer? with
    | none => pure none
    | some n => if n < 0 then throw (.parallelism (toString n)) else pure (some n.toNat)
  let output ← match (env.guess? "output").bind Guess.text? with
    | none => pure none
    | some text => some <$> OutputMode.parse text
  return {
    closure := (env.guess? "closure").bind Guess.truth?
    parallel, output
    sort := match env.guess? "sort" with
      | some guess => guess.strings?
      | none => env.items? "sort"
    nodeSymbol := (env.guess? "node_symbol").bind Guess.text? }

end Environment

end Hierarchy
