import Hierarchy.Output.Document
import Hierarchy.Output.Number
import Hierarchy.Output.YamlScalar

/-!
# Writing documents as YAML

Block style: an item stands behind a hyphen, a field is a key with a colon.  What a field holds
stands on the same line if it is a scalar or empty; a list begins on the next line at the same
depth, a record two blanks deeper.  Every node is written up to the end of its last line.
-/

namespace Hierarchy.Yaml

def indented (n : Nat) : String := String.ofList (blanks n)

/-- The key of a field with the colon; a key that is not simple gets a line of its own. -/
def keyText (indent : Nat) (key : String) : String :=
  if isSimpleKey key then ((scalar (indent + 2) key).dropEnd 1).toString ++ ":"
  else "? " ++ scalar (indent + 2) key ++ indented indent ++ ":"

mutual

/-- A node that begins in the middle of a line; what it holds lies `indent` deep. -/
def inline (indent : Nat) : Document → String
  | .null => "null\n"
  | .bool b => if b then "true\n" else "false\n"
  | .int n => toString n ++ "\n"
  | .number x => x.documentText ++ "\n"
  | .text s => scalar indent s
  | .list [] => "[]\n"
  | .list (item :: items) => "- " ++ inline (indent + 2) item ++ moreItems indent items
  | .record [] => "\x7b\x7d\n"
  | .record ((key, value) :: fields) => field indent key value ++ moreFields indent fields

/-- What stands behind a key. -/
def field (indent : Nat) (key : String) : Document → String
  | .list (item :: items) =>
    if isSimpleKey key then
      keyText indent key ++ "\n" ++ indented indent ++ "- " ++ inline (indent + 2) item ++
        moreItems indent items
    else
      keyText indent key ++ " - " ++ inline (indent + 4) item ++ moreItems (indent + 2) items
  | .record ((key', value) :: fields) =>
    (if isSimpleKey key then keyText indent key ++ "\n" ++ indented (indent + 2)
      else keyText indent key ++ " ") ++
      field (indent + 2) key' value ++ moreFields (indent + 2) fields
  | .null => keyText indent key ++ " null\n"
  | .bool b => keyText indent key ++ (if b then " true\n" else " false\n")
  | .int n => keyText indent key ++ " " ++ toString n ++ "\n"
  | .number x => keyText indent key ++ " " ++ x.documentText ++ "\n"
  | .text s => keyText indent key ++ " " ++ scalar (indent + 2) s
  | .list [] => keyText indent key ++ " []\n"
  | .record [] => keyText indent key ++ " \x7b\x7d\n"

def moreItems (indent : Nat) : List Document → String
  | [] => ""
  | item :: items =>
    indented indent ++ "- " ++ inline (indent + 2) item ++ moreItems indent items

def moreFields (indent : Nat) : List (String × Document) → String
  | [] => ""
  | (key, value) :: fields => indented indent ++ field indent key value ++ moreFields indent fields

end

end Hierarchy.Yaml
