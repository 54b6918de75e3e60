import Hierarchy.Exploration.Walk
import Hierarchy.Text.LowerCase

/-!
# Output modes
-/

namespace Hierarchy

inductive OutputMode where
  | table | wide | tree | json | yaml
  deriving DecidableEq, Repr

namespace OutputMode

def name : OutputMode → String
  | table => "table"
  | wide => "wide"
  | tree => "tree"
  | json => "json"
  | yaml => "yaml"

/-- The mode with exactly this name; the empty name means `table`. -/
def ofName? : String → Option OutputMode
  | "" | "table" => some table
  | "wide" => some wide
  | "tree" => some tree
  | "json" => some json
  | "yaml" => some yaml
  | _ => none

@[simp] theorem ofName?_name (mode : OutputMode) : ofName? mode.name = some mode := by
  cases mode <;> rfl

/-- Reads the name of a mode in any mix of capitals and small letters. -/
def parse (text : String) : Except RunError OutputMode :=
  match ofName? (Text.lowerCase text) with
  | some mode => .ok mode
  | none => .error (.unknownOutput text)

/-- The mode shows documents instead of columns. -/
def isDocument : OutputMode → Bool
  | json | yaml => true
  | table | wide | tree => false

/-- Markers are of use only where the hierarchy is drawn. -/
def revisits : OutputMode → Revisits
  | tree => .marked
  | _ => .compact

/-- The mode whose columns the sort criteria name: documents have none of their own and use those
of `wide`. -/
def columnMode (mode : OutputMode) : OutputMode := if mode.isDocument then .wide else mode

end OutputMode

end Hierarchy
