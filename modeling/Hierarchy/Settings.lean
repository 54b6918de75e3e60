import Hierarchy.Output.Mode
import Hierarchy.Tree.Row

/-!
# Settings

The settings of a run, and overlays: layers of settings that leave some of them open.  An overlay
replaces the values it names, lists as a whole, and keeps the others.
-/

namespace Hierarchy

structure Settings where
  /-- Explore everything that can be reached from the roots. -/
  closure : Bool
  /-- The number of workers; zero explores in one sequence. -/
  parallel : Nat
  /-- Sort criteria. -/
  sort : List String
  output : OutputMode
  /-- Marks tree rows that are followed by their descendants. -/
  nodeSymbol : String
  deriving DecidableEq, Repr

def Settings.default : Settings := ⟨false, 0, [], .table, defaultSymbol⟩

/-- A layer of settings; `none` leaves a setting as it is. -/
structure Overlay where
  closure : Option Bool
  parallel : Option Nat
  sort : Option (List String)
  output : Option OutputMode
  nodeSymbol : Option String
  deriving DecidableEq, Repr

/-- The layer that says nothing. -/
def Overlay.empty : Overlay := ⟨none, none, none, none, none⟩

namespace Settings

/-- The settings under an overlay. -/
def merge (s : Settings) (o : Overlay) : Settings where
  closure := o.closure.getD s.closure
  parallel := o.parallel.getD s.parallel
  sort := o.sort.getD s.sort
  output := o.output.getD s.output
  nodeSymbol := o.nodeSymbol.getD s.nodeSymbol

@[simp] theorem merge_empty (s : Settings) : s.merge .empty = s := rfl

/-- The text of a settings file that sets nothing and explains everything. -/
def template : String := String.join <| List.map (· ++ "\n") [
  "# hiertree configuration",
  "#",
  "# Locations (by precedence, lowest to highest):",
  "#   Global:   ~/.config/hiertree/hiertree.toml",
  "#   Explicit: --config <file>",
  "#   Env:      HIERTREE_* environment variables (e.g. HIERTREE_SORT=name,-size)",
  "#   Flags:    command line options",
  "",
  "# Explore everything reachable from the given roots",
  "# closure = false",
  "",
  "# Worker threads used for exploration (0 = sequential)",
  "# parallel = 0",
  "",
  "# Sort fields, prefix with \"-\" for descending order",
  "# sort = [\"name\"]",
  "",
  "# Output mode: table, wide, tree, json, yaml",
  "# output = \"table\"",
  "",
  "# Symbol tagging tree rows followed by their children (\"\" disables it)",
  "# node_symbol = \"⊗\""]

end Settings

end Hierarchy
