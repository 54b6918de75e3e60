import Hierarchy.Settings
import Hierarchy.Toml.Text

/-!
# Settings written as TOML

One line for each setting, in a fixed order.  A list of two or more texts is spread over lines.
TOML has integers of 64 bits with sign, so settings with more workers than that cannot be written.
-/

namespace Hierarchy

namespace Toml

def quoted (s : String) : String := String.ofList (quote s.toList)

/-- A list of texts; two or more stand on lines of their own. -/
def textList : List String → String
  | [] => "[]"
  | [s] => "[" ++ quoted s ++ "]"
  | items => "[\n" ++ String.join (items.map fun s => "    " ++ quoted s ++ ",\n") ++ "]"

def truth (b : Bool) : String := if b then "true" else "false"

def line (key value : String) : String := key ++ " = " ++ value ++ "\n"

end Toml

open Toml in
/-- The settings as a TOML document. -/
def Settings.toToml (s : Settings) : Except RunError String :=
  if s.parallel < Text.int64Limit then
    .ok (line "closure" (truth s.closure) ++ line "parallel" (toString s.parallel) ++
      line "sort" (textList s.sort) ++ line "output" (quoted s.output.name) ++
      line "node_symbol" (quoted s.nodeSymbol))
  else .error (.settings "serialize config: out-of-range value for u64 type")

end Hierarchy
