import Hierarchy.Settings
import Hierarchy.Toml.Document

/-!
# Settings read from TOML

A document names some of the settings; keys that name none are ignored.  A value of the wrong type
makes the whole document unreadable as settings.
-/

namespace Hierarchy

namespace Toml

def Value.truth? : Value → Option Bool
  | .scalar (.truth b) => some b
  | _ => none

def Value.nat? : Value → Option Nat
  | .scalar (.integer n) => if 0 ≤ n then some n.toNat else none
  | _ => none

def Value.string? : Value → Option String
  | .text cs => some (String.ofList cs)
  | _ => none

def Value.strings? : Value → Option (List String)
  | .list items => items.mapM Value.string?
  | _ => none

/-- Nothing is in it. -/
def Value.isEmpty : Value → Bool
  | .list [] | .table _ [] => true
  | _ => false

/-- The name of a mode, or a table with the name as its key and nothing behind it. -/
def Value.mode? : Value → Option OutputMode
  | .text cs => OutputMode.ofName? (String.ofList cs)
  | .table origin ((key, value) :: more) =>
    if value.isEmpty && (more.isEmpty || origin != .braces) then
      OutputMode.ofName? (String.ofList key)
    else none
  | _ => none

/-- The value of a key: it may be missing, but it must have its type. -/
def Fields.setting {α : Type} (fields : Fields) (key : String) (read : Value → Option α) :
    Option (Option α) :=
  match fields.lookup key.toList with
  | none => some none
  | some value => (read value).map some

end Toml

open Toml in
/-- The settings that a document names. -/
def Overlay.ofToml? (document : String) : Option Overlay := do
  let fields ← readDocument document.toList
  let closure ← fields.setting "closure" Value.truth?
  let parallel ← fields.setting "parallel" Value.nat?
  let sort ← fields.setting "sort" Value.strings?
  let output ← fields.setting "output" Value.mode?
  let nodeSymbol ← fields.setting "node_symbol" Value.string?
  return { closure, parallel, sort, output, nodeSymbol }

end Hierarchy
