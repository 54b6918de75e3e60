import Hierarchy.Settings.Environment

/-!
# Messages

A message is a label in colour and a text.  Colours can be forced and forbidden by variables; if
neither is done, they are for terminals.
-/

namespace Hierarchy.CommandLine

inductive Label where
  | error
  | warning
  /-- The label of a value. -/
  | value (name : String)
  deriving DecidableEq, Repr

def Label.text : Label → String
  | error => "error"
  | warning => "Warning"
  | value name => name

/-- The attributes with which a terminal shows the label: bold red, yellow, cyan. -/
def Label.attributes : Label → String
  | error => "1;31"
  | warning => "33"
  | value _ => "36"

def coloured (attributes text : String) : String :=
  "\x1b[" ++ attributes ++ "m" ++ text ++ "\x1b[0m"

/-- One line, without its end. -/
def message (colours : Bool) (label : Label) (text : String) : String :=
  (if colours then coloured label.attributes label.text else label.text) ++ ": " ++ text

/-- Whether labels are coloured. -/
def showsColours (env : Environment) (terminal : Bool) : Bool :=
  let isOn (name : String) : Option Bool := (env.value? name).map (· != "0")
  isOn "CLICOLOR_FORCE" == some true ||
    ((isOn "NO_COLOR").isNone && (isOn "CLICOLOR").getD true && terminal)

end Hierarchy.CommandLine
