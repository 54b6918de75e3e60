/-!
# What a command line asks for
-/

namespace Hierarchy

/-- What to show about the settings. -/
inductive ConfigCommand where
  /-- The settings in effect. -/
  | effective
  /-- A settings file to start from. -/
  | template
  /-- Where the global settings file is. -/
  | location
  deriving DecidableEq, Repr

inductive Command where
  /-- Shows files; `directory` shows directories themselves and not what they hold. -/
  | files (directory : Bool) (paths : List String)
  | graph (roots : List String)
  | config (command : ConfigCommand)
  deriving DecidableEq, Repr

/-- Shells for which a completion script can be asked. -/
inductive Shell where
  | bash | elvish | fish | powershell | zsh
  deriving DecidableEq, Repr

def Shell.name : Shell → String
  | bash => "bash"
  | elvish => "elvish"
  | fish => "fish"
  | powershell => "powershell"
  | zsh => "zsh"

def Shell.all : List Shell := [bash, elvish, fish, powershell, zsh]

/-- A command with the options that go with every command. -/
structure Invocation where
  /-- How often debug output was asked for, at most 255. -/
  debug : Nat
  config : Option String
  closure : Bool
  parallel : Option Nat
  sort : List String
  output : Option String
  generator : Option Shell
  command : Option Command
  deriving DecidableEq, Repr

/-- Why a command line was not understood, or that it asks for help or the version. -/
inductive ArgumentFault where
  | unknownArgument
  /-- A value is missing, or is not among the possible ones. -/
  | invalidValue
  /-- A value has the wrong form. -/
  | valueValidation
  | invalidSubcommand
  | missingSubcommand
  /-- An option that may be given once was given twice. -/
  | argumentConflict
  /-- A flag was given a value. -/
  | tooManyValues
  | displayHelp
  /-- The version is asked for, on the level of this command. -/
  | displayVersion (command : List String)
  /-- Help is shown because nothing at all was asked. -/
  | displayHelpOnMissing
  deriving DecidableEq, Repr

/-- A fault on the level of a command, seen from the level around it. -/
def ArgumentFault.within (command : String) : ArgumentFault → ArgumentFault
  | displayVersion path => displayVersion (command :: path)
  | fault => fault

end Hierarchy
