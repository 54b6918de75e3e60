import Hierarchy.CommandLine.Execution
import Hierarchy.FileTree.Listing

/-!
# The program

All that the program does follows from its arguments, a few variables, the settings files and, for
the command `files`, a listing of files on standard input, in the form that `FileTree.Listing`
describes (`find . -printf '%y\t%m\t%T@\t%s\t%l\t%p\n'` writes it).  This module fetches these and
writes what `CommandLine.program` answers.
-/

namespace Hierarchy.Main

/-- The variables that the program looks at, unless the path of a settings file names others. -/
def variableNames : List String :=
  ["HOME", "XDG_CONFIG_HOME", "NO_COLOR", "CLICOLOR", "CLICOLOR_FORCE", "HIERTREE_CLOSURE",
    "HIERTREE_PARALLEL", "HIERTREE_SORT", "HIERTREE_OUTPUT", "HIERTREE_NODE_SYMBOL"]

/-- All variables where the system shows them in a file, and elsewhere those of `variableNames`. -/
def environment : IO Environment := do
  try
    return .ofBlock (Text.ofUtf8 (← IO.FS.readBinFile "/proc/self/environ").toList)
  catch _ =>
    variableNames.filterMapM fun name => do
      return (← IO.getEnv name).map (name, ·)

/-- The text of a file, if it can be read. -/
def text? (path : String) : IO (Option String) := do
  try
    return some (← IO.FS.readFile path)
  catch _ => return none

/-- The paths at which settings may stand. -/
def settingsFiles (env : Environment) (i : Invocation) : List String :=
  env.globalFile?.toList ++ (i.config.map (NativePath.expand env.value?)).toList

def files (env : Environment) (args : List String) : IO FileTree := do
  let directory ← IO.currentDir
  match CommandLine.read args with
  | .error _ => return .empty
  | .ok i =>
    let listing ← match i.command with
      | some (.files _ _) => (← IO.getStdin).readToEnd
      | _ => pure ""
    (settingsFiles env i).foldlM (fun t path => do
      match ← text? path with
      | some text => return t.addText path text
      | none => return t) (.ofListing (toString directory) listing)

end Hierarchy.Main

open Hierarchy in
def main (args : List String) : IO UInt32 := do
  let env ← Main.environment
  let terminal ← (← IO.getStdout).isTty
  let w : CommandLine.Surroundings :=
    ⟨← Main.files env args, env, CommandLine.showsColours env terminal⟩
  let ending := CommandLine.program w args
  IO.print ending.output
  ending.notes.forM IO.eprintln
  return ending.code.toUInt32
