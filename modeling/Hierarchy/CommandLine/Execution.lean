import Hierarchy.CommandLine.Message
import Hierarchy.CommandLine.Reader
import Hierarchy.FileSource
import Hierarchy.NodeGraph
import Hierarchy.Settings.Layers
import Hierarchy.Toml.Writer

/-!
# Carrying out a command line

What a command writes and how it ends depends on the command line, the variables and the files, and
on nothing else; `execute` is that function.  `program` adds what stands around a command: faults in
the arguments, help, the version, and the message and the exit status of an error.
-/

namespace Hierarchy.CommandLine

/-- What a command finds when it is carried out. -/
structure Surroundings where
  files : FileTree
  environment : Environment
  colours : Bool

/-- What a command has written, and the error that ended it. -/
structure Execution where
  output : String
  /-- Lines beside the output. -/
  notes : List String
  error : Option ProgramError
  deriving DecidableEq, Repr

namespace Execution

def ofOutput (output : String) : Execution := ⟨output, [], none⟩

def ofError (e : ProgramError) : Execution := ⟨"", [], some e⟩

def status (x : Execution) : ExitStatus := (x.error.map ProgramError.status).getD .success

/-- Goes on with a result. -/
def ofResult {β : Type} (f : β → Execution) : Except RunError β → Execution
  | .ok b => f b
  | .error e => .ofError (.run e)

end Execution

/-! ## Settings -/

/-- Options override settings; criteria do if there are any. -/
def applyOptions (s : Settings) (i : Invocation) : Except RunError Settings := do
  let s := { s with
    closure := s.closure || i.closure
    parallel := i.parallel.getD s.parallel
    sort := if i.sort.isEmpty then s.sort else i.sort }
  match i.output with
  | none => return s
  | some text => return { s with output := ← OutputMode.parse text }

/-- The settings in effect. -/
def resolveSettings (w : Surroundings) (i : Invocation) : Except RunError Settings := do
  applyOptions (← Settings.load w.files w.environment i.config) i

/-! ## Commands -/

/-- One run, all of whose output is written or none. -/
def runPipeline {α ι : Type} [BEq ι] (s : Settings) (catalog : Catalog String α ι)
    (specs : List String) : Except RunError String := do
  let p ← Pipeline.ofSettings s
  let report ← (p.process catalog specs fun _ => .ok ()).1
  return report.text

def executeFiles (w : Surroundings) (i : Invocation) (directory : Bool) (paths : List String) :
    Except RunError String := do
  let s ← resolveSettings w i
  runPipeline s (FileSource.catalog ⟨w.files, "", directory⟩) paths

def executeGraph (w : Surroundings) (i : Invocation) (roots : List String) :
    Except RunError String := do
  let s ← resolveSettings w i
  let g ← NodeGraph.sample.mapError .failure
  runPipeline s g.catalog roots

/-- Shows where the global settings file is, and warns if it is not there. -/
def executeLocation (w : Surroundings) : Execution :=
  let warn (text : String) : String := message w.colours .warning text
  match w.environment.globalFile? with
  | none => ⟨"", [warn "no config directory available on this platform"], none⟩
  | some path =>
    ⟨message w.colours (.value "global") path ++ "\n",
      if w.files.exists? path then [] else [warn "global config file does not exist"], none⟩

def executeConfig (w : Surroundings) (i : Invocation) : ConfigCommand → Execution
  | .effective => .ofResult .ofOutput do (← resolveSettings w i).toToml
  | .template => .ofOutput Settings.template
  | .location => executeLocation w

def execute (w : Surroundings) (i : Invocation) : Execution :=
  match i.command with
  | some (.files directory paths) => .ofResult .ofOutput (executeFiles w i directory paths)
  | some (.graph roots) => .ofResult .ofOutput (executeGraph w i roots)
  | some (.config command) => executeConfig w i command
  | none => .ofError (.usage "no command given, try 'hiertree --help'")

/-! ## The program -/

/-- What the program wrote, and its exit status. -/
structure Ending where
  output : String
  /-- Lines beside the output. -/
  notes : List String
  code : Nat
  deriving DecidableEq, Repr

/-- Help in brief. -/
def usage : String := String.join <| List.map (· ++ "\n") [
  "Usage: hiertree [OPTIONS] [COMMAND]",
  "",
  "Commands:",
  "  files     List files; directories are listed one level, or fully with --closure",
  "  graph     Explore the built-in sample graph",
  "  config    Manage settings (show, template, path)",
  "",
  "Options:",
  "  -d, --debug            Debug output, repeat for more detail",
  "      --config <FILE>    Config file",
  "  -c, --closure          Explore everything reachable from the given roots",
  "  -p, --parallel <N>     Worker threads for exploration (0 = sequential)",
  "  -s, --sort <FIELD>     Sort fields, comma separated, \"-\" prefix for descending order",
  "  -o, --output <MODE>    Output mode: table, wide, tree, json, yaml",
  "      --generator <SHELL>",
  "  -h, --help",
  "  -V, --version"]

/-- The name of a command with its version. -/
def version (command : List String) : String :=
  "-".intercalate ("hiertree" :: command) ++ " 0.1.0\n"

/-- What is said about a fault in the arguments. -/
def faultText : ArgumentFault → String
  | .unknownArgument => "unexpected argument found"
  | .invalidValue => "a value is required or is not among the possible values"
  | .valueValidation => "invalid value"
  | .invalidSubcommand => "unrecognized subcommand"
  | .missingSubcommand => "a subcommand is required"
  | .argumentConflict => "an argument cannot be used multiple times"
  | .tooManyValues => "unexpected value for a flag"
  | .displayHelp | .displayHelpOnMissing | .displayVersion _ => ""

/-- How the program ends when the arguments ask for no command. -/
def endingOfFault (colours : Bool) : ArgumentFault → Ending
  | .displayHelp => ⟨usage, [], 0⟩
  | .displayVersion command => ⟨version command, [], 0⟩
  | .displayHelpOnMissing => ⟨"", [usage], 2⟩
  | fault => ⟨"", [message colours .error (faultText fault)], 2⟩

/-- A line about a level of detail that there is not. -/
def detailNote (debug : Nat) : List String :=
  if 3 < debug then ["Don't be crazy, max is -d -d -d"] else []

def program (w : Surroundings) (args : List String) : Ending :=
  match read args with
  | .error fault => endingOfFault w.colours fault
  | .ok i =>
    match i.generator with
    | some shell => ⟨"", ["Generating completion file for " ++ shell.name ++ "..."], 0⟩
    | none =>
      let x := execute w i
      let errors := match x.error with
        | some e => [message w.colours .error e.message]
        | none => []
      ⟨x.output, detailNote i.debug ++ x.notes ++ errors, x.status.code⟩

end Hierarchy.CommandLine
