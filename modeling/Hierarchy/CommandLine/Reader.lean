import Hierarchy.CommandLine.Invocation
import Hierarchy.Text.Integer
import Hierarchy.Text.Split

/-!
# Reading a command line

A command line is read level by level: the program's own options, then a command with its options
and arguments, then perhaps a command of that command.  Options that go with every command may
stand on any level; the deepest level that gives one decides.

A value that follows its option as an argument of its own is taken up only when the next option, or
the end of the level, is reached.  So a wrong value is reported after an argument that does not
exist at all, and faults of an inner level come before those of the level around it.
-/

namespace Hierarchy.CommandLine

/-! ## Options -/

inductive OptionName where
  | debug | closure | directory | help | version
  | config | parallel | sort | output | generator
  deriving DecidableEq, Repr

namespace OptionName

def takesValue : OptionName → Bool
  | config | parallel | sort | output | generator => true
  | debug | closure | directory | help | version => false

/-- Arguments that begin with a hyphen may be values of the option. -/
def allowsHyphen (o : OptionName) : Bool := o == sort

def long : OptionName → String
  | debug => "debug"
  | closure => "closure"
  | directory => "directory"
  | help => "help"
  | version => "version"
  | config => "config"
  | parallel => "parallel"
  | sort => "sort"
  | output => "output"
  | generator => "generator"

def short? : OptionName → Option Char
  | debug => some 'd'
  | closure => some 'c'
  | directory => some 'D'
  | help => some 'h'
  | version => some 'V'
  | parallel => some 'p'
  | sort => some 's'
  | output => some 'o'
  | config | generator => none

end OptionName

/-! ## Levels -/

inductive Level where
  | program | files | graph | config | configAction
  deriving DecidableEq, Repr

namespace Level

def options (level : Level) : List OptionName :=
  let everywhere : List OptionName :=
    [.debug, .config, .closure, .parallel, .sort, .output, .help, .version]
  match level with
  | program => .generator :: everywhere
  | files => .directory :: everywhere
  | graph | config | configAction => everywhere

/-- The commands of the level and the levels that they open. -/
def commands : Level → List (String × Level)
  | program => [("files", files), ("graph", graph), ("config", config)]
  | config => [("show", configAction), ("template", configAction), ("path", configAction)]
  | files | graph | configAction => []

/-- The level takes arguments that belong to no option. -/
def takesArguments : Level → Bool
  | files | graph => true
  | program | config | configAction => false

end Level

/-! ## What one level gives -/

structure Reading where
  debug : Nat
  closure : Bool
  directory : Bool
  config : Option String
  parallel : Option Nat
  sort : Option (List String)
  output : Option String
  generator : Option Shell
  arguments : List String
  /-- An option whose value has not been taken up: the value is still to come, or was read. -/
  pending : Option (OptionName × Option String)
  deriving DecidableEq, Repr

namespace Reading

def empty : Reading := ⟨0, false, false, none, none, none, none, none, [], none⟩

/-- Nothing was given on the level. -/
def isBlank (r : Reading) : Bool :=
  r.debug == 0 && !r.closure && !r.directory && r.config.isNone && r.parallel.isNone &&
    r.sort.isNone && r.output.isNone && r.generator.isNone && r.arguments.isEmpty

/-- The option that waits for its value. -/
def awaiting? (r : Reading) : Option OptionName :=
  match r.pending with
  | some (o, none) => some o
  | _ => none

/-- A setting that may be given once. -/
def once {β : Type} (old : Option β) (new : β) : Except ArgumentFault (Option β) :=
  if old.isSome then .error .argumentConflict else .ok (some new)

/-- Takes up the value of an option. -/
def setValue (r : Reading) (o : OptionName) (value : String) : Except ArgumentFault Reading :=
  match o with
  | .config => do
    let config ← once r.config value
    if value.isEmpty then throw .invalidValue
    return { r with config }
  | .parallel => do
    let _ ← once r.parallel 0
    match Text.readNat64? value.toList with
    | some n => return { r with parallel := some n }
    | none => throw .valueValidation
  | .output => do
    let output ← once r.output value
    return { r with output }
  | .generator => do
    let _ ← once r.generator .bash
    match Shell.all.find? (·.name == value) with
    | some shell => return { r with generator := some shell }
    | none => throw .invalidValue
  | .sort => .ok { r with sort := some (r.sort.getD [] ++ Text.parts ',' value) }
  | .debug | .closure | .directory | .help | .version => .ok r

/-- Takes up what is pending; a value that has not come is missing. -/
def settle (r : Reading) : Except ArgumentFault Reading :=
  match r.pending with
  | none => .ok r
  | some (_, none) => .error .invalidValue
  | some (o, some value) => setValue { r with pending := none } o value

/-- A flag. -/
def setFlag (r : Reading) (o : OptionName) : Except ArgumentFault Reading := do
  let r ← r.settle
  match o with
  | .debug => return { r with debug := min 255 (r.debug + 1) }
  | .closure => if r.closure then throw .argumentConflict else return { r with closure := true }
  | .directory =>
    if r.directory then throw .argumentConflict else return { r with directory := true }
  | .help => throw .displayHelp
  | .version => throw (.displayVersion [])
  | .config | .parallel | .sort | .output | .generator => return r

/-- An option with the value written beside it, or one that waits for its value. -/
def setOption (r : Reading) (o : OptionName) (beside : Option String) :
    Except ArgumentFault Reading := do
  let r ← r.settle
  match beside with
  | some value => r.setValue o value
  | none => return { r with pending := some (o, none) }

/-- An argument of the level. -/
def addArgument (r : Reading) (argument : String) : Except ArgumentFault Reading := do
  let r ← r.settle
  return { r with arguments := r.arguments ++ [argument] }

/-- The options of an inner level, and of this level where the inner one says nothing. -/
def within (outer inner : Reading) : Reading :=
  { inner with
    debug := if inner.debug = 0 then outer.debug else inner.debug
    closure := inner.closure || outer.closure
    config := inner.config <|> outer.config
    parallel := inner.parallel <|> outer.parallel
    sort := inner.sort <|> outer.sort
    output := inner.output <|> outer.output
    generator := outer.generator }

end Reading

/-! ## Arguments -/

/-- The letters behind one hyphen: flags, and at the end perhaps an option with its value. -/
def readLetters (level : Level) (r : Reading) : List Char → Except ArgumentFault Reading
  | [] => .ok r
  | c :: rest =>
    match level.options.find? (·.short? == some c) with
    | none => .error .unknownArgument
    | some o =>
      if o.takesValue then
        r.setOption o (match rest with
          | [] => none
          | '=' :: value => some (String.ofList value)
          | value => some (String.ofList value))
      else do readLetters level (← r.setFlag o) rest

/-- The name behind two hyphens, with a value behind an equals sign or without. -/
def readLong (level : Level) (r : Reading) (body : List Char) : Except ArgumentFault Reading :=
  let name := String.ofList (body.takeWhile (· != '='))
  let beside := match body.dropWhile (· != '=') with
    | [] => none
    | _ :: value => some (String.ofList value)
  match level.options.find? (·.long == name) with
  | none => .error .unknownArgument
  | some o =>
    if o.takesValue then r.setOption o beside
    else if beside.isSome then .error .tooManyValues
    else r.setFlag o

/-- An argument for which the level has no place. -/
def misplaced (level : Level) (literal : Bool) (argument : String) : ArgumentFault :=
  let named := level.commands.any (·.1 == argument) || argument == "help"
  if level.commands.isEmpty || (literal && named) then .unknownArgument else .invalidSubcommand

/-- Where the arguments of a level end: at their end, or at a command. -/
inductive Continuation where
  | finish
  | command (name : String) (level : Level) (rest : List String)
  | help (rest : List String)

/-- Reads the arguments of one level.  `literal` says that two hyphens were read, behind which
nothing is an option or a command. -/
def readLevel (level : Level) (r : Reading) (literal : Bool) :
    List String → Except ArgumentFault (Reading × Continuation)
  | [] => .ok (r, .finish)
  | a :: rest => do
    let plain (r : Reading) : Except ArgumentFault (Reading × Continuation) := do
      if level.takesArguments then readLevel level (← r.addArgument a) literal rest
      else throw (misplaced level literal a)
    let value (r : Reading) : Except ArgumentFault (Reading × Continuation) :=
      match r.awaiting? with
      | some o => readLevel level { r with pending := some (o, some a) } literal rest
      | none => plain r
    if literal then plain r
    else if r.awaiting?.isNone && level.commands.any (·.1 == a) then
      return (r, .command a ((level.commands.lookup a).getD level) rest)
    else if r.awaiting?.isNone && !level.commands.isEmpty && a == "help" then
      return (r, .help rest)
    else if r.awaiting?.any (·.allowsHyphen) then value r
    else match a.toList with
      | ['-', '-'] => readLevel level r true rest
      | '-' :: '-' :: body => readLevel level (← readLong level r body) literal rest
      | '-' :: c :: letters => readLevel level (← readLetters level r (c :: letters)) literal rest
      | _ => value r

/-- Help about a command, named level by level. -/
def readHelp (level : Level) : List String → ArgumentFault
  | [] => .displayHelp
  | a :: rest =>
    if a == "help" && !level.commands.isEmpty then
      if rest.isEmpty then .displayHelp else .invalidSubcommand
    else match level.commands.lookup a with
      | some inner => readHelp inner rest
      | none => .invalidSubcommand

def readConfigAction (name : String) : ConfigCommand :=
  match name with
  | "template" => .template
  | "path" => .location
  | _ => .effective

/-- Reads the inside of `config`: its own options, then one of its commands. -/
def readConfig (args : List String) : Except ArgumentFault (Reading × Command) := do
  let (outer, next) ← readLevel .config .empty false args
  match next with
  | .help rest => throw (readHelp .config rest)
  | .command name level rest =>
    let (inner, _) ← (readLevel level .empty false rest).mapError (·.within name)
    let inner ← inner.settle
    let outer ← outer.settle
    return (outer.within inner, .config (readConfigAction name))
  | .finish =>
    let outer ← outer.settle
    throw (if outer.isBlank then .displayHelpOnMissing else .missingSubcommand)

/-- Reads the inside of a command. -/
def readCommand (name : String) (level : Level) (args : List String) :
    Except ArgumentFault (Reading × Command) := do
  if name == "config" then readConfig args
  else
    let (inner, _) ← readLevel level .empty false args
    let inner ← inner.settle
    let command : Command :=
      if name == "files" then
        .files inner.directory (if inner.arguments.isEmpty then ["."] else inner.arguments)
      else .graph inner.arguments
    return (inner, command)

def invocation (r : Reading) (command : Option Command) : Invocation where
  debug := r.debug
  config := r.config
  closure := r.closure
  parallel := r.parallel
  sort := r.sort.getD []
  output := r.output
  generator := r.generator
  command := command

/-- Reads the arguments of the program. -/
def read (args : List String) : Except ArgumentFault Invocation := do
  let (outer, next) ← readLevel .program .empty false args
  match next with
  | .help rest => throw (readHelp .program rest)
  | .command name level rest =>
    let (inner, command) ← (readCommand name level rest).mapError (·.within name)
    let outer ← outer.settle
    return invocation (outer.within inner) command
  | .finish =>
    let outer ← outer.settle
    return invocation outer none

end Hierarchy.CommandLine
