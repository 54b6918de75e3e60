/-!
# What can go wrong

A `Failure` belongs to one element: it is recorded there and shown in its row, and the run goes
on.  A `RunError` ends a run; a `ProgramError` ends the program, and decides its exit status.
Each cause has its wording in one `message` function.
-/

namespace Hierarchy

/-- Why an element could not be explored, placed or shown in full. -/
inductive Failure where
  /-- Its children could not be listed. -/
  | listing (path message : String)
  /-- Its attributes could not be read. -/
  | attributes (path message : String)
  /-- It is one of its own ancestors. -/
  | cycle
  /-- Its children are shown at another place. -/
  | alreadyShown
  /-- No node stands behind it. -/
  | unknownNode (name : String)
  /-- The reference order does not list this path. -/
  | unranked (path : String)
  /-- There are no workers. -/
  | pool (reason : String)
  deriving DecidableEq, Repr

def Failure.message : Failure → String
  | listing path message => path ++ ": " ++ message
  | attributes path message => path ++ ": " ++ message
  | cycle => "cycle"
  | alreadyShown => "already shown"
  | unknownNode _ => "unknown node"
  | unranked path => "hierarchy prefix not indexed: " ++ path
  | pool reason => "worker pool: " ++ reason

/-- Why a run ended without a result. -/
inductive RunError where
  | failure (cause : Failure)
  /-- Sort criteria that name no column of the output. -/
  | unknownColumns (names : List String)
  | unknownOutput (text : String)
  | parallelism (text : String)
  | settings (message : String)
  | rendering (message : String)
  /-- An operation of the system failed; `cause` is the system's own text. -/
  | operation (action cause : String)
  deriving DecidableEq, Repr

def RunError.message : RunError → String
  | failure cause => cause.message
  | unknownColumns names => "invalid sort fields: [" ++ " ".intercalate names ++ "]"
  | unknownOutput text =>
    "invalid output mode: " ++ text ++ " (expected one of: table, wide, tree, json, yaml)"
  | parallelism text => "invalid parallelism: " ++ text
  | settings message => "config error: " ++ message
  | rendering message => "render failed: " ++ message
  | operation action _ => "operation failed: " ++ action

/-- Why the program ended without success. -/
inductive ProgramError where
  | run (error : RunError)
  /-- Reading or writing failed outside a run. -/
  | transfer (action cause : String)
  | arguments (message : String)
  | usage (message : String)
  deriving DecidableEq, Repr

def ProgramError.message : ProgramError → String
  | run error => error.message
  | transfer action _ => "I/O error: " ++ action
  | arguments message => "invalid arguments: " ++ message
  | usage message => message

/-- The texts of what caused the error, outermost first: each layer that hands an error on repeats
its text. -/
def ProgramError.causes : ProgramError → List String
  | run error =>
    let text := error.message
    match error with
    | .failure _ => [text, text, text]
    | .operation _ cause => [text, text, cause]
    | _ => [text, text]
  | transfer action cause => ["I/O error: " ++ action, cause]
  | arguments _ | usage _ => []

/-! ## Exit statuses -/

/-- How the program ended, as the calling system is told. -/
inductive ExitStatus where
  | success | usage | software | transfer | settings
  deriving DecidableEq, Repr

def ExitStatus.code : ExitStatus → Nat
  | success => 0
  | usage => 64
  | software => 70
  | transfer => 74
  | settings => 78

def RunError.status : RunError → ExitStatus
  | unknownColumns _ | unknownOutput _ | parallelism _ => .usage
  | settings _ => .settings
  | operation _ _ => .transfer
  | failure _ | rendering _ => .software

def ProgramError.status : ProgramError → ExitStatus
  | run error => error.status
  | transfer _ _ => .transfer
  | arguments _ | usage _ => .usage

end Hierarchy
