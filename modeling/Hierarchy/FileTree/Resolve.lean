import Hierarchy.FileTree.Node
import Hierarchy.Text.Split

/-!
# From paths to places

A path is resolved name by name.  Every directory on the way has to allow the search.  A link is
replaced by its target, up to a number of links for the whole path; the last name is replaced too
unless asked otherwise.  The place of a path is canonical: all paths to a node lead to one place.
-/

namespace Hierarchy

/-- Why the system refuses a path. -/
inductive SystemError where
  | notFound
  | permissionDenied
  | busy
  | notDirectory
  | isDirectory
  | invalid
  | nameTooLong
  | notEmpty
  | tooManyLinks
  /-- The path holds a NUL character. -/
  | nul
  deriving DecidableEq, Repr

def SystemError.text : SystemError → String
  | notFound => "No such file or directory (os error 2)"
  | permissionDenied => "Permission denied (os error 13)"
  | busy => "Device or resource busy (os error 16)"
  | notDirectory => "Not a directory (os error 20)"
  | isDirectory => "Is a directory (os error 21)"
  | invalid => "Invalid argument (os error 22)"
  | nameTooLong => "File name too long (os error 36)"
  | notEmpty => "Directory not empty (os error 39)"
  | tooManyLinks => "Too many levels of symbolic links (os error 40)"
  | nul => "file name contained an unexpected NUL byte"

/-- A path taken apart. -/
structure Route where
  /-- It starts at the root. -/
  absolute : Bool
  names : List FileName
  /-- It ends with a slash, so it must lead to a directory. -/
  slash : Bool

def Route.ofPath (path : String) : Route where
  absolute := path.startsWith "/"
  names := ((Text.parts '/' path).filter (!·.isEmpty)).map Text.utf8
  slash := path.endsWith "/"

namespace FileTree

/-- How many links one path may lead through. -/
def linkLimit : Nat := 40

/-- How many bytes a name may have. -/
def nameLimit : Nat := 255

def here : FileName := Text.utf8 "."

def parent : FileName := Text.utf8 ".."

/-- Goes on from a place by names; `links` more links may be followed. -/
def walk (t : FileTree) (follow : Bool) (links : Nat) (place : Place) (names : List FileName)
    (slash : Bool) : Except SystemError Place :=
  match t.node? place with
  | none => .error .notFound
  | some node =>
    match names with
    | [] => if slash && !node.isDirectory then .error .notDirectory else .ok place
    | name :: rest =>
      if !node.isDirectory then .error .notDirectory
      else if !t.maySearch node then .error .permissionDenied
      else if name = here then walk t follow links place rest slash
      else if name = parent then walk t follow links place.dropLast rest slash
      else if nameLimit < name.length then .error .nameTooLong
      else
        match (t.node? (place ++ [name])).map FileNode.kind with
        | some (.link target) =>
          if rest.isEmpty && !slash && !follow then .ok (place ++ [name])
          else
            match links with
            | 0 => .error .tooManyLinks
            | links + 1 =>
              let route := Route.ofPath target
              walk t follow links (if route.absolute then [] else place) (route.names ++ rest)
                (slash || (rest.isEmpty && route.slash))
        | _ => walk t follow links (place ++ [name]) rest slash
termination_by (links, names.length)

/-- How many bytes a path may have. -/
def pathLimit : Nat := 4095

/-- Where the names of a path start. -/
def start (t : FileTree) (route : Route) : Place :=
  if route.absolute then [] else t.workingDirectory

/-- The place that a path of any length leads to. -/
def locate (t : FileTree) (path : String) (follow : Bool) : Except SystemError Place :=
  if path.contains '\x00' then .error .nul
  else if path.isEmpty then .error .notFound
  else
    let route := Route.ofPath path
    t.walk follow linkLimit (t.start route) route.names route.slash

/-- The place that a path leads to, if the system takes a path of its length. -/
def resolve (t : FileTree) (path : String) (follow : Bool) : Except SystemError Place :=
  if !path.contains '\x00' && pathLimit < path.utf8ByteSize then .error .nameTooLong
  else t.locate path follow

theorem locate_of_resolve {t : FileTree} {path : String} {follow : Bool} {p : Place}
    (h : t.resolve path follow = .ok p) : t.locate path follow = .ok p := by
  unfold resolve at h
  split at h
  · simp at h
  · exact h

/-- The node that a path leads to; links are followed. -/
def find (t : FileTree) (path : String) : Except SystemError FileNode := do
  let p ← t.resolve path true
  match t.node? p with
  | some node => return node
  | none => throw .notFound

def exists? (t : FileTree) (path : String) : Bool := (t.find path).isOk

/-- The names in a directory, in the order of their bytes; a file holds none. -/
def list (t : FileTree) (path : String) : Except SystemError (List FileName) := do
  let p ← t.resolve path true
  match t.node? p with
  | some node =>
    if !node.isDirectory then return []
    else if t.mayRead node then return t.names p
    else throw .permissionDenied
  | none => throw .notFound

/-- The text of a file. -/
def read (t : FileTree) (path : String) : Except SystemError String := do
  let node ← t.find path
  if !t.mayRead node then throw .permissionDenied
  match node.kind with
  | .file content => return content.read
  | .directory | .link _ => throw .isDirectory

/-- The path of a place, from the root. -/
def placePath (p : Place) : String := "/" ++ "/".intercalate (p.map Text.ofUtf8)

end FileTree

end Hierarchy
