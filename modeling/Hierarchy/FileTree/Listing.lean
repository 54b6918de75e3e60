import Hierarchy.FileTree.Change
import Hierarchy.Text.Integer

/-!
# Listings of files

A listing describes a file tree line by line.  A line has six fields between tabs: the kind (`d` for
a directory, `l` for a link, anything else for a file), the permissions in octal digits, the time of
the last change in seconds with a fraction, the size, the target of a link, and the path.  Paths
start in the working directory unless they begin with a slash.  Lines of another form are skipped.
-/

namespace Hierarchy.FileTree

def octal? (cs : List Char) : Option Nat :=
  if cs.isEmpty then none
  else cs.foldlM (fun n c => if '0' ≤ c ∧ c ≤ '7' then some (8 * n + (c.toNat - 48)) else none) 0

/-- Seconds with a fraction as nanoseconds; digits behind the ninth do not count. -/
def nanoseconds? (cs : List Char) : Option Int := do
  let (negative, cs) := match cs with
    | '-' :: rest => (true, rest)
    | _ => (false, cs)
  let seconds ← Text.readNat? (cs.takeWhile (· != '.'))
  let fraction := ((cs.dropWhile (· != '.')).drop 1).take 9
  let part ← Text.readNat? ('0' :: fraction ++ List.replicate (9 - fraction.length) '0')
  let n : Int := seconds * 1000000000 + part
  return if negative then -n else n

/-- The place that a path of a listing names; links play no part in it. -/
def listedPlace (workingDirectory : Place) (path : String) : Place :=
  let route := Route.ofPath path
  (if route.absolute then [] else workingDirectory) ++ route.names.filter (· != here)

/-- The tree with what one line describes. -/
def addLine (t : FileTree) (line : String) : FileTree :=
  match Text.parts '\t' line with
  | [kind, mode, modified, size, target, path] =>
    match octal? mode.toList, nanoseconds? modified.toList, Text.readNat? size.toList with
    | some mode, some modified, some size =>
      let kind : FileKind :=
        if kind = "d" then .directory else if kind = "l" then .link target else .file (.blank size)
      t.insert (listedPlace t.workingDirectory path) ⟨kind, mode, modified⟩
    | _, _, _ => t
  | _ => t

/-- The tree of a listing. -/
def ofListing (workingDirectory : String) (listing : String) : FileTree :=
  let place := listedPlace [] workingDirectory
  let t := { empty.insert place plainDirectory with workingDirectory := place }
  (Text.parts '\n' listing).foldl addLine t

/-- The tree with a text file at a path. -/
def addText (t : FileTree) (path text : String) : FileTree :=
  t.insert (listedPlace t.workingDirectory path) ⟨.file (.text text), 0o644, 0⟩

end Hierarchy.FileTree
