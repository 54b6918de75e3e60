import Hierarchy.FileTree.Resolve

/-!
# Building and changing file trees

A tree is built by putting nodes at places, which makes the directories on the way.  The changes
take paths.  A change to a directory needs its permission for writing and for searching.  A change
that is refused leaves the tree as it is; only the removal of a directory with all that is in it
goes as far as it can (`removeDirectory`).
-/

namespace Hierarchy.FileTree

/-- A directory as it is made on the way. -/
def plainDirectory : FileNode := ⟨.directory, 0o755, 1000000000000000000⟩

/-- The tree with nothing but its root. -/
def empty : FileTree := ⟨[([], plainDirectory)], [], false⟩

/-- Puts a node at a place, instead of the node that is there. -/
def put (t : FileTree) (p : Place) (node : FileNode) : FileTree :=
  { t with nodes := (p, node) :: t.nodes.filter (·.1 != p) }

/-- Makes the directories that lead to a place from `done`, as far as they are missing. -/
def makeParents (t : FileTree) (done : Place) : Place → FileTree
  | [] | [_] => t
  | name :: rest =>
    let p := done ++ [name]
    makeParents (if (t.node? p).isSome then t else t.put p plainDirectory) p rest

/-- Puts a node at a place and makes the directories on the way. -/
def insert (t : FileTree) (p : Place) (node : FileNode) : FileTree :=
  (t.makeParents [] p).put p node

/-- The node of a path itself, which may be a link. -/
def findLink (t : FileTree) (path : String) : Except SystemError FileNode := do
  let p ← t.resolve path false
  match t.node? p with
  | some node => return node
  | none => throw .notFound

/-- Sets the permission bits of the node that a path leads to. -/
def setMode (t : FileTree) (path : String) (mode : Nat) : Except SystemError FileTree := do
  let p ← t.resolve path true
  return { t with
    nodes := t.nodes.map fun (q, node) => if q = p then (q, { node with mode }) else (q, node) }

/-! ## Where a change happens -/

/-- A name in a directory; the name may be free. -/
structure Spot where
  directory : Place
  name : FileName
  /-- The path ends with a slash. -/
  slash : Bool

def Spot.place (s : Spot) : Place := s.directory ++ [s.name]

/-- The spot of a path, whose last name is not followed.  Paths that end with a dot, with two dots
or at the root have no spot; `refusal` says what is then answered. -/
def spot (t : FileTree) (path : String) (refusal : Option FileName → SystemError) :
    Except SystemError Spot := do
  if path.contains '\x00' then throw .nul
  if path.isEmpty then throw .notFound
  if pathLimit < path.utf8ByteSize then throw .nameTooLong
  let route := Route.ofPath path
  let directory ← t.walk true linkLimit (t.start route) route.names.dropLast true
  match route.names.getLast? with
  | none => throw (refusal none)
  | some name =>
    if name = here ∨ name = parent then throw (refusal (some name))
    if nameLimit < name.length then throw .nameTooLong
    return ⟨directory, name, route.slash⟩

/-- Names in the directory may be set and removed. -/
def mayChange (t : FileTree) (directory : Place) : Bool :=
  (t.node? directory).any fun node => t.mayWrite node && t.maySearch node

/-! ## Removing -/

/-- The tree without the node at a place. -/
def drop (t : FileTree) (p : Place) : FileTree := { t with nodes := t.nodes.filter (·.1 != p) }

/-- Removes a file or a link. -/
def removeFile (t : FileTree) (path : String) : Except SystemError FileTree := do
  let s ← t.spot path fun _ => .isDirectory
  match t.node? s.place with
  | none => throw .notFound
  | some node =>
    if s.slash then throw (if node.isDirectory then .isDirectory else .notDirectory)
    if !t.mayChange s.directory then throw .permissionDenied
    if node.isDirectory then throw .isDirectory
    return t.drop s.place

/-- Removes an empty directory. -/
def removeEmpty (t : FileTree) (path : String) : Except SystemError FileTree := do
  let s ← t.spot path fun
    | none => .busy
    | some name => if name = here then .invalid else .notEmpty
  match t.node? s.place with
  | none => throw .notFound
  | some node =>
    if !t.mayChange s.directory then throw .permissionDenied
    if !node.isDirectory then throw .notDirectory
    if !(t.names s.place).isEmpty then throw .notEmpty
    return t.drop s.place

/-- A run of changes; those made before a refusal stay. -/
abbrev Changes := ExceptT SystemError (StateM FileTree)

/-- Removes all that is in a directory, in the order of the names; a directory is emptied first, at
most `depth` deep. -/
def clear : Nat → Place → Changes Unit
  | 0, _ => pure ()
  | depth + 1, p => do
    if !((← get).node? p).any (← get).mayRead then throw .permissionDenied
    ((← get).names p).forM fun name => do
      let q := p ++ [name]
      if ((← get).node? q).any (·.isDirectory) then
        if !((← get).node? p).any (← get).maySearch then throw .permissionDenied
        clear depth q
      if !(← get).mayChange p then throw .permissionDenied
      modify (·.drop q)

/-- Removes a directory with all that is in it, or a link. -/
def removeAll (path : String) : Changes Unit := do
  let t ← get
  let p ← t.resolve path false
  match (t.node? p).map FileNode.kind with
  | some (.link _) => set (← t.removeFile path)
  | some .directory =>
    clear t.nodes.length p
    set (← (← get).removeEmpty path)
  | _ => throw .notDirectory

/-- Removes a directory with all that is in it, or a link; where something in it cannot be removed,
what came before it is gone. -/
def removeDirectory (t : FileTree) (path : String) : Except SystemError Unit × FileTree :=
  (removeAll path).run t

/-! ## Moving -/

/-- The tree with a node, and all that is in it, moved to another place, where it replaces what is
there. -/
def move (t : FileTree) (p q : Place) : FileTree :=
  let others := t.nodes.filter fun n => !p.isPrefixOf n.1 && !q.isPrefixOf n.1
  let moved := (t.nodes.filter fun n => p.isPrefixOf n.1).map fun (r, node) =>
    (q ++ r.drop p.length, node)
  { t with nodes := moved ++ others }

/-- Why a node may not take the place of another: a directory replaces empty directories alone, and
only directories are replaced by one. -/
def replaceError? (t : FileTree) (node : FileNode) (q : Place) : Option SystemError := do
  let other ← t.node? q
  match node.isDirectory, other.isDirectory with
  | true, false => some .notDirectory
  | false, true => some .isDirectory
  | true, true => if (t.names q).isEmpty then none else some .notEmpty
  | false, false => none

/-- Gives a node another name or another directory.  A directory that moves to another one has to
be writable, because its way up changes. -/
def rename (t : FileTree) (source target : String) : Except SystemError FileTree := do
  let s ← t.spot source fun _ => .busy
  let d ← t.spot target fun _ => .busy
  match t.node? s.place with
  | none => throw .notFound
  | some node =>
    if !node.isDirectory && (s.slash || d.slash) then throw .notDirectory
    if s.place.isPrefixOf d.directory then throw .invalid
    if d.place.isPrefixOf s.directory then throw .notEmpty
    if s.place = d.place then return t
    if !t.mayChange s.directory || !t.mayChange d.directory then throw .permissionDenied
    if node.isDirectory && s.directory != d.directory && !t.mayWrite node then
      throw .permissionDenied
    match t.replaceError? node d.place with
    | some e => throw e
    | none => return t.move s.place d.place

end Hierarchy.FileTree
