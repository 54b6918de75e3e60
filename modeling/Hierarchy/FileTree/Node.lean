import Hierarchy.Text.Utf8

/-!
# Trees of files

A file tree is a finite map from places to directories, files and symbolic links.  A place is the
list of names that leads there from the root; the root itself is the empty list.  Names are bytes.
-/

namespace Hierarchy

abbrev FileName := List UInt8

abbrev Place := List FileName

inductive FileContent where
  | text (s : String)
  /-- Zero bytes. -/
  | blank (size : Nat)
  deriving DecidableEq, Repr

def FileContent.size : FileContent → Nat
  | text s => s.utf8ByteSize
  | blank size => size

def FileContent.read : FileContent → String
  | text s => s
  | blank size => String.ofList (List.replicate size '\x00')

inductive FileKind where
  | directory
  | file (content : FileContent)
  | link (target : String)
  deriving DecidableEq, Repr

structure FileNode where
  kind : FileKind
  /-- Permission bits. -/
  mode : Nat
  /-- The time of the last change, in nanoseconds since the epoch. -/
  modified : Int
  deriving DecidableEq, Repr

namespace FileNode

def isDirectory (n : FileNode) : Bool :=
  match n.kind with
  | .directory => true
  | .file _ | .link _ => false

/-- The owner may read. -/
def readable (n : FileNode) : Bool := n.mode / 0o400 % 2 == 1

/-- The owner may write. -/
def writable (n : FileNode) : Bool := n.mode / 0o200 % 2 == 1

/-- The owner may reach what is in the directory. -/
def searchable (n : FileNode) : Bool := n.mode / 0o100 % 2 == 1

/-- The size in bytes.  All directories have one size. -/
def size (n : FileNode) : Nat :=
  match n.kind with
  | .directory => 4096
  | .file content => content.size
  | .link target => target.utf8ByteSize

/-- Kind and permissions in ten characters. -/
def modeText (n : FileNode) : String :=
  let kind := match n.kind with
    | .directory => 'd'
    | .link _ => 'L'
    | .file _ => '-'
  let bit (value : Nat) (c : Char) : Char := if n.mode / value % 2 == 1 then c else '-'
  String.ofList [kind, bit 0o400 'r', bit 0o200 'w', bit 0o100 'x', bit 0o40 'r', bit 0o20 'w',
    bit 0o10 'x', bit 0o4 'r', bit 0o2 'w', bit 0o1 'x']

end FileNode

structure FileTree where
  nodes : List (Place × FileNode)
  /-- Where relative paths start. -/
  workingDirectory : Place
  /-- Permissions do not bind the user; otherwise the user owns everything. -/
  privileged : Bool
  deriving DecidableEq, Repr

namespace FileTree

def node? (t : FileTree) (p : Place) : Option FileNode := t.nodes.lookup p

/-- The names in a directory, in the order of their bytes. -/
def names (t : FileTree) (p : Place) : List FileName :=
  let below := t.nodes.filterMap fun (q, _) => if q.dropLast = p then q.getLast? else none
  below.mergeSort fun a b => decide (a ≤ b)

/-- How many directories there are. -/
def directories (t : FileTree) : Nat := t.nodes.countP fun n => n.2.isDirectory

def mayRead (t : FileTree) (n : FileNode) : Bool := t.privileged || n.readable

def mayWrite (t : FileTree) (n : FileNode) : Bool := t.privileged || n.writable

def maySearch (t : FileTree) (n : FileNode) : Bool := t.privileged || n.searchable

end FileTree

end Hierarchy
