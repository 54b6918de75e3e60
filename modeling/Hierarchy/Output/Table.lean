import Hierarchy.Text.Blank

/-!
# Tables of cells

A table has a line of titles and a line for each row; its columns are as wide as their widest cell
and stand one blank apart.  Widths count characters.  A header that begins with a hyphen sets its
column to the right.  Lines end without blanks.

If a cell is too wide for a table of more than two columns, the rows are listed instead, one cell a
line behind its title.
-/

namespace Hierarchy

/-- What is printed if there is nothing to show. -/
def emptyText : String := "no elements found\n"

/-- The widest cell that a table of more than two columns may have. -/
def maxCellWidth : Nat := 200

structure Column where
  title : String
  rightAligned : Bool
  deriving DecidableEq, Repr

/-- A hyphen before the title asks for alignment to the right. -/
def Column.ofHeader (header : String) : Column :=
  match header.toList with
  | '-' :: title => ⟨String.ofList title, true⟩
  | _ => ⟨header, false⟩

namespace Table

def blanks (n : Nat) : String := String.ofList (List.replicate n ' ')

def cell (row : List String) (column : Nat) : String := row[column]?.getD ""

/-- The number of columns of the longest line. -/
def columnCount (lines : List (List String)) : Nat :=
  lines.foldl (fun n line => max n line.length) 0

/-- The width of a column: that of its widest cell. -/
def width (lines : List (List String)) (column : Nat) : Nat :=
  lines.foldl (fun w line => max w (cell line column).length) 0

/-- A cell filled up to the width of its column; at the end of a line nothing is put behind it. -/
def padded (text : String) (width : Nat) (rightAligned atEnd : Bool) : String :=
  let fill := blanks (width - text.length)
  if rightAligned then fill ++ text
  else if atEnd then text
  else text ++ fill

/-- One line of a table whose columns have the given widths. -/
def line (columns : List Column) (widths : List Nat) (row : List String) : String :=
  let cells := widths.mapIdx fun i w =>
    let right := (columns[i]?.map (·.rightAligned)).getD false
    padded (cell row i) w right (i + 1 == widths.length)
  String.ofList (Text.trimEnd (" ".intercalate cells).toList)

/-- One line for each cell, and a line of hyphens behind each row. -/
def listing (titles : List String) (rows : List (List String)) : String :=
  let titleWidth := titles.foldl (fun w title => max w title.utf8ByteSize) 0
  let entry (i : Nat) (text : String) : String :=
    match titles[i]? with
    | some title => padded title titleWidth false false ++ ": " ++ text ++ "\n"
    | none => toString i ++ ": " ++ text ++ "\n"
  String.join (rows.map fun row =>
    if row.isEmpty then "" else String.join (row.mapIdx entry) ++ "---\n")

end Table

open Table in
def formatTable (headers : List String) (rows : List (List String)) : String :=
  if rows.isEmpty then emptyText
  else
    let columns := headers.map Column.ofHeader
    let titles := columns.map (·.title)
    let lines := titles :: rows
    let widths := (List.range (columnCount lines)).map (width lines)
    if widths.length > 2 && widths.any (· > maxCellWidth) then listing titles rows
    else String.join (lines.map fun row => line columns widths row ++ "\n")

end Hierarchy
