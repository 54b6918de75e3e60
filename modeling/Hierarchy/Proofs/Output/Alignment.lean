import Hierarchy.Output.Table
import Hierarchy.Proofs.Text.Trimming
import Hierarchy.Text.Split
import Mathlib.Algebra.GroupWithZero.Nat
import Mathlib.Order.Bounds.Basic

/-!
# Tables line up

A table shows its titles and its rows, each on a line of its own (`Table.lines`), and every cell is
filled up with blanks to the width of its column (`Table.filled`).  At the end of a line no blanks
are printed, neither those that fill up the last cell nor any others, so a printed line is a full
line without the blanks at its end (`Table.line_eq`).

In full lines a column stands at one place, for each line the same (`Table.column_fullLine`); and a
printed line lacks nothing but blanks there.  So all cells of a column stand below each other,
however long or short the rows are (`formatTable_aligned`).
-/

namespace Hierarchy

/-! ## Greatest values -/

theorem le_foldl_max {β : Type} (f : β → Nat) (l : List β) (start : Nat) :
    start ≤ l.foldl (fun n x => max n (f x)) start ∧
      ∀ x ∈ l, f x ≤ l.foldl (fun n x => max n (f x)) start := by
  induction l generalizing start with
  | nil => simp
  | cons x l ih =>
    obtain ⟨hstart, hall⟩ := ih (max start (f x))
    rw [List.foldl_cons]
    refine ⟨by omega, fun y hy => ?_⟩
    rcases List.mem_cons.1 hy with rfl | hy
    · omega
    · exact hall y hy

theorem foldl_max_eq {β : Type} (f : β → Nat) (l : List β) (start : Nat) :
    l.foldl (fun n x => max n (f x)) start = start ∨
      ∃ x ∈ l, f x = l.foldl (fun n x => max n (f x)) start := by
  induction l generalizing start with
  | nil => exact .inl rfl
  | cons x l ih =>
    rw [List.foldl_cons]
    rcases ih (max start (f x)) with h | ⟨y, hy, h⟩
    · rw [h]
      by_cases hle : f x ≤ start
      · exact .inl (by omega)
      · exact .inr ⟨x, List.mem_cons_self, by omega⟩
    · exact .inr ⟨y, List.mem_cons_of_mem _ hy, h⟩

/-- The fold finds the greatest of some numbers. -/
theorem isGreatest_foldl_max {β : Type} (f : β → Nat) {l : List β} (hne : l ≠ []) :
    IsGreatest {n | ∃ x ∈ l, f x = n} (l.foldl (fun n x => max n (f x)) 0) := by
  obtain ⟨-, hall⟩ := le_foldl_max f l 0
  constructor
  · rcases foldl_max_eq f l 0 with h | h
    · obtain ⟨x, hx⟩ := List.exists_mem_of_ne_nil l hne
      have hle := hall x hx
      exact ⟨x, hx, by omega⟩
    · exact h
  · rintro n ⟨x, hx, rfl⟩
    exact hall x hx

namespace Table

/-! ## Full lines -/

/-- The titles and the rows, as they are shown below each other. -/
def lines (headers : List String) (rows : List (List String)) : List (List String) :=
  (headers.map fun header => (Column.ofHeader header).title) :: rows

/-- A cell filled up with blanks, those of a column set to the right before the text. -/
def filled (right : Bool) (width : Nat) (text : String) : List Char :=
  if right then text.toList.leftpad width ' ' else text.toList.rightpad width ' '

/-- A column without a header is not set to the right. -/
def isRight (headers : List String) (column : Nat) : Bool :=
  (headers[column]?.map fun header => (Column.ofHeader header).rightAligned).getD false

/-- One line with a cell for each column, all filled up and one blank apart. -/
def fullLine (headers : List String) (widths : List Nat) (row : List String) : List Char :=
  [' '].intercalate (widths.mapIdx fun i w => filled (isRight headers i) w (cell row i))

/-- How many characters stand before a column. -/
def offset (widths : List Nat) (column : Nat) : Nat := ((widths.take column).map (· + 1)).sum

/-- The rows are listed, since a title or a cell is too wide for a table of more than two
columns. -/
def Listed (headers : List String) (rows : List (List String)) : Prop :=
  (∃ line ∈ lines headers rows, 2 < line.length) ∧
    ∃ line ∈ lines headers rows, ∃ text ∈ line, maxCellWidth < text.length

variable {headers row : List String} {rows ls : List (List String)} {widths : List Nat}
  {right : Bool} {w column : Nat} {text : String}

theorem length_filled : (filled right w text).length = max w text.length := by
  unfold filled
  rw [← String.length_toList]
  split
  · exact List.length_leftpad
  · exact List.length_rightpad

/-- A cell is filled up, unless it stands at the end of a line and is not set to the right. -/
theorem toList_padded (text : String) (w : Nat) (right atEnd : Bool) :
    (padded text w right atEnd).toList =
      if atEnd && !right then text.toList else filled right w text := by
  unfold padded filled blanks
  rw [← String.length_toList]
  cases right <;> cases atEnd <;> simp [List.leftpad, List.rightpad]

/-- The cells of a line but for the last are filled up alike in printed and in full lines. -/
theorem mapIdx_padded (widths : List Nat) (n : Nat) (h : widths.length < n) :
    (widths.mapIdx fun i w => padded (cell row i) w (isRight headers i) (i + 1 == n)).map
        String.toList =
      widths.mapIdx fun i w => filled (isRight headers i) w (cell row i) := by
  refine List.ext_getElem (by simp) fun i hi hi' => ?_
  rw [List.length_mapIdx] at hi'
  have hinner : (i + 1 == n) = false := by simp; omega
  simp [hinner, toList_padded]

theorem intercalate_concat_append (sep : List Char) (parts : List (List Char))
    (part rest : List Char) :
    sep.intercalate (parts ++ [part ++ rest]) = sep.intercalate (parts ++ [part]) ++ rest := by
  induction parts with
  | nil => simp
  | cons p parts ih =>
    rw [List.cons_append, List.cons_append, List.intercalate_cons_of_ne_nil (by simp), ih,
      List.intercalate_cons_of_ne_nil (by simp), List.append_assoc _ _ rest]

/-- A printed line is a full line without the blanks at its end. -/
theorem line_eq (headers : List String) (widths : List Nat) (row : List String) :
    line (headers.map Column.ofHeader) widths row =
      String.ofList (Text.trimEnd (fullLine headers widths row)) := by
  have hright : ∀ i, (((headers.map Column.ofHeader)[i]?.map (·.rightAligned)).getD false) =
      isRight headers i := by
    intro i
    rw [List.getElem?_map, Option.map_map]
    rfl
  unfold line fullLine
  dsimp only
  simp only [hright]
  rw [String.toList_intercalate]
  congr 1
  rcases List.eq_nil_or_concat widths with rfl | ⟨inner, last, rfl⟩
  · rfl
  rw [List.concat_eq_append, List.mapIdx_concat, List.mapIdx_concat, List.map_append,
    mapIdx_padded inner _ (by simp), List.map_singleton, toList_padded]
  by_cases hfilled : isRight headers inner.length = true
  · simp [hfilled]
  · -- the last cell is not filled up, but the line is trimmed
    simp only [hfilled, List.length_append, List.length_singleton, beq_self_eq_true, Bool.not_false,
      Bool.and_self, if_true, filled, List.rightpad, Bool.false_eq_true, if_false]
    rw [intercalate_concat_append, Text.trimEnd_append]
    · rfl
    · intro c hc
      rw [List.eq_of_mem_replicate hc]
      rfl

/-! ## Columns -/

/-- Joined parts are found at the places that their lengths give. -/
theorem column_intercalate (sep : Char) (parts : List (List Char)) {i : Nat}
    (h : i < parts.length) :
    (([sep].intercalate parts).drop (offset (parts.map List.length) i)).take parts[i].length =
      parts[i] := by
  induction parts generalizing i with
  | nil => simp at h
  | cons part parts ih =>
    cases i with
    | zero =>
      cases parts with
      | nil => simp [offset]
      | cons next parts => simp [offset, List.intercalate_cons_cons]
    | succ i =>
      have hne : parts ≠ [] := by
        rintro rfl
        simp at h
      have hskip : offset ((part :: parts).map List.length) (i + 1) =
          (part ++ [sep]).length + offset (parts.map List.length) i := by simp [offset]
      rw [hskip, ← List.drop_drop, List.intercalate_cons_of_ne_nil hne, List.drop_left,
        List.getElem_cons_succ]
      exact ih (by simpa using h)

/-- In a full line each cell stands at the place of its column. -/
theorem column_fullLine (headers : List String)
    (hfit : ∀ i (h : i < widths.length), (cell row i).length ≤ widths[i])
    (h : column < widths.length) :
    ((fullLine headers widths row).drop (offset widths column)).take widths[column] =
      filled (isRight headers column) widths[column] (cell row column) := by
  have hlength : ∀ i (h : i < widths.length),
      (filled (isRight headers i) widths[i] (cell row i)).length = widths[i] := by
    intro i h
    rw [length_filled]
    exact Nat.max_eq_left (hfit i h)
  have hwidths : (widths.mapIdx fun i w => filled (isRight headers i) w (cell row i)).map
      List.length = widths := by
    refine List.ext_getElem (by simp) fun i _ hi => ?_
    simp [hlength i hi]
  have hcolumn := column_intercalate ' '
    (widths.mapIdx fun i w => filled (isRight headers i) w (cell row i)) (by simpa using h)
  rw [hwidths, List.getElem_mapIdx, hlength column h] at hcolumn
  exact hcolumn

/-- A printed line shows each cell at the place of its column, as far as the line goes: only blanks
are missing. -/
theorem exists_missing (hfit : ∀ i (h : i < widths.length), (cell row i).length ≤ widths[i])
    (h : column < widths.length) :
    ∃ missing, (∀ c ∈ missing, Text.isBlank c) ∧
      ((Text.trimEnd (fullLine headers widths row)).drop (offset widths column)).take
          widths[column] ++ missing =
        filled (isRight headers column) widths[column] (cell row column) := by
  have hcolumn := column_fullLine headers hfit h
  obtain ⟨blanks, hline, hblanks⟩ := Text.exists_blanks (fullLine headers widths row)
  rw [hline, List.drop_append, List.take_append] at hcolumn
  refine ⟨_, fun c hc => ?_, hcolumn⟩
  exact hblanks c (List.mem_of_mem_drop (List.mem_of_mem_take hc))

/-! ## The widths of a table -/

/-- The widths of all columns that some line has. -/
def widthsOf (lines : List (List String)) : List Nat :=
  (List.range (columnCount lines)).map (width lines)

variable (hne : ls ≠ [])

include hne

theorem isGreatest_columnCount :
    IsGreatest {n | ∃ line ∈ ls, line.length = n} (widthsOf ls).length := by
  rw [widthsOf, List.length_map, List.length_range]
  exact isGreatest_foldl_max List.length hne

theorem isGreatest_widthsOf (h : column < (widthsOf ls).length) :
    IsGreatest {n | ∃ line ∈ ls, (cell line column).length = n} (widthsOf ls)[column] := by
  have hwidth : (widthsOf ls)[column] = width ls column := by simp [widthsOf]
  rw [hwidth]
  exact isGreatest_foldl_max (fun line => (cell line column).length) hne

/-- A wide text makes its column wide, and a wide column has a wide text. -/
theorem exists_wide_iff (bound : Nat) :
    (∃ w ∈ widthsOf ls, bound < w) ↔ ∃ line ∈ ls, ∃ text ∈ line, bound < text.length := by
  constructor
  · rintro ⟨w, hw, hwide⟩
    obtain ⟨column, h, rfl⟩ := List.getElem_of_mem hw
    obtain ⟨row, hrow, hcell⟩ := (isGreatest_widthsOf hne h).1
    rw [← hcell] at hwide
    refine ⟨row, hrow, cell row column, ?_, hwide⟩
    unfold cell at hwide ⊢
    cases htext : row[column]? with
    | none => simp [htext] at hwide
    | some text => exact List.mem_of_getElem? htext
  · rintro ⟨row, hrow, text, htext, hwide⟩
    obtain ⟨column, hcolumn, rfl⟩ := List.getElem_of_mem htext
    have h : column < (widthsOf ls).length :=
      Nat.lt_of_lt_of_le hcolumn ((isGreatest_columnCount hne).2 ⟨row, hrow, rfl⟩)
    have hle := (isGreatest_widthsOf hne h).2 ⟨row, hrow, rfl⟩
    have hcell : cell row column = row[column] := by simp [cell, hcolumn]
    rw [hcell] at hle
    exact ⟨_, List.getElem_mem h, Nat.lt_of_lt_of_le hwide hle⟩

omit hne

theorem listed_iff :
    ((widthsOf (lines headers rows)).length > 2 &&
        (widthsOf (lines headers rows)).any (· > maxCellWidth)) = true ↔
      Listed headers rows := by
  have hne : lines headers rows ≠ [] := List.cons_ne_nil _ _
  have hlong : 2 < (widthsOf (lines headers rows)).length ↔
      ∃ line ∈ lines headers rows, 2 < line.length := by
    obtain ⟨⟨line, hline, hlength⟩, hall⟩ := isGreatest_columnCount hne
    constructor
    · intro h
      exact ⟨line, hline, by omega⟩
    · rintro ⟨line, hline, h⟩
      exact Nat.lt_of_lt_of_le h (hall ⟨line, hline, rfl⟩)
  rw [Bool.and_eq_true, List.any_eq_true]
  simp only [decide_eq_true_eq, gt_iff_lt]
  rw [hlong, exists_wide_iff hne, Listed]

/-! ## Printed tables -/

/-- The text of a table: titles and rows, each cell filled up to the width of its column. -/
structure Aligned (headers : List String) (rows : List (List String)) (widths : List Nat)
    (text : String) : Prop where
  /-- There are as many columns as the longest line has. -/
  columns : IsGreatest {n | ∃ line ∈ lines headers rows, line.length = n} widths.length
  /-- A column is as wide as its widest cell. -/
  width : ∀ i (h : i < widths.length),
    IsGreatest {n | ∃ line ∈ lines headers rows, (cell line i).length = n} widths[i]
  /-- The lines of the text, behind the last of which nothing is left. -/
  printed : Text.parts '\n' text = ((lines headers rows).map fun line =>
    String.ofList (Text.trimEnd (fullLine headers widths line))) ++ [""]
  count : (lines headers rows).length = 1 + rows.length
  /-- In each line a column has the same place; only blanks may be missing there. -/
  place : ∀ line ∈ lines headers rows, ∀ i (h : i < widths.length), ∃ missing,
    (∀ c ∈ missing, Text.isBlank c) ∧
      ((Text.trimEnd (fullLine headers widths line)).drop (offset widths i)).take widths[i] ++
          missing =
        filled (isRight headers i) widths[i] (cell line i)

end Table

open Table

variable {headers : List String} {rows : List (List String)}

/-- Rows that are not listed are printed line by line. -/
theorem formatTable_eq (nonempty : rows ≠ []) (fits : ¬ Listed headers rows) :
    formatTable headers rows = String.join ((lines headers rows).map fun row =>
      String.ofList (Text.trimEnd (fullLine headers (widthsOf (lines headers rows)) row)) ++
        "\n") := by
  have hlines : (headers.map Column.ofHeader).map (·.title) :: rows = lines headers rows := by
    rw [List.map_map]
    rfl
  have hwidths : (List.range (columnCount (lines headers rows))).map (width (lines headers rows)) =
      widthsOf (lines headers rows) := rfl
  unfold formatTable
  dsimp only
  rw [hlines, hwidths, if_neg (by simpa using nonempty), if_neg (mt listed_iff.1 fits)]
  simp only [line_eq]

/-- Titles have no characters that their headers do not have. -/
theorem not_mem_lines {c : Char} (h : ∀ line ∈ headers :: rows, ∀ text ∈ line, c ∉ text.toList) :
    ∀ line ∈ lines headers rows, ∀ text ∈ line, c ∉ text.toList := by
  obtain ⟨hheaders, hrows⟩ := List.forall_mem_cons.1 h
  refine List.forall_mem_cons.2 ⟨fun text htext => ?_, hrows⟩
  obtain ⟨header, hheader, rfl⟩ := List.mem_map.1 htext
  have hc := hheaders header hheader
  unfold Column.ofHeader
  split
  · next title htitle =>
    rw [htitle] at hc
    simpa using fun hmem => hc (List.mem_cons_of_mem _ hmem)
  · exact hc

theorem not_mem_intercalate {c : Char} {sep : List Char} {parts : List (List Char)} (hsep : c ∉ sep)
    (h : ∀ part ∈ parts, c ∉ part) : c ∉ sep.intercalate parts := by
  induction parts with
  | nil => simp
  | cons part parts ih =>
    obtain ⟨hpart, hparts⟩ := List.forall_mem_cons.1 h
    by_cases hne : parts = []
    · simpa [hne] using hpart
    · rw [List.intercalate_cons_of_ne_nil hne]
      simp [hpart, hsep, ih hparts]

/-- A line has no characters but those of its cells and blanks. -/
theorem not_mem_fullLine {c : Char} {widths : List Nat} {row : List String} (hblank : c ≠ ' ')
    (h : ∀ text ∈ row, c ∉ text.toList) : c ∉ fullLine headers widths row := by
  have hcell : ∀ i, c ∉ (cell row i).toList := by
    intro i
    unfold cell
    cases htext : row[i]? with
    | none => simp
    | some text => exact h text (List.mem_of_getElem? htext)
  have hfilled : ∀ part ∈ widths.mapIdx fun i w => filled (isRight headers i) w (cell row i),
      c ∉ part := by
    intro part hpart hmem
    obtain ⟨i, _, rfl⟩ := List.mem_mapIdx.1 hpart
    unfold filled List.leftpad List.rightpad at hmem
    split at hmem <;> simp [hblank, hcell i] at hmem
  exact not_mem_intercalate (by simpa using hblank) hfilled

/-- A table of rows that are not listed is printed in one line for the titles and one for each row,
and its columns stand below each other. -/
theorem formatTable_aligned (headers : List String) (rows : List (List String))
    (nonempty : rows ≠ [])
    (unbroken : ∀ line ∈ headers :: rows, ∀ text ∈ line, '\n' ∉ text.toList)
    (fits : ¬ Listed headers rows) :
    ∃ widths, Aligned headers rows widths (formatTable headers rows) := by
  have hne : lines headers rows ≠ [] := List.cons_ne_nil _ _
  refine ⟨widthsOf (lines headers rows), isGreatest_columnCount hne,
    fun i h => isGreatest_widthsOf hne h, ?_, Nat.add_comm _ _, ?_⟩
  · have hlines : ∀ line ∈ (lines headers rows).map fun line =>
        Text.trimEnd (fullLine headers (widthsOf (lines headers rows)) line), '\n' ∉ line := by
      intro line hline hbreak
      obtain ⟨row, hrow, rfl⟩ := List.mem_map.1 hline
      have hmem := (List.rdropWhile_prefix Text.isBlank _).subset hbreak
      exact not_mem_fullLine (by decide) (not_mem_lines unbroken row hrow) hmem
    have htext : (formatTable headers rows).toList = ((lines headers rows).map fun line =>
        Text.trimEnd (fullLine headers (widthsOf (lines headers rows)) line)).flatMap
          fun line => line ++ ['\n'] := by
      rw [formatTable_eq nonempty fits, String.toList_join, List.flatMap_map, List.flatMap_map]
      simp
    rw [Text.parts, htext, Text.split_flatMap hlines, List.map_append, List.map_map]
    rfl
  · intro line hline i h
    refine exists_missing (fun i h => ?_) h
    exact (isGreatest_widthsOf hne h).2 ⟨line, hline, rfl⟩

/-- The second column is set to the right, the third has no header, and the last row no cells. -/
def raggedRows : List (List String) := [["α", "5"], ["long-name", "12345", "boom"], []]

theorem raggedRows_aligned :
    raggedRows ≠ [] ∧
      (∀ line ∈ ["NAME", "-SIZE"] :: raggedRows, ∀ text ∈ line, '\n' ∉ text.toList) ∧
      ¬ Listed ["NAME", "-SIZE"] raggedRows ∧
      (∃ widths, Aligned ["NAME", "-SIZE"] raggedRows widths
        (formatTable ["NAME", "-SIZE"] raggedRows)) ∧
      formatTable ["NAME", "-SIZE"] raggedRows =
        "NAME       SIZE\nα             5\nlong-name 12345 boom\n\n" := by
  have nonempty : raggedRows ≠ [] := by decide
  have unbroken : ∀ line ∈ ["NAME", "-SIZE"] :: raggedRows, ∀ text ∈ line, '\n' ∉ text.toList := by
    decide +kernel
  have fits : ¬ Listed ["NAME", "-SIZE"] raggedRows := by
    rw [← listed_iff]
    decide +kernel
  exact ⟨nonempty, unbroken, fits, formatTable_aligned _ _ nonempty unbroken fits,
    by decide +kernel⟩

end Hierarchy
