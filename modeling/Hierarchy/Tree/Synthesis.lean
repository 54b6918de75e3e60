import Hierarchy.Tree.Row

/-!
# Drawing a list of elements as a tree

`Synthesizer.rows` turns a list in the order of its hierarchy into rows.  A level is the run of
elements below common ancestors.  Walking along it, an element that lies directly there gets a row;
an element that lies deeper opens the level of its next ancestor, drawn by the same function with a
longer list of ancestors, and the walk goes on behind everything that belongs there.

A level without an element of its own gets a row too: the element that `creator` makes for it, or
a placeholder.  So a list of leaves alone is drawn as a complete tree.  Any list can be drawn, also
one in another order; each element then opens the levels it needs.
-/

namespace Hierarchy

structure Synthesizer (K α : Type) where
  /-- Put behind the connector of a branch that is followed by its descendants. -/
  symbol : String
  /-- Makes an element for a missing level, given the ancestors' keys and its key. -/
  creator : List K → K → Option (Element K α)

namespace Synthesizer

variable {K α : Type}

/-- A symbol stands apart from the connector: a blank is put before it unless it has one. -/
def spaced (symbol : String) : String :=
  if symbol.isEmpty || symbol.startsWith " " then symbol else " " ++ symbol

def withSymbol (symbol : String) : Synthesizer K α := ⟨spaced symbol, fun _ _ => none⟩

variable [DecidableEq K]

/-- The key under which something with these ancestors belongs to the level below `above`;
none if it lies outside or directly in that level. -/
def keyBelow? (above ancestors : List K) : Option K :=
  if above.isPrefixOf ancestors then (ancestors.drop above.length).head? else none

/-- `other` stays below the same key of the level as `e`, or below `e` itself. -/
def belongs (above : List K) (e other : Element K α) : Bool :=
  match keyBelow? above other.ancestors with
  | none => false
  | some key => keyBelow? above e.ancestors == some key || e.branchKey? == some key

/-- The connector in front of a row, and what stands below it in the rows it opens. -/
def connector (more : Bool) : String × String :=
  if more then (forkGlyph, verticalGlyph) else (cornerGlyph, spaceGlyph)

/-- The level goes on in this rest of the list. -/
def continues (above : List K) (rest : List (Element K α)) : Bool :=
  match rest with
  | [] => false
  | e :: _ => above.isPrefixOf e.ancestors

variable (t : Synthesizer K α)

/-- The symbol, if `e` is a branch and the list goes on below it. -/
def mark (e : Element K α) (rest : List (Element K α)) : String :=
  match e.branchKey?, rest with
  | some key, next :: _ =>
    if (e.ancestors ++ [key]).isPrefixOf next.ancestors then t.symbol else ""
  | _, _ => ""

def labelText (e : Element K α) : String :=
  match e.label with
  | some label => if label.isEmpty then "" else " " ++ label
  | none => ""

/-- The row of a level that has no element of its own. -/
def filler (graph : String) (above : List K) (key : K) (causedBy : Nat) : Row K α :=
  match t.creator above key with
  | some e => ⟨graph, .created e⟩
  | none => ⟨graph, .placeholder ⟨⟨above, key⟩, causedBy⟩⟩

/-- How many levels the first element of a list lies below `depth`. -/
def depthBelow (depth : Nat) : List (Element K α) → Nat
  | [] => 0
  | e :: _ => e.ancestors.length - depth

theorem length_lt_of_keyBelow? {above ancestors : List K} {key : K}
    (h : keyBelow? above ancestors = some key) : above.length < ancestors.length := by
  unfold keyBelow? at h
  split at h
  · rw [List.head?_drop] at h
    exact (List.getElem?_eq_some_iff.1 h).1
  · simp at h

/-- The rows of the level below `above`, from the first element of the list up to the one that
leaves it.  `index` is the place of that first element in the whole list, `header` stands left of
the level's connectors, and `drawn` is the branch whose row came last, if its level may be opened
without another row. -/
def level (header : String) (above : List K) (drawn : Option K) (index : Nat) :
    List (Element K α) → List (Row K α)
  | [] => []
  | e :: rest =>
    if above.isPrefixOf e.ancestors then
      let rest' := rest.dropWhile (belongs above e)
      let (graph, bar) := connector (continues above rest')
      match _hkey : keyBelow? above e.ancestors with
      | none =>
        let own : List (Row K α) :=
          if e.shown then [⟨header ++ graph ++ t.mark e rest ++ labelText e, .element e⟩] else []
        own ++ level header above e.branchKey? (index + 1) rest
      | some key =>
        let own := if drawn = some key then [] else [t.filler (header ++ graph) above key index]
        own ++ level (header ++ bar) (above ++ [key]) none index (e :: rest) ++
          level header above none (index + 1 + (rest.length - rest'.length)) rest'
    else []
termination_by elements => (elements.length, depthBelow above.length elements)
decreasing_by
  · exact Prod.Lex.left _ _ (by simp)
  · have := length_lt_of_keyBelow? _hkey
    exact Prod.Lex.right _ (by simp [depthBelow]; omega)
  · have := (List.dropWhile_suffix (l := rest) (belongs above e)).length_le
    exact Prod.Lex.left _ _ (by simp; omega)

/-- The rows of the whole tree. -/
def rows (elements : List (Element K α)) : List (Row K α) := t.level "" [] none 0 elements

end Synthesizer

end Hierarchy
