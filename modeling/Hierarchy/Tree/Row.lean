import Hierarchy.Element

/-!
# Rows of a drawn tree

A row is one line of a tree: the connectors (`graph`) and what is shown behind them.  That is an
element of the list, an element made for a level that the list leaves out, or a placeholder.
-/

namespace Hierarchy

/-- Stands for a level of the hierarchy without an element of its own. -/
structure Placeholder (K : Type) where
  position : Position K
  /-- The place in the list of the element that needs this level. -/
  causedBy : Nat
  deriving DecidableEq, Repr

inductive RowContent (K α : Type) where
  | element (e : Element K α)
  | created (e : Element K α)
  | placeholder (p : Placeholder K)

structure Row (K α : Type) where
  graph : String
  content : RowContent K α

namespace Row

variable {K α : Type}

/-- The element shown, unless the row is a placeholder. -/
def element? (row : Row K α) : Option (Element K α) :=
  match row.content with
  | .element e | .created e => some e
  | .placeholder _ => none

def position (row : Row K α) : Position K :=
  match row.content with
  | .element e | .created e => e.position
  | .placeholder p => p.position

def key (row : Row K α) : K := row.position.key

/-- The row shows no element of the list. -/
def synthesized (row : Row K α) : Bool :=
  match row.content with
  | .element _ => false
  | .created _ | .placeholder _ => true

def text (row : Row String α) : String := row.graph ++ " " ++ row.key

end Row

/-! ## Connectors -/

/-- Below a level that goes on. -/
def verticalGlyph : String := "│  "
/-- Below a level that has ended. -/
def spaceGlyph : String := "   "
/-- In front of the last element of a level. -/
def cornerGlyph : String := "└─"
/-- In front of any other element of a level. -/
def forkGlyph : String := "├─"
/-- Behind the connector of an element that is followed by its descendants. -/
def defaultSymbol : String := "⊗"

end Hierarchy
