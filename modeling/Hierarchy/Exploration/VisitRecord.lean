/-!
# Records of visited entities
-/

namespace Hierarchy

/-- The ids met so far, each once. -/
structure VisitRecord (ι : Type) where
  ids : List ι

namespace VisitRecord

variable {ι : Type} [BEq ι]

def empty : VisitRecord ι := ⟨[]⟩

def contains (r : VisitRecord ι) (id : ι) : Bool := r.ids.contains id

/-- Records an id; false if it was recorded before. -/
def insert (r : VisitRecord ι) (id : ι) : Bool × VisitRecord ι :=
  if r.contains id then (false, r) else (true, ⟨id :: r.ids⟩)

def size (r : VisitRecord ι) : Nat := r.ids.length

end VisitRecord

end Hierarchy
