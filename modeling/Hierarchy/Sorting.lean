/-!
# Sorting by insertion

`sortBy` takes elements as they come and puts each among those before it, from their end on: behind
the first that it does not come before.  So elements that compare equal keep their order.

Nothing is asked of the comparison.  If it is consistent there is one way to sort without turning
around what ties, and this is it; if not, the outcome hangs on which elements are compared.
-/

namespace Hierarchy

variable {β : Type}

/-- Puts an element among sorted ones, of which the last stands first. -/
def insertFromEnd (order : β → β → Ordering) (x : β) : List β → List β
  | [] => [x]
  | y :: ys => if order x y = .lt then y :: insertFromEnd order x ys else x :: y :: ys

def sortBy (order : β → β → Ordering) (l : List β) : List β :=
  (l.foldl (fun sorted x => insertFromEnd order x sorted) []).reverse

end Hierarchy
