/-!
# Trails

A trail is a sequence of keys, root first: the way down to an element, with or without its own key.
-/

namespace Hierarchy

abbrev Trail (K : Type) := List K

namespace Trail

variable {K : Type}

/-- The trail one key further down. -/
def add (t : Trail K) (key : K) : Trail K := t ++ [key]

/-- The trail begins with `start`, which may be all of it. -/
def startsWith [BEq K] (t start : Trail K) : Bool := start.isPrefixOf t

def joined (t : Trail String) (separator : String) : String := separator.intercalate t

/-- A trail as it is shown to people. -/
def text (t : Trail String) : String := t.joined "->"

end Trail

end Hierarchy
