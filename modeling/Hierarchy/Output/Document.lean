import Hierarchy.Decimal.Binary64

/-!
# Documents

A document is a value built from scalars, lists and records; JSON and YAML are two ways of writing
it.  The fields of a record are written in the order in which they stand.
-/

namespace Hierarchy

inductive Document where
  | null
  | bool (b : Bool)
  | int (n : Int)
  | number (x : Binary64)
  | text (s : String)
  | list (items : List Document)
  | record (fields : List (String × Document))

end Hierarchy
