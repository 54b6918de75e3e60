import Hierarchy.Failure
import Hierarchy.Output.Json
import Hierarchy.Output.Mode
import Hierarchy.Output.Table
import Hierarchy.Output.Yaml

/-!
# Manifests

A manifest is a record with one list, the items of a result.
-/

namespace Hierarchy

def formatManifests (mode : OutputMode) (items : List Document) : Except RunError String :=
  if items.isEmpty then .ok emptyText
  else
    let document := Document.record [("items", .list items)]
    match mode with
    | .json => .ok (Json.write 0 document ++ "\n")
    | .yaml => .ok (Yaml.inline 0 document)
    | .table | .wide | .tree => .error (.rendering (mode.name ++ " is not a manifest output"))

end Hierarchy
