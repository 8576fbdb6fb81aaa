import RestSql.Json.Basic
import RestSql.Schema.Basic
import RestSql.Text.Cut

/-!
Schemas from their JSON descriptions. Whatever is missing or of another shape is left blank.
-/

namespace RestSql

/-- The mark in the description of a field that the provider fills in. -/
def outputOnlyMark : String := "[Output Only]"

namespace Schema

/-- The text of a field, empty if it is none. -/
def textAt (v : Json) (key : String) : String :=
  (v.textField? key).getD ""

/-- The description carries the mark of output. -/
def marksOutput (v : Json) : Bool :=
  Text.holds outputOnlyMark.toList (textAt v "description").toList

/-- The methods that need the field. -/
def requiredBy (v : Json) : List String :=
  ((((v.field? "annotations").bind (·.field? "required")).bind Json.items?).getD []).filterMap
    Json.text?

/-- The handle to a schema by its name. -/
def ref? (v : Json) : Option SchemaHandle :=
  (v.textField? "$ref").map fun name => .named name (marksOutput v)

mutual

/-- The schema with the given id that a JSON value describes. -/
def ofJson (id : String) : Json → Schema
  | .object fields =>
    let v := Json.object fields
    { id
      kind := textAt v "type"
      format := textAt v "format"
      description := textAt v "description"
      properties := propertiesIn fields
      items := handleIn "items" false fields
      additional := handleIn "additionalProperties" true fields
      outputOnly := marksOutput v
      required := requiredBy v }
  | _ =>
    { id, kind := "", format := "", description := "", properties := [], items := none
      additional := none, outputOnly := false, required := [] }

/-- The handles under `properties`. -/
def propertiesIn : List (String × Json) → List (String × SchemaHandle)
  | [] => []
  | (k, v) :: rest =>
    if k = "properties" then
      match v with
      | .object properties => handlesIn properties
      | _ => []
    else propertiesIn rest

def handlesIn : List (String × Json) → List (String × SchemaHandle)
  | [] => []
  | (k, v) :: rest => (k, (ref? v).getD (.inline (ofJson "" v))) :: handlesIn rest

/-- The handle under a key; if need be only if it is an object. -/
def handleIn (key : String) (objectOnly : Bool) : List (String × Json) → Option SchemaHandle
  | [] => none
  | (k, v) :: rest =>
    if k = key then
      if objectOnly && v.fields?.isNone then none
      else some ((ref? v).getD (.inline (ofJson "" v)))
    else handleIn key objectOnly rest

end

end Schema
end RestSql
