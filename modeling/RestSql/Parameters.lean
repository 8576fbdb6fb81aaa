import RestSql.Json.Reader
import RestSql.Schema.Search
import RestSql.Service.Basic
import RestSql.Text.Blank

/-!
Where the values of a statement travel: in the path, the query or the body of the request. Values that
only mean something in the response, and those that mean nothing, are set apart.
-/

namespace RestSql

/-- The start of a column that is a field of the request body. -/
def bodyMark : String := "data__"

/-- Values by their place. -/
structure Parameters where
  path : Fields
  query : Fields
  /-- Fields of the request body, without their mark. -/
  body : Fields
  /-- Fields of the response. -/
  response : Fields
  /-- Values without a meaning, which are not sent. -/
  unassigned : Fields
  deriving Repr

namespace Parameters

def empty : Parameters :=
  { path := [], query := [], body := [], response := [], unassigned := [] }

/-- The request body, if it has any field. -/
def body? (p : Parameters) : Option Json :=
  if p.body.isEmpty then none else some (.object p.body)

/-- Number of the values. -/
def size (p : Parameters) : Nat :=
  p.path.length + p.query.length + p.body.length + p.response.length + p.unassigned.length

/-- A place of a value. -/
inductive Place
  | path
  | query
  | body (field : String)
  | response
  | unassigned
  deriving DecidableEq, Repr

/-- The place of the column `key`. -/
def placeOf (m : Method) (schemas : SchemaSet) (request response : Option Schema) (key : String) :
    Place :=
  match m.parameter? key with
  | some p =>
    match p.place with
    | .path => .path
    | .query => .query
  | none =>
    match request.bind fun _ => Text.rest? bodyMark key with
    | some field => .body field
    | none =>
      if (response.bind fun s => schemas.find? s key).isSome then .response else .unassigned

/-- A text that is a JSON object or array stands for it in a body; other values for themselves. -/
def bodyValue (v : Json) : Json :=
  match v with
  | .string s =>
    match (Text.trimStart s.toList).head? with
    | some c =>
      if c = '\x7b' || c = '[' then
        match Json.ofText? s with
        | some (.object fields) => .object fields
        | some (.array items) => .array items
        | _ => v
      else v
    | none => v
  | v => v

/-- The parameters with one value more. -/
def add (p : Parameters) (place : Place) (key : String) (v : Json) : Parameters :=
  match place with
  | .path => { p with path := Dict.put p.path key v }
  | .query => { p with query := Dict.put p.query key v }
  | .body field => { p with body := Dict.put p.body field (bodyValue v) }
  | .response => { p with response := Dict.put p.response key v }
  | .unassigned => { p with unassigned := Dict.put p.unassigned key v }

/-- The values of a statement by their places. -/
def split (raw : Fields) (m : Method) (schemas : SchemaSet) (request response : Option Schema) :
    Parameters :=
  raw.foldl (fun p (key, v) => p.add (placeOf m schemas request response key) key v) empty

end Parameters
end RestSql
