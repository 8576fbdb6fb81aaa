import RestSql.Analysis.Basic

/-!
The meaning of queries. Conditions on parameters are sent with the request, and the other ones hold of
the rows that are fetched.
-/

namespace RestSql.Analysis

open Sql (Expr SelectItem Select)

/-- The header of a literal without a name. -/
def literalHeader (index : Nat) (label : Option String) : String :=
  label.getD ("val_" ++ Text.ofNat index)

/-- The columns and values of a query without a table. -/
def valueColumns : List (SelectItem × Nat) → Except ValidationError (List (String × Json))
  | [] => .ok []
  | (.star, _) :: _ => .error .starWithoutTable
  | (.expr e label, index) :: rest => do
    let v ← literal "SELECT without FROM" e
    let columns ← valueColumns rest
    return (literalHeader index label, v) :: columns

/-- The meaning of a query without a table. -/
def ofValues (s : Select) : Except ValidationError Analysis := do
  let columns ← valueColumns s.items.zipIdx
  return .literals { columns := columns.map Prod.fst, rows := [Dict.ofEntries columns] }

/-- The schemas that the columns of a query are looked up in. -/
structure RowSchema where
  row : Schema
  response : Schema
  /-- The key of the rows in the response. -/
  itemsKey : Option String

/-- The schemas for the rows of a call. -/
def rowSchema (c : Call) : Except ValidationError RowSchema :=
  match c.responseSchema? with
  | none => .error .unsuitableSchema
  | some response =>
    match c.rowArray? with
    | none => .ok { row := response, response, itemsKey := none }
    | some (key, array) =>
      match c.service.schemas.items? array with
      | none => .error .unsuitableSchema
      | some row => .ok { row, response, itemsKey := some key }

/-- The output columns of the items of a select list other than the star. -/
def outputColumns (c : Call) (s : RowSchema) :
    List (SelectItem × Nat) → Except Error (List OutputColumn)
  | [] => .ok []
  | (.star, _) :: rest => outputColumns c s rest
  | (.expr (.column _ name) label, _) :: rest => do
    (checkResponseColumn c s.row s.response name).mapError .validation
    let columns ← outputColumns c s rest
    return ⟨label.getD name, .field name⟩ :: columns
  | (.expr (.literal l) label, index) :: rest => do
    let columns ← outputColumns c s rest
    return ⟨literalHeader index label, .value l.toJson⟩ :: columns
  | (.expr e _, _) :: _ => .error (.unsupported (.selectItem e))

def isStar : SelectItem → Bool
  | .star => true
  | .expr _ _ => false

/-- The output columns of a select list. -/
def projection (c : Call) (s : RowSchema) (items : List SelectItem) : Except Error Projection := do
  let columns ← outputColumns c s items.zipIdx
  if items.any isStar then
    if columns.isEmpty then return (c.service.schemas.columns s.row).map .named
    else .error (.validation .starWithOthers)
  else return columns

/-- The values and the filter of a WHERE clause. -/
def condition (c : Call) (s : RowSchema) : Option Expr →
    Except ValidationError (Fields × Option Filter)
  | none => .ok ([], none)
  | some e => do
    e.columnNames.forM (checkResponseColumn c s.row s.response)
    let filter ← (Filter.ofRows (fun name => (c.method.parameter? name).isSome) e).mapError .badFilter
    return (Dict.ofEntries (equalities e), some filter)

/-- The parameter that says how many rows a page has. -/
def pageSizeParameter : String := "maxResults"

/-- The values with a page size, if there is one, the method takes it, and they have none. -/
def withPageSize (m : Method) (pageSize : Nat) (values : Fields) : Fields :=
  if 0 < pageSize ∧ (m.parameter? pageSizeParameter).isSome ∧ !Dict.has values pageSizeParameter then
    Dict.put values pageSizeParameter (.ofNat pageSize)
  else values

/-- Fails unless every column to sort by is a header or a column of the rows. -/
def checkOrder (c : Call) (s : RowSchema) (p : Projection) (orderBy : List Sql.OrderBy) :
    Except ValidationError Unit :=
  orderBy.forM fun o =>
    if p.any (·.header == o.column) then .ok ()
    else checkResponseColumn c s.row s.response o.column

/-- The meaning of a query on one table. -/
def ofSelect (c : Call) (pageSize : Nat) (s : Select) : Except Error Analysis := do
  let schema ← (rowSchema c).mapError .validation
  let columns ← projection c schema s.items
  let (prepared, filter) ← Except.mapError Error.validation do
    let (values, filter) ← condition c schema s.condition
    checkRequired c.method (Dict.keys values)
    checkOrder c schema columns s.orderBy
    let prepared ← PreparedRequest.make c.service c.method (withPageSize c.method pageSize values) none
    return (prepared, filter)
  return .select { call := c, prepared, itemsKey := schema.itemsKey }
    { projection := columns, filter, orderBy := s.orderBy, limit := s.limit }

end RestSql.Analysis
