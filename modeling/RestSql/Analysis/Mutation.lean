import RestSql.Analysis.Basic

/-!
The meaning of the statements that change something. Every value is sent, and the request body fits
its schema.
-/

namespace RestSql.Analysis

open Sql (Expr Insert Delete Exec Payload)

/-- A call that changes something, with the key of the rows in its response. -/
def mutation? (kind : MutationKind) (c : Call) (prepared : PreparedRequest)
    (directives : Sql.Directives) : Analysis :=
  .mutation kind { call := c, prepared, itemsKey := c.rowArray?.map Prod.fst } directives

/-- The values that are sent under the given columns. -/
def sentValues (c : Call) (place : String) :
    List (String × Expr) → Except ValidationError (List (String × Json))
  | [] => .ok []
  | (column, e) :: rest => do
    checkRequestColumn c column
    let v ← literal place e
    let values ← sentValues c place rest
    return (column, v) :: values

/-- The meaning of an INSERT statement. -/
def ofInsert (c : Call) (s : Insert) : Except ValidationError Analysis :=
  match s.rows with
  | [values] => do
    if s.columns.length ≠ values.length then
      throw (.valueCount s.columns.length values.length)
    let values := Dict.ofEntries (← sentValues c "INSERT" (s.columns.zip values))
    checkRequired c.method (Dict.keys values)
    let prepared ← PreparedRequest.make c.service c.method values none
    checkBody c prepared
    return mutation? .insert c prepared s.directives
  | rows => .error (.rowCount rows.length)

/-- The values of the condition of a DELETE statement. -/
def deletedValues : Option Expr → Except ValidationError Fields
  | none => .ok []
  | some e => if isEqualities e then .ok (Dict.ofEntries (equalities e)) else .error .notEqualities

/-- The meaning of a DELETE statement. -/
def ofDelete (c : Call) (s : Delete) : Except ValidationError Analysis := do
  let values ← deletedValues s.condition
  (Dict.keys values).forM (checkDeleteColumn c)
  checkRequired c.method (Dict.keys values)
  let prepared ← PreparedRequest.make c.service c.method values none
  return mutation? .delete c prepared s.directives

/-- The request body that an EXEC statement gives as a text. -/
def payload (c : Call) : Option Payload → Except Error (Option Fields)
  | none => .ok none
  | some p => do
    if Text.lower p.format ≠ "json" then throw (.unsupported (.payloadFormat p.format))
    match Json.ofText? p.content with
    | none => throw .json
    | some (.object body) =>
      match c.requestSchema? with
      | none => throw (.validation (.noRequestBody c.method.id))
      | some s =>
        (c.service.schemas.checkPayload s c.method.id body).mapError fun e => .validation (.payload e)
        return some body
    | some _ => throw (.validation .payloadNotObject)

/-- The meaning of an EXEC statement. -/
def ofExec (c : Call) (s : Exec) : Except Error Analysis := do
  let values ← Except.mapError Error.validation do
    let values := Dict.ofEntries (← sentValues c "EXEC" s.bindings)
    checkRequired c.method (Dict.keys values)
    return values
  let payload ← payload c s.payload
  Except.mapError Error.validation do
    let prepared ← PreparedRequest.make c.service c.method values payload
    if payload.isNone then checkBody c prepared
    return mutation? .exec c prepared s.directives

end RestSql.Analysis
