import RestSql.Call
import RestSql.Request.Prepared
import RestSql.ResultSet.Shape

/-!
What statements mean once their names are bound and their values are checked.
-/

namespace RestSql

/-- A call that is ready to be made. -/
structure Target where
  call : Call
  prepared : PreparedRequest
  /-- The key of the rows in the response, if it holds any. -/
  itemsKey : Option String

/-- The statements that change something. -/
inductive MutationKind
  | insert
  | delete
  | exec
  deriving DecidableEq, Repr

/-- What a provider is asked without a call of its methods. -/
inductive ProviderQuery
  | providers (names : List String)
  | services (provider : Provider) (extended : Bool)
  | resources (provider : Provider) (service : String) (extended : Bool)
  | methods (provider : Provider) (service resource : String) (extended : Bool)
  | identity (provider : Provider)
  | signIn (provider : Provider) (kind : String) (keyFile : Option String)
  | signOut (provider : Provider)
  /-- Rows that are known already. -/
  | rows (result : ResultSet)

/-- The meaning of a statement. -/
inductive Analysis
  | select (target : Target) (shape : Shape)
  | mutation (kind : MutationKind) (target : Target) (directives : Sql.Directives)
  | join (tables : List String)
  | query (q : ProviderQuery) (filter : Option Filter)
  /-- A row of literals. -/
  | literals (result : ResultSet)
  /-- A pause in milliseconds. -/
  | sleep (duration : Nat)
  | use (provider : String)

namespace Analysis

/-- The value of a literal. -/
def literal (place : String) : Sql.Expr → Except ValidationError Json
  | .literal l => .ok l.toJson
  | e => .error (.notLiteral place e)

/-- The columns and values of a conjunction of comparisons, as far as a column equals a literal, in the
order in which they are written. -/
def equalities : Sql.Expr → List (String × Json)
  | .and l r => equalities l ++ equalities r
  | .comparison (.column _ name) .eq (.literal l) => [(name, l.toJson)]
  | .comparison (.literal l) .eq (.column _ name) => [(name, l.toJson)]
  | _ => []

/-- The expression only says that columns equal literals. -/
def isEqualities : Sql.Expr → Bool
  | .and l r => isEqualities l && isEqualities r
  | .comparison (.column _ _) .eq (.literal _) => true
  | .comparison (.literal _) .eq (.column _ _) => true
  | _ => false

/-- Fails with the required parameters that are not among those supplied. -/
def checkRequired (m : Method) (supplied : List String) : Except ValidationError Unit :=
  match m.requiredNames.filter (!supplied.contains ·) with
  | [] => .ok ()
  | names => .error (.missingParameters names)

/-- Fails unless the column is a parameter of the call or a field of the response; a field that the
caller may set cannot be both. -/
def checkResponseColumn (c : Call) (row response : Schema) (column : String) :
    Except ValidationError Unit :=
  let schemas := c.service.schemas
  let field := (schemas.find? row column).orElse fun _ => schemas.find? response column
  match c.method.parameter? column, field with
  | some _, some f =>
    if f.outputOnly then .ok () else .error (.ambiguousColumn column c.method.name)
  | none, none => .error (.unknownColumn column)
  | _, _ => .ok ()

/-- Fails unless the column is a parameter of the call or a field of the response. -/
def checkDeleteColumn (c : Call) (column : String) : Except ValidationError Unit :=
  let field := c.responseSchema?.bind fun s => c.service.schemas.find? s column
  if (c.method.parameter? column).isSome || field.isSome then .ok ()
  else .error (.unknownDeleteColumn column)

/-- Fails unless the column is a parameter of the call or a field of the request body. -/
def checkRequestColumn (c : Call) (column : String) : Except ValidationError Unit :=
  let field := do
    let name ← Text.rest? bodyMark column
    let s ← c.requestSchema?
    Dict.find? s.properties name
  if (c.method.parameter? column).isSome || field.isSome then .ok ()
  else .error (.unknownColumn column)

/-- Fails unless the fields of the request body, if there are any, fit its schema. -/
def checkBody (c : Call) (p : PreparedRequest) : Except ValidationError Unit :=
  match c.requestSchema? with
  | none => .ok ()
  | some s =>
    if p.parameters.body.isEmpty then .ok ()
    else (c.service.schemas.checkPayload s c.method.id p.parameters.body).mapError .payload

end Analysis
end RestSql
