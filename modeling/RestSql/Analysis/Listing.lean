import RestSql.Analysis.Basic
import RestSql.InsertTemplate

/-!
The meaning of SHOW and DESCRIBE.
-/

namespace RestSql.Analysis

open Sql (Describe Show ShowFilter)

/-- The provider with the given name, or the current one if the name is empty. -/
def providerNamed (ps : Providers) (current name : String) : Except ResolutionError Provider :=
  ps.named (CallName.orElse name current)

/-- What a SHOW statement asks, the columns of the answer, and what the filter is checked with. -/
structure Listing where
  query : ProviderQuery
  columns : List String

/-- What a SHOW statement asks. -/
def listing (ps : Providers) (current : String) (s : Show) : Except Error Listing :=
  let target := s.target.getD ⟨[]⟩
  let provider (name : String) := (providerNamed ps current name).mapError Error.resolution
  match s.kind with
  | "PROVIDERS" => do
    let _ ← provider ""
    return ⟨.providers (Dict.keys ps), ["name"]⟩
  | "SERVICES" => do
    return ⟨.services (← provider target.last) s.extended, ServiceEntry.listColumns s.extended⟩
  | "RESOURCES" => do
    if target.last = "" then throw (.resolution .noServiceNamed)
    return ⟨.resources (← provider target.second) target.last s.extended,
      Resource.listColumns s.extended⟩
  | "METHODS" => do
    if target.second = "" then throw (.resolution .noResourceNamed)
    return ⟨.methods (← provider target.third) target.second target.last s.extended,
      Method.listColumns s.extended⟩
  | "AUTH" => do
    return ⟨.identity (← provider target.last), Identity.listColumns⟩
  | kind => .error (.unsupported (.listing kind))

/-- The filter of a listing with the given columns. -/
def listingFilter (kind : String) (columns : List String) :
    Option ShowFilter → Except ValidationError (Option Filter)
  | none => .ok none
  | some (.like pattern) => .ok (some (.likeAny (Provider.likeableColumns kind) pattern))
  | some (.condition e) => do
    let filter ← (Filter.ofListing e).mapError .badFilter
    match filter.columns.find? (!columns.contains ·) with
    | some column => throw (.unknownListingColumn column)
    | none => return some filter

/-- The meaning of a SHOW statement that lists something. -/
def ofShow (ps : Providers) (current : String) (s : Show) : Except Error Analysis := do
  let l ← listing ps current s
  let filter ← (listingFilter s.kind l.columns s.filter).mapError .validation
  return .query l.query filter

/-- The directive that asks for required columns only. -/
def requiredDirective : String := "REQUIRED"

/-- The meaning of SHOW INSERT INTO: the template of an INSERT statement. -/
def ofShowInsert (c : Call) (s : Show) : Except ValidationError Analysis := do
  let template ← InsertTemplate.make c.tableName c.method c.service.schemas c.requestSchema? s.columns
    s.extended (s.directives.isSet requiredDirective)
  return .query (.rows { columns := ["insert_statement"]
                         rows := [Row.ofTexts [("insert_statement", template.text)]] }) none

/-- A row of a description. -/
def describeRow (extended : Bool) (c : SchemaSet.ColumnInfo) : Row :=
  Row.ofTexts <| [("name", c.name), ("type", c.kind)] ++
    if extended then [("description", c.description)] else []

/-- The schema of the rows that a method returns. -/
def describedSchema (p : Provider) (s : Service) (m : Method) : Except ValidationError Schema :=
  match m.response.bind (Dict.find? s.schemas) with
  | none => .error .unsuitableSchema
  | some response =>
    let items := (s.schemas.rowArray? response p.itemsKey).bind fun (_, a) => s.schemas.items? a
    .ok (items.getD response)

/-- The meaning of a DESCRIBE statement. -/
def ofDescribe (p : Provider) (s : Service) (r : Resource) (d : Describe) : Except Error Analysis := do
  let m ← r.describeMethod.mapError .resolution
  let schema ← (describedSchema p s m).mapError .validation
  return .query (.rows { columns := ["name", "type"] ++ if d.extended then ["description"] else []
                         rows := (s.schemas.describe schema).map (describeRow d.extended) }) none

end RestSql.Analysis
