import RestSql.Provider.Documents
import RestSql.Schema.Search
import RestSql.Sql.Statement

/-!
Calls: names of statements bound to a provider, a service, a resource and a method.
-/

namespace RestSql

/-- The parts of a name by what they name; a part may be empty. -/
structure CallName where
  provider : String
  service : String
  resource : String
  method : String
  deriving DecidableEq, Repr

namespace CallName

/-- The written name, or the other one if none is written. -/
def orElse (written other : String) : String :=
  if written = "" then other else written

/-- The name of a resource, `[provider.]service.resource`. -/
def ofResource (n : Sql.Name) (current : String) : CallName :=
  { provider := orElse n.third current, service := n.second, resource := n.last, method := "" }

/-- The name of a method, `[provider.]service.resource.method`. -/
def ofMethod (n : Sql.Name) (current : String) : CallName :=
  { provider := orElse n.fourth current, service := n.third, resource := n.second, method := n.last }

/-- The parts that are not empty, with dots between them. -/
def text (n : CallName) : String :=
  String.intercalate "." ([n.provider, n.service, n.resource, n.method].filter (· ≠ ""))

end CallName

/-- The providers by the names that statements use. -/
abbrev Providers := Dict Provider

/-- The provider with the given name. -/
def Providers.named (ps : Providers) (name : String) : Except ResolutionError Provider :=
  match Dict.find? ps name with
  | some p => .ok p
  | none => .error (.unknownProvider name)

/-- A method with all that it belongs to. -/
structure Call where
  name : CallName
  provider : Provider
  service : Service
  resource : Resource
  method : Method

namespace Call

/-- The schema with the given name. -/
def schema? (c : Call) (name : Option String) : Option Schema :=
  name.bind (Dict.find? c.service.schemas)

/-- The schema of the request body. -/
def requestSchema? (c : Call) : Option Schema :=
  c.schema? c.method.request

/-- The schema of the response. -/
def responseSchema? (c : Call) : Option Schema :=
  c.schema? c.method.response

/-- The response is an operation that goes on. -/
def returnsOperation (c : Call) : Bool :=
  c.method.response == some c.provider.operationType

/-- The full name of the table. -/
def tableName (c : Call) : String :=
  c.name.provider ++ "." ++ c.service.entry.name ++ "." ++ c.resource.name

/-- The array of the rows in the response, with its key. -/
def rowArray? (c : Call) : Option (String × Schema) :=
  c.responseSchema?.bind fun s => c.service.schemas.rowArray? s c.provider.itemsKey

/-- The method that a name means: the named one, or that which stands for the action. -/
def methodOf (r : Resource) (name action : String) : Except ResolutionError Method :=
  if name = "" then r.methodForAction action else r.methodNamed name

/-- The call that a name means. -/
def resolve (ps : Providers) (name : CallName) (action : String) : Run Call := do
  if name.service = "" ∨ name.resource = "" then
    throw (.resolution (.incompleteName name.text))
  let provider ← Run.ofExcept .resolution (ps.named name.provider)
  let (service, resource) ← provider.resource name.service name.resource
  let method ← Run.ofExcept .resolution (methodOf resource name.method action)
  return { name, provider, service, resource, method }

end Call
end RestSql
