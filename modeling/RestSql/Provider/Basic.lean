import RestSql.Credentials
import RestSql.Error
import RestSql.Service.Basic

/-!
Providers: where their services come from, how they are signed in to, and which methods stand for the
verbs of statements.
-/

namespace RestSql

/-- Where the documents about services are fetched and kept. -/
structure DocumentSource where
  /-- The address of the directory. -/
  directory : String
  /-- The folder of the copies. -/
  folder : String
  /-- How long a copy is fresh, in milliseconds. -/
  lifetime : Nat
  /-- Copies are always fresh, and nothing is fetched. -/
  offline : Bool
  deriving DecidableEq, Repr

/-- The services of a provider: at hand, or described by documents. -/
inductive Catalog
  | loaded (directory : List ServiceEntry) (services : Dict Service)
  | documents (source : DocumentSource)

/-- How a provider is signed in to: with a fixed token, or with tokens that are asked for. -/
inductive Login
  | fixed (token principal : String)
  | google
  deriving DecidableEq, Repr

/-- A provider. -/
structure Provider where
  name : String
  version : String
  /-- The usual key of the rows in a response. -/
  itemsKey : String
  /-- The name of the schema of operations that go on after the response. -/
  operationType : String
  /-- Services that are not the preferred version are offered too. -/
  nonPreferred : Bool
  catalog : Catalog
  login : Login

namespace Provider

/-- The name of the provider that is known. -/
def googleName : String := "google"

def google (catalog : Catalog) (login : Login) (nonPreferred : Bool) : Provider :=
  { name := googleName, version := "v1", itemsKey := "items", operationType := "Operation"
    nonPreferred, catalog, login }

/-- The provider offers the service by its name. -/
def offers (p : Provider) (e : ServiceEntry) : Bool :=
  e.preferred || p.nonPreferred

/-- The service that `key` names: the only one with it as its id, else the only one on offer with it
as its name. -/
def select (p : Provider) (directory : List ServiceEntry) (key : String) :
    Except ResolutionError ServiceEntry :=
  match directory.filter fun e => e.id == ServiceId.toSql key with
  | [e] => .ok e
  | _ =>
    match directory.filter fun e => e.name == key && p.offers e with
    | [e] => .ok e
    | [] => .error (.unknownService key)
    | es => .error (.ambiguousService key (es.map (·.id)))

/-- The columns that a bare LIKE looks at, by what is shown. -/
def likeableColumns (kind : String) : List String :=
  let kind := Text.upper kind
  if kind = "SERVICES" ∨ kind = "RESOURCES" then ["id", "name"]
  else if kind = "METHODS" then ["MethodName"]
  else if kind = "PROVIDERS" then ["name"]
  else []

end Provider

namespace Resource

/-- The method with the given name. -/
def methodNamed (r : Resource) (name : String) : Except ResolutionError Method :=
  match r.method? name with
  | some m => .ok m
  | none => .error (.unknownMethod name r.name)

/-- The method that stands for the verb of a statement. -/
def methodForAction (r : Resource) (action : String) : Except ResolutionError Method :=
  let action := Text.lower action
  if action = "select" then r.methodNamed "list"
  else if action = "delete" then r.methodNamed "delete"
  else if action = "insert" then r.methodNamed "insert"
  else .error (.unknownAction action)

/-- The methods that describe a resource, the best one first. -/
def describers (r : Resource) : List Method :=
  ["get", "aggregatedList", "list"].filterMap r.method? ++
    Dict.values (r.methods.filter fun e =>
      (Text.rest? "get" e.1).isSome || (Text.rest? "list" e.1).isSome)

/-- The method that describes the resource. -/
def describeMethod (r : Resource) : Except ResolutionError Method :=
  match r.describers with
  | m :: _ => .ok m
  | [] => .error .notDescribable

end Resource
end RestSql
