import RestSql.Row
import RestSql.Schema.Basic

/-!
What a provider offers: services with their resources, the methods of a resource, and the parameters
of a method.
-/

namespace RestSql

/-- Where a parameter travels in a request. -/
inductive ParameterPlace
  | path
  | query
  deriving DecidableEq, Repr

structure Parameter where
  name : String
  kind : String
  format : String
  place : ParameterPlace
  required : Bool
  description : String
  deriving DecidableEq, Repr

/-- A call that a resource offers. -/
structure Method where
  id : String
  name : String
  /-- The path below the base address of the service, with placeholders. -/
  path : String
  verb : String
  description : String
  parameters : Dict Parameter
  parameterOrder : List String
  /-- The name of the schema of the request. -/
  request : Option String
  /-- The name of the schema of the response. -/
  response : Option String
  deriving DecidableEq, Repr

structure Resource where
  id : String
  name : String
  title : String
  description : String
  methods : Dict Method
  deriving Repr

/-- A service as the directory lists it. -/
structure ServiceEntry where
  id : String
  name : String
  title : String
  description : String
  version : String
  preferred : Bool
  documentAddress : String
  documentation : String
  deriving DecidableEq, Repr

/-- A service with its resources and schemas. -/
structure Service where
  entry : ServiceEntry
  baseAddress : String
  resources : Dict Resource
  schemas : SchemaSet
  deriving Repr

/-- Who is signed in to a provider, and how. -/
structure Identity where
  principal : String
  kind : String
  source : String
  deriving DecidableEq, Repr

namespace Method

def parameter? (m : Method) (name : String) : Option Parameter :=
  Dict.find? m.parameters name

/-- The names of the required parameters, in order. -/
def requiredNames (m : Method) : List String :=
  (m.parameters.filter fun e => e.2.required).map Prod.fst

/-- The columns of a method in a listing. -/
def listColumns (extended : Bool) : List String :=
  ["MethodName", "RequiredParams"] ++ if extended then ["MethodDescription"] else []

/-- A method in a listing. -/
def listRow (m : Method) (extended : Bool) : Row :=
  Row.ofTexts <| [("MethodName", m.name), ("RequiredParams", String.intercalate ", " m.requiredNames)] ++
    if extended then [("MethodDescription", m.description)] else []

end Method

namespace Resource

def method? (r : Resource) (name : String) : Option Method :=
  Dict.find? r.methods name

/-- The columns of a resource in a listing. -/
def listColumns (extended : Bool) : List String :=
  ["name", "id", "title"] ++ if extended then ["description"] else []

/-- A resource in a listing. -/
def listRow (r : Resource) (extended : Bool) : Row :=
  Row.ofTexts <| [("name", r.name), ("id", r.id), ("title", r.title)] ++
    if extended then [("description", r.description)] else []

end Resource

namespace ServiceEntry

/-- The columns of a service in a listing. -/
def listColumns (extended : Bool) : List String :=
  ["id", "name", "title"] ++ if extended then ["description", "version", "preferred"] else []

/-- A service in a listing. -/
def listRow (s : ServiceEntry) (extended : Bool) : Fields :=
  let row := Row.ofTexts [("id", s.id), ("name", s.name), ("title", s.title)]
  if extended then
    Dict.put (Dict.put (Dict.put row "description" (.string s.description)) "version"
      (.string s.version)) "preferred" (.bool s.preferred)
  else row

end ServiceEntry

namespace Service

def resource? (s : Service) (name : String) : Option Resource :=
  Dict.find? s.resources name

end Service

namespace Identity

def listColumns : List String :=
  ["principal", "type", "source"]

def listRow (i : Identity) : Row :=
  Row.ofTexts [("principal", i.principal), ("type", i.kind), ("source", i.source)]

end Identity

namespace ServiceId

/-- A service id as statements write it: two underscores for each colon. -/
def toSql (id : String) : String :=
  String.ofList (Text.replace [':'] ['_', '_'] id.toList)

/-- A service id as the provider writes it: a colon for every two underscores. -/
def toProvider (id : String) : String :=
  String.ofList (Text.replace ['_', '_'] [':'] id.toList)

end ServiceId
end RestSql
