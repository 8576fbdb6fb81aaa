import RestSql.Json.Decoder
import RestSql.Schema.Reader
import RestSql.Service.Basic

/-!
Discovery documents: the description of a service with its schemas and its tree of resources. The
resources are flattened, each named by the dotted path to its node.
-/

namespace RestSql

open Json (Decoder Record)

/-- A node of the tree of resources. -/
inductive ResourceNode
  | node (methods : Dict Method) (children : List (String × ResourceNode))

/-- A discovery document. -/
structure Document where
  id : String
  name : String
  version : String
  title : String
  description : String
  baseUrl : String
  rootUrl : String
  servicePath : String
  documentation : String
  resources : Dict ResourceNode
  schemas : Fields

namespace Document

/-- A parameter; its name is the key that it stands under. -/
def parameterDecoder : Decoder Parameter := fun depth t => do
  let r ← Record.ofTree? ["type", "format", "location", "required", "description"] depth t
  let kind ← r.text? "type"
  let format ← r.text? "format"
  let location ← r.text? "location"
  let required ← r.field? "required" Decoder.flag false
  let description ← r.text? "description"
  return { name := "", kind, format, place := if location = "path" then .path else .query
           required, description }

/-- The name of a schema. -/
def refDecoder : Decoder String := fun depth t => do
  let r ← Record.ofTree? ["$ref"] depth t
  r.required? "$ref" Decoder.text

/-- A method; its name is the key that it stands under. -/
def methodDecoder : Decoder Method := fun depth t => do
  let r ← Record.ofTree? ["id", "path", "httpMethod", "description", "parameters", "parameterOrder",
    "request", "response"] depth t
  let id ← r.text? "id"
  let path ← r.text? "path"
  let verb ← r.text? "httpMethod"
  let description ← r.text? "description"
  let parameters ← r.field? "parameters" (Decoder.dict parameterDecoder) []
  let parameterOrder ← r.field? "parameterOrder" (Decoder.list Decoder.text) []
  let request ← r.field? "request" (Decoder.optional refDecoder) none
  let response ← r.field? "response" (Decoder.optional refDecoder) none
  return { id, name := "", path, verb := Text.upper verb, description
           parameters := parameters.map fun (k, p) => (k, { p with name := k })
           parameterOrder, request, response }

/-- A node of the tree of resources; the first argument bounds the levels. -/
def nodeDecoder : Nat → Decoder ResourceNode
  | 0, _, _ => none
  | levels + 1, depth, t => do
    let r ← Record.ofTree? ["methods", "resources"] depth t
    let methods ← r.field? "methods" (Decoder.dict methodDecoder) []
    let children ← r.field? "resources" (Decoder.dict (nodeDecoder levels)) []
    return .node (methods.map fun (k, m) => (k, { m with name := k })) children

def decoder : Decoder Document := fun depth t => do
  let r ← Record.ofTree? ["id", "name", "version", "title", "description", "baseUrl", "rootUrl",
    "servicePath", "documentationLink", "resources", "schemas"] depth t
  let id ← r.text? "id"
  let name ← r.text? "name"
  let version ← r.text? "version"
  let title ← r.text? "title"
  let description ← r.text? "description"
  let baseUrl ← r.text? "baseUrl"
  let rootUrl ← r.text? "rootUrl"
  let servicePath ← r.text? "servicePath"
  let documentation ← r.text? "documentationLink"
  let resources ← r.field? "resources" (Decoder.dict (nodeDecoder depth)) []
  let schemas ← r.field? "schemas" (Decoder.dict Decoder.value) []
  return { id, name, version, title, description, baseUrl, rootUrl, servicePath, documentation
           resources, schemas }

/-- The document that a text is. -/
def ofText? (text : String) : Option Document :=
  Json.decode? decoder text

/-- The schemas of the document. -/
def schemaSet (d : Document) : SchemaSet :=
  d.schemas.map fun (name, v) => (name, Schema.ofJson name v)

/-- The name of the schema that describes a resource: what `get` or `list` returns or takes, else what
the first method does that has a schema. -/
def describedBy? (methods : Dict Method) : Option String :=
  ((["get", "list"].filterMap (Dict.find? methods ·)) ++ Dict.values methods).findSome? fun m =>
    m.response.orElse fun _ => m.request

/-- A resource with the title and the description of its schema. -/
def resourceOf (service : String) (schemas : SchemaSet) (name : String) (methods : Dict Method) :
    Resource :=
  let (title, description) := match describedBy? methods with
    | some kind => (kind, ((Dict.find? schemas kind).map Schema.description).getD "")
    | none => (name, "")
  { id := service ++ "." ++ name, name, title, description, methods }

/-- The name of a node below the node `parent`, whose name is empty at the top. -/
def childName (parent key : String) : String :=
  if parent = "" then key else parent ++ "." ++ key

mutual

/-- The nodes with methods of a tree, by their dotted names, each before the nodes below it. -/
def flatten (name : String) : ResourceNode → List (String × Dict Method)
  | .node methods children =>
    (if methods.isEmpty then [] else [(name, methods)]) ++ flattenEach name children

def flattenEach (parent : String) : List (String × ResourceNode) → List (String × Dict Method)
  | [] => []
  | (key, node) :: rest => flatten (childName parent key) node ++ flattenEach parent rest

end

/-- The service that the document describes. Its entry is that of the directory, if there is one. -/
def toService (d : Document) (entry : Option ServiceEntry) : Service :=
  let id := ServiceId.toSql d.id
  let schemas := d.schemaSet
  { entry := entry.getD
      { id, name := d.name, title := d.title, description := d.description, version := d.version
        preferred := true, documentAddress := "", documentation := d.documentation }
    baseAddress := if d.baseUrl = "" then d.rootUrl ++ d.servicePath else d.baseUrl
    resources := Dict.ofEntries ((flattenEach "" d.resources).map fun (name, methods) =>
      (name, resourceOf id schemas name methods))
    schemas }

end Document
end RestSql
