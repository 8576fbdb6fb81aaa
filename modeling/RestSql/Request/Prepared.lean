import RestSql.Parameters
import RestSql.PathTemplate
import RestSql.Url.Reader

/-!
Requests that are ready to be sent. The path and the query of the address and the body hold the values
of a statement.
-/

namespace RestSql

/-- The address of a method below `base` for given values. -/
def Method.address (m : Method) (base : String) (p : Parameters) : Except ValidationError String := do
  let path ← PathTemplate.expand m.path p.path
  match Url.ofText (base ++ path) with
  | .error e => .error (.badUrl (base ++ path) e)
  | .ok u => .ok (u.withPairs (p.query.map fun (k, v) => (k, v.urlText))).text

/-- A request with the values that it was made of. Credentials are added when it is sent. -/
structure PreparedRequest where
  parameters : Parameters
  request : Request
  /-- The name of the schema of the body. -/
  requestSchema : Option String
  /-- The name of the schema of the response. -/
  responseSchema : Option String
  deriving Repr

namespace PreparedRequest

/-- The request for a method of a service. Fields of the body among the values replace `payload`. -/
def make (s : Service) (m : Method) (values : Fields) (payload : Option Fields) :
    Except ValidationError PreparedRequest := do
  let schema? (name : Option String) := name.bind (Dict.find? s.schemas)
  let p := Parameters.split values m s.schemas (schema? m.request) (schema? m.response)
  let url ← m.address s.baseAddress p
  let bare := Request.make (if m.verb = "" then "GET" else m.verb) url
  let request := match p.body?.orElse fun _ => payload.map Json.object with
    | some body => bare.withJson body
    | none => bare
  return { parameters := p, request, requestSchema := m.request, responseSchema := m.response }

end PreparedRequest
end RestSql
