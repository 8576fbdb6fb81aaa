import RestSql.Json.Reader
import RestSql.Json.Writer
import RestSql.Text.Cut

/-!
Requests to a provider and their responses.
-/

namespace RestSql

/-- A request. Its verb is in upper case. -/
structure Request where
  verb : String
  url : String
  headers : Dict String
  body : Option String
  deriving DecidableEq, Repr

/-- A response. -/
structure Response where
  status : Nat
  body : String
  deriving DecidableEq, Repr

namespace Request

def make (verb url : String) : Request :=
  { verb := Text.upper verb, url, headers := [], body := none }

/-- A request that reads an address. -/
def read (url : String) : Request :=
  make "GET" url

def withHeader (r : Request) (name value : String) : Request :=
  { r with headers := Dict.put r.headers name value }

/-- The request with several headers more, which win over its own. -/
def withHeaders (r : Request) (headers : Dict String) : Request :=
  headers.foldl (fun r (name, value) => r.withHeader name value) r

/-- The request with a JSON body. -/
def withJson (r : Request) (body : Json) : Request :=
  { r with body := some body.write }.withHeader "Content-Type" "application/json"

/-- The body as JSON, if it is JSON. -/
def json? (r : Request) : Option Json :=
  r.body.bind Json.ofText?

end Request

/-- Why a response has no value. -/
inductive ResponseError
  /-- An error status, with the body. -/
  | status (status : Nat) (body : Json)
  | notJson
  deriving Repr

def ResponseError.message : ResponseError → String
  | status _ body => "HTTP response error: " ++ body.write
  | notJson => "JSON error"

namespace Response

/-- What an empty response stands for. -/
def emptyText : String := "The Operation Completed Successfully"

/-- The least status that is an error. -/
def firstErrorStatus : Nat := 400

/-- A blank of ASCII. -/
def isAsciiBlank (c : Char) : Bool :=
  c = ' ' || c = '\t' || c = '\n' || c = '\x0c' || c = '\r'

/-- The JSON value of the body, that of an empty body included. -/
def json? (r : Response) : Option Json :=
  if r.body.toList.all isAsciiBlank then some (.object [("result", .string emptyText)])
  else Json.ofText? r.body

/-- The value that a response carries. An error status comes with the body, as text if it is no
JSON. -/
def value (r : Response) : Except ResponseError Json :=
  if firstErrorStatus ≤ r.status then .error (.status r.status (r.json?.getD (.string r.body)))
  else match r.json? with
    | some v => .ok v
    | none => .error .notJson

end Response
end RestSql
