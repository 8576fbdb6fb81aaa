import RestSql.Request
import RestSql.Schema.Payload
import RestSql.Sql.Statement.Reader
import RestSql.Url.Host

/-!
What can go wrong, as causes, and the words for it. Every error belongs to one of five categories.
-/

namespace RestSql

/-- A name of a statement that means nothing, or too much. -/
inductive ResolutionError
  | unknownProvider (name : String)
  | unknownService (key : String)
  | ambiguousService (key : String) (ids : List String)
  | unknownResource (resource service : String)
  | unknownAction (action : String)
  | unknownMethod (method resource : String)
  | notDescribable
  | incompleteName (name : String)
  | unqualifiedMethod (name : String)
  | noServiceNamed
  | noResourceNamed
  deriving DecidableEq, Repr

def ResolutionError.message : ResolutionError → String
  | unknownProvider name => "provider " ++ name ++ " not supported"
  | unknownService key => "Could not find Service: '" ++ key ++ "' from Provider: 'google'"
  | ambiguousService key ids =>
    "ambiguous service '" ++ key ++ "' from Provider: 'google'; candidates are: " ++
      String.intercalate ", " ids
  | unknownResource resource service =>
    "Could not obtain resource '" ++ resource ++ "' from service '" ++ service ++ "'"
  | unknownAction action =>
    "iql action = '" ++ action ++
      "' currently not supported, there is no method mapping possible for any resource"
  | unknownMethod method resource =>
    "no method = '" ++ method ++ "' for resource = '" ++ resource ++ "'"
  | notDescribable =>
    "SELECT not supported for this resource, use SHOW METHODS to view available operations for the resource and then invoke a supported method using the EXEC command"
  | incompleteName name => "could not locate a service and resource in '" ++ name ++ "'"
  | unqualifiedMethod name =>
    "EXEC requires a method qualified by service and resource; got '" ++ name ++ "'"
  | noServiceNamed => "no service designated from which to resolve resources"
  | noResourceNamed => "no resource designated from which to resolve methods"

/-- A statement that does not fit the method that it calls. -/
inductive ValidationError
  | badFilter (e : Sql.Expr)
  | notLiteral (place : String) (e : Sql.Expr)
  | missingParameters (names : List String)
  | unknownColumn (column : String)
  | ambiguousColumn (column method : String)
  | unknownDeleteColumn (column : String)
  | unknownListingColumn (column : String)
  | durationNotInteger (e : Sql.Expr)
  | durationNotPositive (n : Int)
  | starWithoutTable
  | starWithOthers
  | unsuitableSchema
  | rowCount (rows : Nat)
  | valueCount (columns values : Nat)
  | notEqualities
  | payloadNotObject
  | noRequestBody (method : String)
  | payload (e : PayloadError)
  | openPlaceholder (template : String)
  | missingPathParameter (name template : String)
  | badUrl (url : String) (e : UrlError)
  | templateColumn (column : String)
  | templateBody
  deriving Repr

def ValidationError.message : ValidationError → String
  | badFilter e => "unsupported constraint: " ++ e.text
  | notLiteral place e => place ++ " only supports literal values; got '" ++ e.text ++ "'"
  | missingParameters names =>
    "Query cannot be executed, missing required parameters: \x7b " ++ String.intercalate ", " names ++
      " \x7d"
  | unknownColumn column =>
    "column = '" ++ column ++
      "' is NOT present in either the provider data or the method parameters"
  | ambiguousColumn column method =>
    "column = '" ++ column ++ "' is ambiguous: it is both a parameter of method '" ++ method ++
      "' and a field of its response"
  | unknownDeleteColumn column =>
    "DELETE WHERE column = '" ++ column ++ "' is NOT present in data returned from provider"
  | unknownListingColumn column => "SHOW key = '" ++ column ++ "' does NOT exist"
  | durationNotInteger e => "sleep duration must be an integer; got '" ++ e.text ++ "'"
  | durationNotPositive n => "sleep duration " ++ Text.ofInt n ++ " not allowed, must be > 0"
  | starWithoutTable => "SELECT * requires a FROM clause"
  | starWithOthers => "'*' cannot be combined with other select items"
  | unsuitableSchema => "schema unsuitable for select query"
  | rowCount rows => "INSERT supports exactly one row of values; got " ++ Text.ofNat rows
  | valueCount columns values =>
    "number of columns = " ++ Text.ofNat columns ++ " does not match number of values = " ++
      Text.ofNat values
  | notEqualities => "DELETE supports only equality comparisons joined by AND"
  | payloadNotObject => "EXEC payload must be a JSON object"
  | noRequestBody method => "method '" ++ method ++ "' does not accept a request body"
  | payload e => e.message
  | openPlaceholder template => "unterminated placeholder in path '" ++ template ++ "'"
  | missingPathParameter name template =>
    "missing path parameter '" ++ name ++ "' for '" ++ template ++ "'"
  | badUrl url e => "invalid request URL '" ++ url ++ "': " ++ e.message
  | templateColumn column =>
    "cannot generate insert statement: column '" ++ column ++ "' not present"
  | templateBody => "templating of request body only supported for object type payload"

/-- A construct that is understood and not supported. -/
inductive UnsupportedError
  | statement (kind : String)
  | selectItem (e : Sql.Expr)
  | payloadFormat (format : String)
  | listing (kind : String)
  | joins
  deriving Repr

def UnsupportedError.message : UnsupportedError → String
  | statement kind => "statement type = '" ++ kind ++ "' not yet supported"
  | selectItem e => "select item '" ++ e.text ++ "' not supported"
  | payloadFormat format => "payload format '" ++ format ++ "' not supported"
  | listing kind => "SHOW " ++ kind ++ " not supported"
  | joins => "joins not yet supported"

/-- A request that got no response. -/
inductive TransportError
  | noAnswer (verb url : String)
  | noConnection (url : String)
  deriving DecidableEq, Repr

def TransportError.message : TransportError → String
  | noAnswer verb url => "no scripted response for " ++ verb ++ " " ++ url
  | noConnection url => "HTTP request failed: error sending request for url (" ++ url ++ ")"

/-- A file that cannot be read or made. -/
inductive FileError
  | absent
  | isFolder
  /-- A part of the path is a file. -/
  | notFolder
  deriving DecidableEq, Repr

def FileError.message : FileError → String
  | absent => "No such file or directory (os error 2)"
  | isFolder => "Is a directory (os error 21)"
  | notFolder => "Not a directory (os error 20)"

/-- Credentials that cannot be had or used. -/
inductive AuthError
  | noKeyFile
  | unreadableKeyFile (path : String) (e : FileError)
  | badKeyFile
  | badPrivateKey
  | exchangeFailed (e : ResponseError)
  | badTokenResponse
  | noGcloud
  | gcloudFailed (arguments : List String) (output : String)
  | notLoggedIn
  | notAuthenticated
  | notAuthenticatedTo (provider : String)
  | keyNotRevocable
  | badRevocation (kind : String)
  deriving Repr

def AuthError.message : AuthError → String
  | noKeyFile => "service account auth requires a key file path"
  | unreadableKeyFile path e =>
    "could not read service account key file '" ++ path ++ "': " ++ e.message
  | badKeyFile => "invalid service account key file"
  | badPrivateKey => "invalid private key"
  | exchangeFailed e => "token exchange failed: " ++ e.message
  | badTokenResponse => "unexpected token response"
  | noGcloud => "could not run gcloud: " ++ FileError.absent.message
  | gcloudFailed arguments output =>
    "gcloud " ++ String.intercalate " " arguments ++ " failed: " ++ output
  | notLoggedIn => "not authenticated; run 'gcloud auth login' or configure a key file"
  | notAuthenticated => "not authenticated"
  | notAuthenticatedTo provider => "not authenticated to provider '" ++ provider ++ "'"
  | keyNotRevocable =>
    "service account credentials cannot be revoked; remove the key file instead"
  | badRevocation kind =>
    "Auth revoke for Google failed; improper auth method: \"" ++ kind ++ "\" specified"

/-- A setting that cannot be read. -/
inductive ConfigError
  | unreadable (path : String) (e : FileError)
  | unparsable (path : String)
  | unknownKey (key : String)
  | badValue (key value : String)
  deriving DecidableEq, Repr

def ConfigError.message : ConfigError → String
  | unreadable path e => "Failed to read " ++ path ++ ": " ++ e.message
  | unparsable path => "Failed to parse " ++ path
  | unknownKey key => "unknown config key '" ++ key ++ "'"
  | badValue key value => "invalid value '" ++ value ++ "' for '" ++ key ++ "'"

/-- A document about services that cannot be had or read. -/
inductive DiscoveryError
  | badDirectory
  | badDocument
  | notCached (file : String)
  | downloadFailed (url : String) (e : ResponseError)
  deriving Repr

def DiscoveryError.message : DiscoveryError → String
  | badDirectory => "invalid service directory"
  | badDocument => "invalid discovery document"
  | notCached file =>
    "discovery document '" ++ file ++ "' is not cached and offline mode is set"
  | downloadFailed url e => "discovery doc download for '" ++ url ++ "' failed: " ++ e.message

/-- No monitor fits the version of the provider. -/
structure NoMonitor where
  service : String
  resource : String
  method : String
  deriving DecidableEq, Repr

def NoMonitor.message (e : NoMonitor) : String :=
  "monitor primitive unavailable for service = '" ++ e.service ++ "', resource = '" ++ e.resource ++
    "', method = '" ++ e.method ++ "'"

/-- A run that cannot be finished. -/
inductive Fault
  /-- A time beyond the calendar. -/
  | calendar
  /-- More calls than a statement may make. -/
  | patience
  deriving DecidableEq, Repr

def Fault.message : Fault → String
  | calendar => "time out of range"
  | patience => "too many calls"

/-- What went wrong. -/
inductive Error
  | parse (e : Sql.ParseError)
  | resolution (e : ResolutionError)
  | validation (e : ValidationError)
  | unsupported (e : UnsupportedError)
  | status (status : Nat) (body : Json)
  | transport (e : TransportError)
  | noSelfLink
  | auth (e : AuthError)
  | config (e : ConfigError)
  | discovery (e : DiscoveryError)
  | plan (e : NoMonitor)
  | file (e : FileError)
  | json
  | fault (e : Fault)
  deriving Repr

/-- The broad class of an error. -/
inductive ErrorCategory
  | resolution
  | validation
  | transport
  | monitor
  | internal
  deriving DecidableEq, Repr

namespace Error

def ofResponse : ResponseError → Error
  | .status s body => .status s body
  | .notJson => .json

/-- The words for an error. -/
def message : Error → String
  | parse e => "Parse error at position " ++ Text.ofNat e.position ++ ": " ++ e.cause
  | resolution e => e.message
  | validation e => e.message
  | unsupported e => e.message
  | status s body => (ResponseError.status s body).message
  | transport e => "Transport error: " ++ e.message
  | noSelfLink => "cannot execute monitor: no 'selfLink' property present"
  | auth e => "Authentication error: " ++ e.message
  | config e => "Configuration error: " ++ e.message
  | discovery e => "Discovery error: " ++ e.message
  | plan e => e.message
  | file e => "IO error: " ++ e.message
  | json => "JSON error"
  | fault e => e.message

/-- The words for an error, followed by those for its cause if it has one. -/
def messageWithCause (e : Error) : String :=
  match e with
  | file f => e.message ++ ": " ++ f.message
  | _ => e.message

def category : Error → ErrorCategory
  | resolution _ => .resolution
  | parse _ => .validation
  | validation _ => .validation
  | unsupported _ => .validation
  | status _ _ => .transport
  | transport _ => .transport
  | noSelfLink => .monitor
  | _ => .internal

end Error
end RestSql
