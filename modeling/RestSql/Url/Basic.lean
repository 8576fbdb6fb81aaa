import RestSql.Url.Host

/-!
URLs: their parts and their text.
-/

namespace RestSql

/-- Who is addressed: a host, maybe with a user and a port. -/
structure Authority where
  user : String
  password : String
  host : Host
  port : Option Nat
  deriving DecidableEq, Repr

/-- The path of a URL: segments after slashes, or plain text. -/
inductive UrlPath
  | segments (list : List String)
  | plain (text : String)
  deriving DecidableEq, Repr

/-- A URL. -/
structure Url where
  scheme : String
  authority : Option Authority
  path : UrlPath
  query : Option String
  fragment : Option String
  deriving DecidableEq, Repr

namespace Url

/-- The schemes with a host and with their own rules of writing, and their ports. -/
def specialPorts : List (String × Option Nat) :=
  [("http", some 80), ("https", some 443), ("ws", some 80), ("wss", some 443), ("ftp", some 21),
   ("file", none)]

def isSpecial (scheme : String) : Bool :=
  specialPorts.any (·.1 == scheme)

/-- The port of a scheme that need not be written. -/
def defaultPort? (scheme : String) : Option Nat :=
  (specialPorts.find? (·.1 == scheme)).bind (·.2)

end Url

def Authority.text (a : Authority) : String :=
  let user := a.user ++ (if a.password = "" then "" else ":" ++ a.password)
  (if user = "" then "" else user ++ "@") ++ a.host.text ++
    match a.port with
    | some p => ":" ++ Text.ofNat p
    | none => ""

def UrlPath.text : UrlPath → String
  | segments list => String.join (list.map ("/" ++ ·))
  | plain text => text

namespace Url

/-- The path of a URL without an authority may not start with two slashes. -/
def guardText (u : Url) : String :=
  match u.authority, u.path with
  | none, .segments ("" :: _ :: _) => "/."
  | _, _ => ""

/-- The text of a URL. -/
def text (u : Url) : String :=
  u.scheme ++ ":" ++
    (match u.authority with
      | some a => "//" ++ a.text
      | none => "") ++
    u.guardText ++ u.path.text ++
    (match u.query with
      | some q => "?" ++ q
      | none => "") ++
    match u.fragment with
    | some f => "#" ++ f
    | none => ""

/-- The names and values of the query. -/
def pairs (u : Url) : List (String × String) :=
  Percent.formPairs (u.query.getD "").toList

/-- The query with one more pair. -/
def extend (query : String) (name value : String) : String :=
  (if query = "" then "" else query ++ "&") ++ String.ofList (Percent.formPair name value)

/-- The URL with pairs added to its query. -/
def withPairs (u : Url) (pairs : List (String × String)) : Url :=
  match pairs with
  | [] => u
  | pairs => { u with query := some (pairs.foldl (fun q (k, v) => extend q k v) (u.query.getD "")) }

end Url
end RestSql
