import RestSql.Number.Word
import RestSql.Token.KeyFile
import RestSql.Token.PrivateKey
import RestSql.Url.Percent

/-!
Tokens for service accounts. A signed assertion, which names the account and the scopes, is exchanged
for a token.
-/

namespace RestSql

/-- The parts of an assertion: JSON texts as digits, with a dot between them. -/
def assertionPart (v : Json) : String :=
  String.ofList (Base64.urlSafe.encode (Text.utf8 v.write.toList))

/-- What an assertion claims. -/
structure Claims where
  email : String
  scopes : List String
  audience : String
  /-- When it was made, in seconds. -/
  time : Nat
  deriving DecidableEq, Repr

namespace Claims

/-- How long an assertion holds, in seconds. -/
def lifetime : Nat := 3600

def toJson (c : Claims) : Json :=
  .ofFields [("iss", .string c.email), ("scope", .string (String.intercalate " " c.scopes)),
    ("aud", .string c.audience), ("iat", .ofNat c.time), ("exp", .ofNat (c.time + lifetime))]

/-- How assertions are signed. -/
def header : Json :=
  .ofFields [("typ", .string "JWT"), ("alg", .string "RS256")]

/-- The assertion with its signature. -/
def assertion (c : Claims) (sign : String → String) : String :=
  let text := assertionPart header ++ "." ++ assertionPart c.toJson
  text ++ "." ++ sign text

end Claims

namespace Token

/-- The kind of the exchange. -/
def grantKind : String := "urn:ietf:params:oauth:grant-type:jwt-bearer"

/-- The request that exchanges an assertion. -/
def exchangeRequest (address assertion : String) : Request :=
  let form := Percent.formPair "grant_type" grantKind ++ '&' :: Percent.formPair "assertion" assertion
  { (Request.make "POST" address).withHeader "Content-Type" "application/x-www-form-urlencoded" with
    body := some (String.ofList form) }

/-- How long a token lasts if the response does not say, in seconds. -/
def defaultLifetime : Int := 3600

/-- A number of seconds of 64 bits. -/
def seconds? : Json → Option Int
  | .number (.integer n) => if Word.isSigned n then some n else none
  | _ => none

/-- The token in a response, and how long it lasts, in seconds. -/
def ofResponse? : Json → Option (String × Int)
  | .object fields => do
    let text ← (Dict.find? fields "access_token").bind Json.text?
    let lifetime ← match Dict.find? fields "expires_in" with
      | some v => seconds? v
      | none => some defaultLifetime
    return (text, lifetime)
  | .array [.string text] => some (text, defaultLifetime)
  | .array [.string text, v] => (seconds? v).map fun n => (text, n)
  | _ => none

/-- The most seconds that an interval may have. -/
def maxInterval : Int := 9223372036854775

/-- The first and the last second of the calendar. -/
def calendarStart : Int := -8334601228800
def calendarEnd : Int := 8210266876799

/-- The end of an interval that starts now, in milliseconds. -/
def expiryAfter (now : Nat) (seconds : Int) : Except Fault Int :=
  let expiry := now + 1000 * seconds
  if seconds.natAbs ≤ maxInterval.toNat ∧ 1000 * calendarStart ≤ expiry ∧
      expiry ≤ 1000 * calendarEnd + 999 then
    .ok expiry
  else .error .calendar

/-- A new token for a service account. -/
def ofAccount (c : Credentials) : Run Token := do
  let key ← AccountKey.read c.keyFile
  let context ← get
  if !PrivateKey.isValid key.privateKey then throw (.auth .badPrivateKey)
  let claims : Claims :=
    { email := key.email, scopes := c.effectiveScopes, audience := key.address
      time := context.clock / 1000 }
  let assertion := claims.assertion (context.sign key.privateKey)
  let response ← Run.fetch (exchangeRequest key.address assertion)
  let body ← Run.ofExcept (fun e => .auth (.exchangeFailed e)) response.value
  match ofResponse? body with
  | none => throw (.auth .badTokenResponse)
  | some (text, seconds) =>
    let expiry ← Run.ofExcept .fault (expiryAfter context.clock seconds)
    return ⟨text, expiry⟩

end Token
end RestSql
