import RestSql.Provider.Basic
import RestSql.Token.Exchange
import RestSql.Token.Gcloud

/-!
Signing in to providers and out again. A token is used again until shortly before it ends, and only
for the credentials that it was given for.
-/

namespace RestSql

/-- How long before its end a token is no longer used, in milliseconds. -/
def Token.margin : Nat := 60 * 1000

/-- The token can be used. -/
def Token.isFresh (t : Token) (now : Nat) : Bool :=
  decide ((now : Int) < t.expiry - margin)

/-- The time until which the token can be used lies before the calendar. -/
def Token.isEarly (t : Token) : Bool :=
  decide (t.expiry - margin < 1000 * calendarStart)

namespace Login

/-- How long a fixed token lasts, in milliseconds. -/
def fixedLifetime : Nat := 60 * 60 * 1000

/-- A new token for credentials. -/
def newToken (c : Credentials) : Run Token :=
  match c.usedKind with
  | .serviceAccount => Token.ofAccount c
  | .interactive => Gcloud.token

/-- The token for credentials: the one at hand while it is fresh, else a new one. One at hand that ends too
early for the calendar cannot be compared with the clock. -/
def token (l : Login) (c : Credentials) : Run Token := do
  match l with
  | .fixed text _ => return ⟨text, (← get).clock + fixedLifetime⟩
  | .google =>
    let context ← get
    if (Dict.find? context.tokens c.cacheKey).any Token.isEarly then throw (.fault .calendar)
    match (Dict.find? context.tokens c.cacheKey).filter (·.isFresh context.clock) with
    | some t => return t
    | none =>
      let t ← newToken c
      modify fun context => { context with tokens := Dict.put context.tokens c.cacheKey t }
      return t

/-- Who the credentials belong to. -/
def principal (l : Login) (c : Credentials) : Run String := do
  match l with
  | .fixed _ principal => return principal
  | .google =>
    match c.usedKind with
    | .serviceAccount => return (← AccountKey.read c.keyFile).email
    | .interactive => Gcloud.account

/-- Makes the credentials worthless. -/
def revoke (l : Login) (c : Credentials) : Run Unit := do
  match l with
  | .fixed _ _ =>
    if c.kind = CredentialKind.serviceAccount.text then throw (.auth .keyNotRevocable)
  | .google =>
    let kind := Text.lower c.kind
    if kind = CredentialKind.serviceAccount.text then throw (.auth .keyNotRevocable)
    else if kind = CredentialKind.interactive.text then
      Gcloud.revoke
      modify fun context => { context with tokens := Dict.drop context.tokens c.cacheKey }
    else throw (.auth (.badRevocation kind))

end Login

namespace Provider

/-- The headers that carry the credentials. -/
def headers (p : Provider) (c : Credentials) : Run (Dict String) := do
  return [("Authorization", "Bearer " ++ (← p.login.token c).text)]

/-- Signs in with credentials of the requested kind. -/
def signIn (p : Provider) (requested : String) : Run Unit := do
  let c ← Run.credentials p.name
  let kind := (c.inferKind requested).text
  let c := { c with kind }
  Run.setCredentials p.name c
  let _ ← p.login.token c
  let principal ← tryCatch (p.login.principal c) fun _ => pure ""
  Run.setCredentials p.name (c.activate principal kind)

/-- Who is signed in, and how. -/
def identity (p : Provider) : Run Identity := do
  let c ← Run.credentials p.name
  let kind := c.usedKind
  let principal ← tryCatch (p.login.principal c) fun _ =>
    throw (.auth (.notAuthenticatedTo googleName))
  Run.setCredentials p.name (c.activate principal kind.text)
  return { principal, kind := Text.upper kind.text
           source := if kind = .serviceAccount then c.keyFile.getD "" else "OAuth" }

/-- Signs out. -/
def signOut (p : Provider) : Run Unit := do
  let c ← Run.credentials p.name
  p.login.revoke c
  Run.setCredentials p.name c.deactivate

/-- Sends a request with the credentials of the provider, and reads the response. -/
def call (p : Provider) (r : Request) : Run Json := do
  let c ← Run.credentials p.name
  let headers ← p.headers c
  let response ← Run.fetch (r.withHeaders headers)
  Run.ofExcept .ofResponse response.value

end Provider
end RestSql
