import RestSql.Text.Cut

/-!
The state of the credentials for a provider: their kind, their key file, and who is signed in with
them.
-/

namespace RestSql

/-- Where a token comes from: a key file of a service account, or the user who is logged in. -/
inductive CredentialKind
  | serviceAccount
  | interactive
  deriving DecidableEq, Repr

def CredentialKind.text : CredentialKind → String
  | serviceAccount => "serviceaccount"
  | interactive => "interactive"

/-- The state of credentials. -/
structure Credentials where
  scopes : List String
  /-- The kind as it was last set, maybe not one of the known ones. -/
  kind : String
  /-- Who is signed in, once known. -/
  principal : String
  keyFile : Option String
  active : Bool
  deriving DecidableEq, Repr

namespace Credentials

/-- The scope that is asked for if none is given. -/
def defaultScope : String := "https://www.googleapis.com/auth/cloud-platform"

/-- Credentials that nobody has signed in with yet. -/
def make (scopes : List String) (keyFile : Option String) : Credentials :=
  { scopes
    kind := if keyFile.isSome then CredentialKind.serviceAccount.text
      else CredentialKind.interactive.text
    principal := "", keyFile, active := false }

/-- The requested kind if it is known, else that of a service account if there is a key file. -/
def inferKind (c : Credentials) (requested : String) : CredentialKind :=
  let requested := Text.lower requested
  if requested = CredentialKind.serviceAccount.text then .serviceAccount
  else if requested = CredentialKind.interactive.text then .interactive
  else if c.keyFile.isSome then .serviceAccount
  else .interactive

/-- The kind that the credentials are used with. -/
def usedKind (c : Credentials) : CredentialKind :=
  c.inferKind c.kind

/-- The credentials after a sign-in. A principal that is not known changes nothing. -/
def activate (c : Credentials) (principal kind : String) : Credentials :=
  { c with active := true, kind, principal := if principal = "" then c.principal else principal }

def deactivate (c : Credentials) : Credentials :=
  { c with active := false }

/-- The scopes to ask for. -/
def effectiveScopes (c : Credentials) : List String :=
  if c.scopes.isEmpty then [defaultScope] else c.scopes

/-- The key under which a token for the credentials is kept. -/
def cacheKey (c : Credentials) : String :=
  c.usedKind.text ++ ":" ++ c.keyFile.getD ""

end Credentials
end RestSql
