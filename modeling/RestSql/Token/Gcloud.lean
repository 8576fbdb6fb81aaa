import RestSql.Context
import RestSql.Text.Blank

/-!
The login program, which knows the user who is logged in.
-/

namespace RestSql.Gcloud

/-- What the program prints for some arguments, trimmed. -/
def call (arguments : List String) : Run String := do
  match (← get).gcloud with
  | none => throw (.auth .noGcloud)
  | some results =>
    match Dict.find? results (String.intercalate " " arguments) with
    | none => return ""
    | some r =>
      if r.code = 0 then return Text.trimmed r.output
      else throw (.auth (.gcloudFailed arguments (Text.trimmed r.errors)))

/-- How long a token of the user lasts, in milliseconds. -/
def tokenLifetime : Nat := 30 * 60 * 1000

/-- A token of the user. -/
def token : Run Token := do
  let text ← call ["auth", "print-access-token"]
  if text = "" then throw (.auth .notLoggedIn)
  return ⟨text, (← get).clock + tokenLifetime⟩

/-- The name of the user. -/
def account : Run String := do
  let name ← call ["config", "get-value", "account"]
  if name = "" then throw (.auth .notAuthenticated)
  return name

/-- Logs the user out. -/
def revoke : Run Unit := do
  let _ ← call ["auth", "revoke"]

end RestSql.Gcloud
