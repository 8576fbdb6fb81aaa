import RestSql.Context
import RestSql.Json.Decoder

/-!
Key files of service accounts.
-/

namespace RestSql

/-- The content of a key file. -/
structure AccountKey where
  email : String
  privateKey : String
  /-- Where tokens are asked for. -/
  tokenAddress : Option String
  deriving DecidableEq, Repr

namespace AccountKey

open Json (Decoder Record)

/-- Where tokens are asked for if the key file does not say. -/
def defaultTokenAddress : String := "https://oauth2.googleapis.com/token"

def address (k : AccountKey) : String :=
  k.tokenAddress.getD defaultTokenAddress

def decoder : Decoder AccountKey := fun depth t => do
  let r ← Record.ofTree? ["client_email", "private_key", "token_uri"] depth t
  let email ← r.required? "client_email" Decoder.text
  let privateKey ← r.required? "private_key" Decoder.text
  let tokenAddress ← r.field? "token_uri" (Decoder.optional Decoder.text) none
  return { email, privateKey, tokenAddress }

/-- The key in a file. -/
def read (path : Option String) : Run AccountKey := do
  match path with
  | none => throw (.auth .noKeyFile)
  | some path =>
    match (← get).files.read path with
    | .error e => throw (.auth (.unreadableKeyFile path e))
    | .ok f =>
      match Json.decode? decoder f.text with
      | none => throw (.auth .badKeyFile)
      | some k => return k

end AccountKey
end RestSql
