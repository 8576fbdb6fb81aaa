import RestSql.Credentials
import RestSql.Files
import RestSql.Network
import RestSql.Service.Basic

/-!
What statements run in: the network, the files, the clock and the other programs that they meet, and
the state that they leave behind. A run that fails keeps what it did until then.
-/

namespace RestSql

/-- What another program prints, and how it ends. -/
structure CommandResult where
  output : String
  errors : String
  code : Int
  deriving DecidableEq, Repr

/-- Documents about services that were read already. -/
structure Library where
  directory : Option (List ServiceEntry)
  /-- Services by their ids. -/
  services : Dict Service

def Library.empty : Library := ⟨none, []⟩

/-- A token that gives access for some time. -/
structure Token where
  text : String
  /-- When it ends, in milliseconds. -/
  expiry : Int
  deriving DecidableEq, Repr

/-- What statements run in. -/
structure Context where
  network : Network
  /-- The requests that were sent, the latest first. -/
  sent : List Request
  files : Files
  /-- What the login program does, by its arguments; nothing if there is no such program. -/
  gcloud : Option (Dict CommandResult)
  /-- Signs a text with a key. -/
  sign : String → String → String
  /-- The time in milliseconds. -/
  clock : Nat
  /-- What was read about the services of a provider. -/
  libraries : Dict Library
  tokens : Dict Token
  /-- The credentials for each provider, by its name. -/
  credentials : Dict Credentials
  /-- The key file of new credentials. -/
  keyFile : Option String
  /-- The provider of names that do not name one. -/
  current : String
  /-- The lines that were reported, the latest first. -/
  reported : List String

/-- A computation in a context, which may fail. -/
abbrev Run (α : Type) := ExceptT Error (StateM Context) α

namespace Context

/-- A context in which nothing has happened. -/
def initial (network : Network) (current : String) : Context :=
  { network, sent := [], files := [], gcloud := none, sign := fun _ _ => "", clock := 0
    libraries := [], tokens := [], credentials := [], keyFile := none, current, reported := [] }

/-- The credentials for a provider. -/
def credentialsOf (c : Context) (provider : String) : Credentials :=
  (Dict.find? c.credentials provider).getD (.make [] c.keyFile)

def setCredentials (c : Context) (provider : String) (value : Credentials) : Context :=
  { c with credentials := Dict.put c.credentials provider value }

def libraryOf (c : Context) (provider : String) : Library :=
  (Dict.find? c.libraries provider).getD .empty

def setLibrary (c : Context) (provider : String) (value : Library) : Context :=
  { c with libraries := Dict.put c.libraries provider value }

end Context

namespace Run

/-- Fails with the error that a value stands for. -/
def ofExcept {α ε : Type} (wrap : ε → Error) : Except ε α → Run α
  | .ok a => pure a
  | .error e => throw (wrap e)

/-- Sends a request as it is. -/
def fetch (r : Request) : Run Response := do
  let c ← get
  set { c with sent := r :: c.sent }
  ofExcept .transport (c.network.answer c.sent r)

/-- The credentials for a provider, made on first use. -/
def credentials (provider : String) : Run Credentials := do
  let c ← get
  let value := c.credentialsOf provider
  set (c.setCredentials provider value)
  return value

def setCredentials (provider : String) (value : Credentials) : Run Unit :=
  modify (·.setCredentials provider value)

/-- Reports a line. -/
def report (line : String) : Run Unit :=
  modify fun c => { c with reported := line :: c.reported }

/-- Lets time pass. -/
def wait (milliseconds : Nat) : Run Unit :=
  modify fun c => { c with clock := c.clock + milliseconds }

end Run
end RestSql
