import RestSql.Files
import RestSql.Number.Word
import RestSql.ResultSet.Render

/-!
The settings of sessions and of the program around them, with their values at the start.
-/

namespace RestSql

/-- Where errors are shown. -/
inductive ErrorPlace
  | stderr
  /-- Among the results, as a result of their own. -/
  | record
  deriving DecidableEq, Repr

namespace ErrorPlace

def all : List ErrorPlace := [stderr, record]

/-- The word for a place. -/
def word : ErrorPlace → String
  | stderr => "stderr"
  | record => "record"

end ErrorPlace

structure Config where
  /-- The seconds after which a request is given up. -/
  requestTimeout : Nat
  documentCount : Nat
  /-- The hours for which copies of documents are fresh. -/
  documentLifetime : Nat
  colorScheme : String
  /-- The file that the settings come from. -/
  configFile : Option String
  hideHeaders : Bool
  delimiter : Char
  dryRun : Bool
  errorPlace : ErrorPlace
  /-- The file with the statements. -/
  inputFile : Option String
  /-- The key file of a service account. -/
  keyFile : Option String
  logLevel : String
  /-- The file for the results. -/
  outputFile : Option String
  output : OutputFormat
  /-- The folder of the copies of documents. -/
  providerRoot : String
  provider : String
  /-- How many plans are kept. -/
  planCount : Nat
  nonPreferred : Bool
  verbose : Bool
  offline : Bool
  /-- The seconds between two looks at an operation. -/
  pollInterval : Nat
  pageSize : Nat
  pageLimit : Nat
  deriving DecidableEq, Repr

namespace Config

/-- The name of the program's folder in a home folder. -/
def folderName : String := ".cloudql"

/-- The settings at the start, given the home folder. -/
def initial (home : String) : Config :=
  { requestTimeout := 45, documentCount := 100, documentLifetime := 24, colorScheme := "default"
    configFile := none, hideHeaders := false, delimiter := ',', dryRun := false
    errorPlace := .stderr, inputFile := none, keyFile := none, logLevel := "warn"
    outputFile := none, output := .table, providerRoot := Files.join home folderName
    provider := "google", planCount := 10000, nonPreferred := false, verbose := false
    offline := false, pollInterval := 10, pageSize := 0, pageLimit := 0 }

/-- The file of the settings in a home folder. -/
def standardFile (home : String) : String :=
  Files.join (Files.join home folderName) "config.toml"

/-- How written results look. -/
def renderOptions (c : Config) : RenderOptions :=
  { format := c.output, delimiter := c.delimiter, hideHeaders := c.hideHeaders }

/-- The milliseconds for which copies of documents are fresh; the seconds are a number of 64 bits. -/
def documentMilliseconds (c : Config) : Nat :=
  1000 * (c.documentLifetime * 3600 % Word.count)

end Config
end RestSql
