import RestSql.CommandLine.Arguments
import RestSql.ResultSet.Render

/-!
What the program says about itself: its version, and its commands and options with a line about each.
-/

namespace RestSql

/-- The name of the program and its version. -/
def versionText : String := "cloudql 0.3.0\n"

namespace Command

/-- What the command does. -/
def summary : Command → String
  | exec => "Execute one or more `;`-separated statements"
  | shell => "Interactive shell; statements end with `;`"
  | explain => "Show the plan for each statement without executing it"

/-- The operand in the usage of the command. -/
def operandUsage : Command → String
  | exec => " [QUERY]"
  | shell => ""
  | explain => " <QUERY>"

/-- The lines about the operand of the command. -/
def operandLines : Command → List String
  | exec => ["Arguments:", "  [QUERY]", "          The statements to run", ""]
  | shell => []
  | explain => ["Arguments:", "  <QUERY>", "          The statements to explain", ""]

/-- A command with what it does. -/
def line (c : Command) : String :=
  "  " ++ ResultSet.pad 9 c.name ++ c.summary

end Command

namespace Setting

/-- What the setting does, as an option. -/
def summary (s : Setting) : String :=
  match s.key with
  | "configfile" => "Config file (default ~/.cloudql/config.toml)"
  | "provider" => "Default provider for unqualified table names"
  | "keyfilepath" => "Service account key file"
  | "output" => "Output format"
  | "outfile" => "Write results to this file instead of stdout"
  | "delimiter" => "CSV field delimiter"
  | "hideheaders" => "Omit column headers"
  | "dryrun" => "Show the requests instead of sending them"
  | "errorpresentation" => "Where errors are rendered"
  | "loglevel" => "Log filter, e.g. `debug` or `cloudql=trace`"
  | "offline" => "Never fetch discovery documents over the network"
  | "providerroot" => "Root directory for cached discovery documents"
  | "usenonpreferredapis" => "Include non-preferred API versions"
  | "pollinterval" => "Seconds between polls of long-running operations"
  | "maxresults" => "Page size hint for SELECT"
  | "pagelimit" => "Maximum pages fetched per SELECT"
  | "apirequesttimeout" => "Per-request timeout in seconds"
  | "querycachesize" => "Capacity of the plan cache"
  | "verbose" => "Verbose output"
  | "infile" => "Read statements from a file instead"
  | _ => ""

/-- The letter of the option, with room for it if there is none. -/
def letterText (s : Setting) : String :=
  match Arguments.letters.find? (·.2 == s.key) with
  | some (c, _) => "  -" ++ c.toString ++ ", "
  | none => "      "

/-- What is said about the values of the option besides. -/
def valueNotes (s : Setting) : List String :=
  (if s.key = "keyfilepath" then ["[env: CLOUDQL_KEYFILE=]"] else []) ++
    match s.kind with
    | .choice _ options =>
      ["[possible values: " ++ String.intercalate ", " (options.map (·.1)) ++ "]"]
    | _ => []

/-- What the words of the option mean, where they are explained. -/
def wordNotes (s : Setting) : List String :=
  if s.key = "errorpresentation" then
    ["", "          Possible values:", "          - stderr: Errors go to stderr",
     "          - record: Errors are rendered as a result record"]
  else []

/-- The lines about the option. -/
def helpLines (long : Bool) (s : Setting) : List String :=
  let value := match s.kind with
    | .flag _ _ => ""
    | _ => " <" ++ Text.upper s.name ++ ">"
  (s.letterText ++ "--" ++ s.key ++ value) ::
    (if long then
      match s.wordNotes with
      | [] => ("          " ++ s.summary) :: s.valueNotes.flatMap fun note =>
        ["          ", "          " ++ note]
      | words => ("          " ++ s.summary) :: words
    else [String.intercalate " " (("          " ++ s.summary) :: s.valueNotes)])

end Setting

/-- The options of a command, its own ones first. -/
def optionsOf (command : Option Command) : List Setting :=
  let keys := { Arguments.empty with command }.optionKeys
  (keys.filter (!Arguments.commonKeys.contains ·) ++ Arguments.commonKeys).filterMap Setting.named?

/-- The lines about options, with blank lines between them in a long text. -/
def optionLines (command : Option Command) (long : Bool) : List String :=
  let hint := if long then " (see a summary with '-h')" else " (see more with '--help')"
  let version := if command = none then [["  -V, --version", "          Print version"]] else []
  let entries := (optionsOf command).map (·.helpLines long) ++
    [["  -h, --help", "          Print help" ++ hint]] ++ version
  List.intercalate (if long then [""] else []) entries

/-- What is said about the program, or about one of its commands. -/
def helpText (command : Option Command) (long : Bool) : String :=
  let lines := match command with
    | none =>
      ["Query cloud provider REST APIs with SQL", "", "Usage: cloudql [OPTIONS] <COMMAND>", "",
       "Commands:"] ++ Command.all.map Command.line ++
      ["  help     Print this message or the help of the given subcommand(s)", "", "Options:"] ++
      optionLines none long ++
      ["", "EXAMPLES:", "    cloudql exec \"SHOW SERVICES IN google LIKE 'comp%'\"",
       "    cloudql exec --keyfilepath sa.json \"SELECT name FROM compute.networks WHERE project = 'p'\"",
       "    cloudql --output csv exec --infile queries.iql"]
    | some c =>
      [c.summary, "", "Usage: cloudql " ++ c.name ++ " [OPTIONS]" ++ c.operandUsage, ""] ++
      c.operandLines ++ ["Options:"] ++ optionLines (some c) long
  String.intercalate "\n" lines ++ "\n"

end RestSql
