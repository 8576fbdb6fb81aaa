import RestSql.CommandLine.Arguments
import RestSql.CommandLine.Help
import RestSql.CommandLine.Printer
import RestSql.Session

/-!
The program: it reads its arguments and settings, executes or explains statements, and prints what comes
of them. A run is a function from what the program meets to what it leaves behind.
-/

namespace RestSql

/-- What the program meets. -/
structure Surroundings where
  home : String
  /-- The key file that the environment names. -/
  keyFile : Option String
  input : String
  files : Files
  network : Network
  gcloud : Option (Dict CommandResult)
  sign : String → String → String
  /-- The time in milliseconds. -/
  clock : Nat

/-- What the program leaves behind. -/
structure Outcome where
  code : Nat
  output : String
  errors : String
  files : Files

/-- Why the program gives up. -/
inductive ProgramError
  | settings (e : ConfigError)
  | settingsFile (path : String) (e : ConfigError)
  | inputFile (path : String) (e : FileError)
  | outputFile (path : String) (e : FileError)
  | noStatements
  | statement (e : Error)

def ProgramError.message : ProgramError → String
  | settings e => (Error.config e).message
  | settingsFile path e => "loading " ++ path ++ ": " ++ (Error.config e).message
  | inputFile path e => "reading " ++ path ++ ": " ++ e.message
  | outputFile path e => "creating " ++ path ++ ": " ++ e.message
  | noStatements => "no query given; pass one or use --infile"
  | statement e => e.messageWithCause

/-- A running program: its session, and what it has printed. -/
structure Desk where
  session : Session
  output : String
  errors : String

/-- A part of a run, after which the program goes on or gives up. -/
abbrev Program (α : Type) := ExceptT ProgramError (StateM Desk) α

/-- The provider that the program knows. -/
def Provider.ofConfig (c : Config) : Provider :=
  .google (.documents
    { directory := "https://www.googleapis.com/discovery/v1/apis"
      folder := Files.join (Files.join c.providerRoot googleName) "v1"
      lifetime := c.documentMilliseconds
      offline := c.offline }) .google c.nonPreferred

namespace Surroundings

/-- The context of the program's session. -/
def context (w : Surroundings) (provider : String) : Context :=
  { Context.initial w.network provider with
    files := w.files, gcloud := w.gcloud, sign := w.sign, clock := w.clock }

/-- The settings of a file that is named, or of the standard file if there is one. -/
def fileSettings (w : Surroundings) (named : Option String) : Except ProgramError Config :=
  match named with
  | some path => (Config.load w.home w.files path).mapError (.settingsFile path)
  | none =>
    let path := Config.standardFile w.home
    if w.files.has path then (Config.load w.home w.files path).mapError .settings
    else .ok (.initial w.home)

/-- The settings of a run: those of a file, of the environment, and of the arguments, each before the
ones that come after. -/
def settings (w : Surroundings) (i : Invocation) : Except ProgramError Config := do
  let c ← w.fileSettings (i.given? "configfile")
  return i.apply { c with keyFile := w.keyFile.orElse fun _ => c.keyFile }

/-- The desk of a run that begins. -/
def desk (w : Surroundings) (c : Config) : Desk :=
  { session := .start c [(Provider.googleName, .ofConfig c)] (w.context c.provider)
    output := "", errors := "" }

end Surroundings

namespace Program

/-- Prints texts, results to the file for them if there is one. -/
def put (c : Config) (p : Printed) : Program Unit :=
  modify fun d =>
    let d := { d with errors := d.errors ++ p.remarks }
    match c.outputFile with
    | none => { d with output := d.output ++ p.results }
    | some path =>
      { d with session.context.files := d.session.context.files.append path p.results }

/-- Prints a text to the reader. -/
def say (text : String) : Program Unit :=
  modify fun d => { d with output := d.output ++ text }

/-- Prints a text beside the results. -/
def remark (text : String) : Program Unit :=
  modify fun d => { d with errors := d.errors ++ text }

/-- Does something in the session. -/
def inSession {α : Type} (x : StateM Session α) : Program α := do
  let d ← get
  let (a, session) := x d.session
  set { d with session }
  return a

/-- Makes the file for the results. -/
def openOutput (c : Config) : Program Unit := do
  match c.outputFile with
  | none => return ()
  | some path =>
    let d ← get
    match d.session.context.files.create path d.session.context.clock with
    | .ok files => set { d with session.context.files := files }
    | .error e => throw (.outputFile path e)

/-- Executes statements and prints what comes of them: whether one of them failed. -/
def execute (c : Config) (text : String) : Program Bool := do
  let outputs ← inSession (Session.execute text)
  outputs.forM fun out => put c (c.print out)
  return outputs.any fun out => out.error.isSome

/-- The statements to execute: those of the operand, else those of a file. -/
def statements (c : Config) (operand : Option String) : Program String := do
  match operand, c.inputFile with
  | some text, _ => return text
  | none, some path =>
    match (← get).session.context.files.read path with
    | .ok f => return f.text
    | .error e => throw (.inputFile path e)
  | none, none => throw .noStatements

/-- Executes statements: the exit code. -/
def exec (c : Config) (operand : Option String) : Program Nat := do
  let text ← statements c operand
  if c.verbose then remark ("Input: " ++ Text.trimmed text ++ "\n")
  openOutput c
  return if ← execute c text then 1 else 0

/-- Explains statements: the exit code. -/
def explain (text : String) : Program Nat := do
  say "Plan:\n"
  match ← inSession (Session.explain text) with
  | .ok lines =>
    lines.forM fun line => say ("  " ++ line ++ "\n")
    return 0
  | .error e => throw (.statement e)

/-- The prompt for a line, given what was read and not yet executed. -/
def prompt (waiting : String) : String :=
  if waiting = "" then "cloudql>> " else "       -> "

/-- The lines that end the shell. -/
def farewells : List String := ["exit", "quit", "\\q"]

/-- Takes a line, which is executed with what waits if it ends with a semicolon: what waits then, or
nothing after a farewell. -/
def takeLine (c : Config) (waiting line : String) : Program (Option String) := do
  let trimmed := Text.trimmed line
  if waiting = "" ∧ trimmed ∈ farewells then return none
  let text := waiting ++ line
  if trimmed.toList.getLast? = some ';' then
    let _ ← execute c text
    return some ""
  else return some text

/-- Takes lines, with a prompt for each. -/
def takeLines (c : Config) (waiting : String) : List String → Program Unit
  | [] => say (prompt waiting ++ "\n")
  | line :: more => do
    say (prompt waiting)
    match ← takeLine c waiting line with
    | none => return ()
    | some waiting => takeLines c waiting more

/-- The lines of a text with their ends; the last may have none. -/
def linesOf (text : String) : List String :=
  match (Text.cutAt '\n' text).reverse with
  | [] => []
  | last :: more =>
    more.reverse.map (· ++ "\n") ++ if last = "" then [] else [last]

/-- Greets the reader. -/
def openShell (c : Config) : Program Unit := do
  say "cloudql interactive shell\n"
  say "End statements with ';'. Type 'exit' or Ctrl+D to quit.\n"
  openOutput c

/-- Executes the statements that are typed in: the exit code. -/
def shell (c : Config) (input : String) : Program Nat := do
  openShell c
  takeLines c "" (linesOf input)
  return 0

/-- Does what is to be done: the exit code. -/
def perform (c : Config) (input : String) : Task → Program Nat
  | .exec operand => exec c operand
  | .shell => shell c input
  | .explain text => explain text

end Program

namespace Outcome

/-- The outcome of a run that prints at most an error. -/
def ofHalt (files : Files) : Halt → Outcome
  | .usage e => { code := 2, output := "", errors := "error: " ++ e.message ++ "\n", files }
  | .help command long => { code := 0, output := helpText command long, errors := "", files }
  | .version => { code := 0, output := versionText, errors := "", files }

/-- The outcome of a run that gives up. -/
def ofError (output errors : String) (files : Files) (e : ProgramError) : Outcome :=
  { code := 1, output, errors := errors ++ (Printed.ofError e.message).remarks, files }

/-- The outcome of a run with the given arguments. -/
def ofRun (w : Surroundings) (arguments : List String) : Outcome :=
  match Invocation.ofArguments arguments with
  | .error h => ofHalt w.files h
  | .ok i =>
    match w.settings i with
    | .error e => ofError "" "" w.files e
    | .ok c =>
      match Program.perform c w.input i.task (w.desk c) with
      | (.ok code, d) =>
        { code, output := d.output, errors := d.errors, files := d.session.context.files }
      | (.error e, d) => ofError d.output d.errors d.session.context.files e

end Outcome
end RestSql
