import RestSql.CommandLine.Program

/-!
The program at the command line. It has no network: it works from the copies of documents in its folder,
which count as fresh.
-/

namespace RestSql

/-- The files among some paths that can be read. -/
def readFiles (paths : List String) : IO Files :=
  paths.foldlM (fun files (path : String) => do
    try
      let text ← IO.FS.readFile path
      return Dict.put files (Files.plain path) ⟨text, 0⟩
    catch _ => return files) []

/-- The paths of the copies of documents, given those files that are known. -/
def documentPaths (c : Config) (files : Files) : List String :=
  match (Provider.ofConfig c).catalog with
  | .loaded _ _ => []
  | .documents d =>
    let directory := Files.join d.folder Provider.directoryFile
    let entries := match files.read directory with
      | .ok f => (ServiceEntry.directory? f.text).getD []
      | .error _ => []
    directory :: entries.map fun e => Files.join d.folder (Provider.serviceFile e.id)

/-- What the program meets, as far as its arguments need it. -/
def meetSurroundings (i : Invocation) : IO Surroundings := do
  let home := (← IO.getEnv "HOME").getD "."
  let w : Surroundings :=
    { home, keyFile := ← IO.getEnv "CLOUDQL_KEYFILE", input := "", network := .unreachable
      files := ← readFiles [(i.given? "configfile").getD (Config.standardFile home)]
      gcloud := none, sign := fun _ _ => "", clock := 1 }
  match w.settings i with
  | .error _ => return w
  | .ok c =>
    let paths := c.inputFile.toList ++ c.keyFile.toList
    let directory ← readFiles (documentPaths c [])
    let more ← readFiles (paths ++ documentPaths c directory)
    let output : Files := c.outputFile.toList.map fun path => (Files.plain path, ⟨"", 0⟩)
    return { w with files := Dict.ofEntries (output ++ w.files ++ more) }

/-- Writes the file for the results, if the run has made it: it is not as old as the other files. -/
def writeOutput (c : Config) (files : Files) : IO Unit := do
  match c.outputFile with
  | none => return ()
  | some path =>
    match files.read path with
    | .ok f => if 0 < f.time then IO.FS.writeFile path f.text
    | .error _ => return ()

/-- Prints what is on the desk, which is empty then. -/
def Desk.flush (c : Config) (d : Desk) : IO Desk := do
  IO.print d.output
  (← IO.getStdout).flush
  IO.eprint d.errors
  writeOutput c d.session.context.files
  return { d with output := "", errors := "" }

/-- Reads lines and executes them until the last, or a farewell. -/
partial def readLines (c : Config) (waiting : String) (d : Desk) : IO Unit := do
  let (_, d) := (Program.say (Program.prompt waiting)).run d
  let d ← d.flush c
  let line ← (← IO.getStdin).getLine
  if line.isEmpty then IO.println ""
  else
    match (Program.takeLine c waiting line).run d with
    | (.ok (some waiting), d) => readLines c waiting d
    | (_, d) => let _ ← d.flush c

/-- Prints the outcome of a run. -/
def Outcome.report (x : Outcome) : IO UInt32 := do
  IO.print x.output
  IO.eprint x.errors
  return x.code.toUInt32

/-- Runs the program with some arguments: the exit code. -/
def runProgram (arguments : List String) : IO UInt32 := do
  match Invocation.ofArguments arguments with
  | .error h => (Outcome.ofHalt [] h).report
  | .ok i =>
    let w ← meetSurroundings i
    match w.settings i, i.task with
    | .ok c, .shell =>
      match (Program.openShell c).run (w.desk c) with
      | (.ok (), d) =>
        readLines c "" d
        return 0
      | (.error e, d) =>
        (Outcome.ofError d.output d.errors d.session.context.files e).report
    | .ok c, _ =>
      let x := Outcome.ofRun w arguments
      writeOutput c x.files
      x.report
    | .error _, _ => (Outcome.ofRun w arguments).report

end RestSql

def main (arguments : List String) : IO UInt32 :=
  RestSql.runProgram arguments
