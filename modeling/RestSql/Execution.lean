import RestSql.Execution.Operation

/-!
The execution of instructions.
-/

namespace RestSql

namespace ProviderQuery

/-- The rows that the filter keeps. -/
def listed (filter : Option Filter) (columns : List String) (rows : List Row) : Output :=
  .ofRows { columns, rows := Shape.filterRows filter rows }

/-- Signs in, and says as whom. -/
def executeSignIn (p : Provider) (kind : String) (keyFile : Option String) : Run Output := do
  let c ← Run.credentials p.name
  Run.setCredentials p.name { c with keyFile := keyFile.orElse fun _ => c.keyFile }
  p.signIn kind
  let c ← Run.credentials p.name
  let who := if c.principal = "" then c.kind else c.principal
  return .ofMessage ("Authenticated to provider '" ++ p.name ++ "' as '" ++ who ++ "'")

/-- Answers a query. -/
def execute (filter : Option Filter) : ProviderQuery → Run Output
  | providers names => return listed filter ["name"] (names.map fun n => Row.ofTexts [("name", n)])
  | services p extended => do
    return listed filter (ServiceEntry.listColumns extended) ((← p.services).map (·.listRow extended))
  | resources p service extended => do
    let s ← p.service service
    return listed filter (Resource.listColumns extended)
      ((Dict.values s.resources).map (·.listRow extended))
  | methods p service resource extended => do
    let (_, r) ← p.resource service resource
    return listed filter (Method.listColumns extended)
      ((Dict.values r.methods).map (·.listRow extended))
  | identity p => do
    return listed filter Identity.listColumns [(← p.identity).listRow]
  | signIn p kind keyFile => executeSignIn p kind keyFile
  | signOut p => do
    p.signOut
    return .ofMessage ("Revoked credentials for provider '" ++ p.name ++ "'")
  | rows r => return listed filter r.columns r.rows

end ProviderQuery

namespace Instruction

/-- Does what the instruction says. -/
def execute (s : CallSettings) : Instruction → Run Output
  | rest c => c.execute s
  | monitored c quiet showResults => Operation.execute c s quiet showResults
  | query q filter => q.execute filter
  | literals r => return .ofRows r
  | sleep n => do
    Run.wait n
    return .ofMessage ("Success: slept for " ++ Text.ofNat n ++ " milliseconds")
  | use p => do
    modify fun c => { c with current := p }
    return .ofMessage ("Using provider '" ++ p ++ "'")
  | join _ => throw (.unsupported .joins)

end Instruction
end RestSql
