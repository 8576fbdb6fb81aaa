import RestSql.Analysis
import RestSql.Config.Basic
import RestSql.Execution
import RestSql.Plan.Builder
import RestSql.Plan.Cache

/-!
Sessions execute statements one after the other. The plan of a statement is kept for the next time, and
all plans are forgotten when the current provider changes.
-/

namespace RestSql

structure Session where
  providers : Providers
  /-- The rows that a page of a query should have; the provider's choice if zero. -/
  pageSize : Nat
  settings : CallSettings
  context : Context
  plans : PlanCache
  /-- The number of the last transaction. -/
  transactions : Nat

namespace Plan

/-- The plan with the number of a new transaction. -/
def rebind (p : Plan) (transaction : Nat) : Plan :=
  { p with transaction }

/-- The plan after an execution. -/
def record (p : Plan) (out : Output) : Plan :=
  { p with stats :=
      { executions := p.stats.executions + 1, rows := p.stats.rows + out.rowCount
        errors := p.stats.errors + if out.error.isSome then 1 else 0 } }

end Plan

namespace Session

/-- How many requests a statement may send. -/
def patience : Nat := 100000

/-- A session that has not begun yet. -/
def start (c : Config) (providers : Providers) (context : Context) : Session :=
  { providers
    pageSize := c.pageSize
    settings :=
      { dryRun := c.dryRun, pageLimit := c.pageLimit, pollInterval := c.pollInterval, patience }
    context := { context with keyFile := c.keyFile, current := c.provider }
    plans := .empty c.planCount
    transactions := 0 }

/-- The plan of a statement, made anew. -/
def build (providers : Providers) (pageSize : Nat) (text : String) (transaction : Nat) : Run Plan := do
  let statement ← Run.ofExcept .parse (Sql.Statement.ofText text)
  statement.providerNames.forM fun name => do
    let _ ← Run.ofExcept .resolution (providers.named name)
  let analysis ← Analysis.analyze providers (← get).current pageSize statement
  let instruction ← Run.ofExcept .plan (Instruction.ofAnalysis analysis)
  return .make statement.kind text instruction transaction

/-- Runs a computation in the context of the session. -/
def run {α : Type} (x : Run α) : StateM Session (Except Error α) := fun s =>
  let (result, context) := x s.context
  (result, { s with context })

/-- The plan of a statement: the one at hand, else a new one. -/
def plan (text : String) : StateM Session (Except Error Plan) := do
  modify fun s => { s with transactions := s.transactions + 1 }
  let s ← get
  let (found, plans) := s.plans.get text
  set { s with plans }
  match found with
  | some p =>
    let p := p.rebind s.transactions
    modify fun s => { s with plans := s.plans.replace text p }
    return .ok p
  | none =>
    match ← run (build s.providers s.pageSize text s.transactions) with
    | .error e => return .error e
    | .ok p =>
      modify fun s => { s with plans := s.plans.insert text p }
      return .ok p

/-- Does what a plan says. -/
def perform (p : Plan) : StateM Session Output := do
  let s ← get
  let out := match ← run (p.instruction.execute s.settings) with
    | .ok out => out
    | .error e => .ofError e
  return { out with transaction := p.transaction }

/-- Executes a statement. -/
def executeStatement (text : String) : StateM Session Output := do
  match ← plan text with
  | .error e => return { Output.ofError e with transaction := (← get).transactions }
  | .ok p =>
    let before := (← get).context.current
    let out ← perform p
    modify fun s => { s with plans := s.plans.replace text (p.record out) }
    modify fun s => if s.context.current = before then s else { s with plans := s.plans.clear }
    return out

/-- Executes the statements of a text. -/
def execute (text : String) : StateM Session (List Output) :=
  (Sql.split text).mapM executeStatement

/-- The lines about the plans of some statements, up to the first that has none. -/
def explainEach : List String → StateM Session (Except Error (List String))
  | [] => return .ok []
  | text :: more => do
    match ← plan text with
    | .error e => return .error e
    | .ok p => return (← explainEach more).map (p.explain :: ·)

/-- The lines about the plans of the statements of a text. -/
def explain (text : String) : StateM Session (Except Error (List String)) :=
  match Sql.split text with
  | [] => return .error (.parse .empty)
  | texts => explainEach texts

/-- The plan at hand for a statement. -/
def cachedPlan (text : String) : StateM Session (Option Plan) := fun s =>
  let (found, plans) := s.plans.get text
  (found, { s with plans })

end Session
end RestSql
