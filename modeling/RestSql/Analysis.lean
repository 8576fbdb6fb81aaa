import RestSql.Analysis.Listing
import RestSql.Analysis.Mutation
import RestSql.Analysis.Query

/-!
The meaning of statements: names are bound first, and everything else is checked after that.
-/

namespace RestSql.Analysis

/-- A call on the resource that a table name means. -/
def tableCall (ps : Providers) (current : String) (table : Sql.Name) (action : String) : Run Call :=
  Call.resolve ps (.ofResource table current) action

/-- The meaning of a query. -/
def analyzeSelect (ps : Providers) (current : String) (pageSize : Nat) (s : Sql.Select) :
    Run Analysis := do
  match s.source with
  | none => Run.ofExcept .validation (ofValues s)
  | some (.table name _) =>
    let c ← tableCall ps current name "select"
    Run.ofExcept id (ofSelect c pageSize s)
  | some source => return .join (source.names.map (·.text))

/-- The meaning of an EXEC statement. -/
def analyzeExec (ps : Providers) (current : String) (s : Sql.Exec) : Run Analysis := do
  if s.method.parts.length < 3 then throw (.resolution (.unqualifiedMethod s.method.text))
  let c ← Call.resolve ps (.ofMethod s.method current) "exec"
  Run.ofExcept id (ofExec c s)

/-- The meaning of a SHOW statement. -/
def analyzeShow (ps : Providers) (current : String) (s : Sql.Show) : Run Analysis := do
  if s.kind = "INSERT" then
    let c ← tableCall ps current (s.target.getD ⟨[]⟩) "insert"
    Run.ofExcept .validation (ofShowInsert c s)
  else Run.ofExcept id (ofShow ps current s)

/-- The meaning of a DESCRIBE statement. -/
def analyzeDescribe (ps : Providers) (current : String) (d : Sql.Describe) : Run Analysis := do
  let name := CallName.ofResource d.table current
  let p ← Run.ofExcept .resolution (ps.named name.provider)
  let (s, r) ← p.resource name.service name.resource
  Run.ofExcept id (ofDescribe p s r d)

/-- The meaning of a SLEEP statement. -/
def ofSleep : Sql.Expr → Except ValidationError Analysis
  | .literal (.integer n) => if n ≤ 0 then .error (.durationNotPositive n) else .ok (.sleep n.toNat)
  | e => .error (.durationNotInteger e)

/-- The meaning of a statement. Pages have `pageSize` rows, if that is not zero. -/
def analyze (ps : Providers) (current : String) (pageSize : Nat) : Sql.Statement → Run Analysis
  | .select s => analyzeSelect ps current pageSize s
  | .insert s => do
    let c ← tableCall ps current s.table "insert"
    Run.ofExcept .validation (ofInsert c s)
  | .delete s => do
    let c ← tableCall ps current s.table "delete"
    Run.ofExcept .validation (ofDelete c s)
  | .exec s => analyzeExec ps current s
  | .show s => analyzeShow ps current s
  | .describe d => analyzeDescribe ps current d
  | .auth a => do
    let p ← Run.ofExcept .resolution (providerNamed ps current a.provider)
    return .query (.signIn p (a.kind.getD "") a.keyFile) none
  | .revoke name => do
    let p ← Run.ofExcept .resolution (providerNamed ps current name)
    return .query (.signOut p) none
  | .use name => do
    let _ ← Run.ofExcept .resolution (providerNamed ps current name)
    return .use name
  | .sleep e => Run.ofExcept .validation (ofSleep e)
  | .unsupported kind => throw (.unsupported (.statement kind))

end RestSql.Analysis
