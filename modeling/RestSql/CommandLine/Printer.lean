import RestSql.Config.Basic
import RestSql.Execution.Output
import RestSql.Row

/-!
What is printed of the output of a statement: results, and remarks beside them.
-/

namespace RestSql

/-- Texts for the results and for the remarks. -/
structure Printed where
  results : String
  remarks : String
  deriving DecidableEq, Repr

namespace Printed

def none : Printed := ⟨"", ""⟩

def append (p q : Printed) : Printed :=
  ⟨p.results ++ q.results, p.remarks ++ q.remarks⟩

/-- A line among the results. -/
def ofResult (line : String) : Printed :=
  ⟨line ++ "\n", ""⟩

/-- A line among the remarks. -/
def ofRemark (line : String) : Printed :=
  ⟨"", line ++ "\n"⟩

/-- An error among the remarks. -/
def ofError (message : String) : Printed :=
  ofRemark ("Error: " ++ message)

end Printed

namespace Config

/-- An error, among the remarks or as a result. -/
def printError (c : Config) (e : Error) : Printed :=
  match c.errorPlace with
  | .stderr => .ofError e.message
  | .record =>
    let r : ResultSet := { columns := ["error"], rows := [Row.ofTexts [("error", e.message)]] }
    .ofResult (r.render c.renderOptions)

/-- A table with the number of its rows below. -/
def printTable (c : Config) (r : ResultSet) : Printed :=
  if r.rows.isEmpty then .ofResult "(no results)"
  else .ofResult (String.intercalate "\n" (r.tableLines c.hideHeaders ++
    ["", Text.ofNat r.rows.length ++ " row(s) returned"]))

/-- A result. The number of rows is not written to files. -/
def printResult (c : Config) (r : ResultSet) : Printed :=
  if c.output = .table ∧ c.outputFile = none then c.printTable r
  else .ofResult (r.render c.renderOptions)

/-- The output of a statement. -/
def print (c : Config) (out : Output) : Printed :=
  let messages := out.messages.foldl (fun p m => p.append (.ofRemark m)) .none
  match out.error, out.result with
  | some e, _ => messages.append (c.printError e)
  | none, some r => messages.append (c.printResult r)
  | none, none => messages

end Config
end RestSql
