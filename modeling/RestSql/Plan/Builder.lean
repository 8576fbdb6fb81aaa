import RestSql.Plan.Basic

/-!
From the meaning of a statement to the instruction that executes it.
-/

namespace RestSql

namespace Target

/-- The call of a target. -/
def toCall (t : Target) (use : ResponseUse) : RestCall :=
  { provider := t.call.provider, method := t.call.method, prepared := t.prepared
    itemsKey := t.itemsKey, use }

end Target

namespace Instruction

/-- The version of the providers whose operations can be watched. -/
def monitoredVersion : String := "v1"

/-- The directive that waits for the end of an operation. -/
def awaitDirective : String := "AWAIT"

/-- The directive that keeps the progress of an operation quiet. -/
def quietDirective : String := "NOSTATUS"

/-- The directive that asks for the response as rows. -/
def resultsDirective : String := "SHOWRESULTS"

/-- The instruction of a statement that changes something. -/
def ofMutation (t : Target) (d : Sql.Directives) : Except NoMonitor Instruction :=
  let showResults := d.isSet resultsDirective
  let call := t.toCall (.mutation showResults)
  if !d.isSet awaitDirective then .ok (rest call)
  else if Text.lower t.call.provider.version ≠ monitoredVersion then
    .error { service := t.call.name.service, resource := t.call.name.resource
             method := t.call.method.name }
  else if t.call.returnsOperation then .ok (monitored call (d.isSet quietDirective) showResults)
  else .ok (rest call)

/-- The instruction for the meaning of a statement. -/
def ofAnalysis : Analysis → Except NoMonitor Instruction
  | .select t shape => .ok (rest (t.toCall (.rows shape)))
  | .mutation _ t d => ofMutation t d
  | .join tables => .ok (join tables)
  | .query q filter => .ok (query q filter)
  | .literals r => .ok (literals r)
  | .sleep n => .ok (sleep n)
  | .use p => .ok (use p)

end Instruction
end RestSql
