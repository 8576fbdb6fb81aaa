import RestSql.Error
import RestSql.ResultSet

/-!
What the execution of a statement yields.
-/

namespace RestSql

structure Output where
  result : Option ResultSet
  /-- The body of the response to a call that changes something. -/
  body : Option Json
  /-- Lines for the reader. -/
  messages : List String
  error : Option Error
  /-- The number of the transaction. -/
  transaction : Nat

namespace Output

def empty : Output :=
  { result := none, body := none, messages := [], error := none, transaction := 0 }

def ofRows (r : ResultSet) : Output :=
  { empty with result := some r }

def ofMessage (m : String) : Output :=
  { empty with messages := [m] }

def ofError (e : Error) : Output :=
  { empty with error := some e }

def rowCount (out : Output) : Nat :=
  ((out.result.map fun r => r.rows.length)).getD 0

end Output
end RestSql
