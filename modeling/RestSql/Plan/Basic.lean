import RestSql.Analysis.Basic

/-!
Plans: what is done to execute a statement, and how often that happened.
-/

namespace RestSql

/-- What the response to a call becomes. -/
inductive ResponseUse
  | rows (shape : Shape)
  | mutation (showResults : Bool)
  deriving Repr

/-- A call of a method. -/
structure RestCall where
  provider : Provider
  method : Method
  prepared : PreparedRequest
  /-- The key of the rows in the response, if it holds any. -/
  itemsKey : Option String
  use : ResponseUse

/-- What is done to execute a statement. -/
inductive Instruction
  | rest (call : RestCall)
  /-- A call that starts an operation, which is watched until it ends. -/
  | monitored (call : RestCall) (quiet showResults : Bool)
  | query (q : ProviderQuery) (filter : Option Filter)
  | literals (result : ResultSet)
  /-- A pause in milliseconds. -/
  | sleep (duration : Nat)
  | use (provider : String)
  | join (tables : List String)

/-- How often a plan was executed, and with what. -/
structure PlanStats where
  executions : Nat
  rows : Nat
  errors : Nat
  deriving DecidableEq, Repr

structure Plan where
  /-- The kind of the statement. -/
  kind : String
  text : String
  instruction : Instruction
  /-- The number of the last transaction of the plan. -/
  transaction : Nat
  stats : PlanStats

namespace RestCall

/-- The request with the method that it calls. -/
def describe (c : RestCall) : String :=
  "HttpRest " ++ c.prepared.request.verb ++ " " ++ c.prepared.request.url ++ " (" ++ c.method.id ++ ")"

end RestCall

/-- What is asked, in a few words. -/
def ProviderQuery.describe : ProviderQuery → String
  | providers _ => "providers"
  | services _ _ => "services"
  | resources _ _ _ => "resources"
  | methods _ _ _ _ => "methods"
  | identity _ => "auth status"
  | signIn _ _ _ => "authenticate"
  | signOut _ => "revoke credentials"
  | rows _ => "precomputed rows"

namespace Instruction

/-- The request that is sent first, if any is. -/
def request? : Instruction → Option Request
  | rest c => some c.prepared.request
  | monitored c _ _ => some c.prepared.request
  | _ => none

/-- The instruction in one line. -/
def describe : Instruction → String
  | rest c => c.describe
  | monitored c _ _ => "AsyncMonitor over " ++ c.describe
  | query q _ => "MetaData " ++ q.describe
  | literals r => "Local values (" ++ Text.ofNat r.columns.length ++ " columns)"
  | sleep n => "Local sleep " ++ Text.ofNat n ++ "ms"
  | use p => "Local use " ++ p
  | join tables => "Join " ++ String.intercalate ", " tables

end Instruction

namespace Plan

/-- A plan that was not executed yet. -/
def make (kind text : String) (instruction : Instruction) (transaction : Nat) : Plan :=
  { kind, text, instruction, transaction, stats := ⟨0, 0, 0⟩ }

/-- The plan in one line, with the body of its request. -/
def explain (p : Plan) : String :=
  p.kind ++ ": " ++ p.instruction.describe ++
    match p.instruction.request?.bind Request.json? with
    | some body => " body=" ++ body.write
    | none => ""

end Plan
end RestSql
