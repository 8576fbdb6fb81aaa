import RestSql.Execution.Rest

/-!
Operations that go on after the response to the call that started them. An operation is looked at again
and again, at the address that it names, until it has an end.
-/

namespace RestSql.Operation

/-- The name of an operation in the lines about it. -/
def descriptor (body : Json) : String :=
  match body.textField? "kind", body.textField? "operationType" with
  | some kind, some operation => kind ++ ": " ++ operation
  | some kind, none => kind
  | none, _ => "operation"

/-- The operation has an end. -/
def isComplete (body : Json) : Bool :=
  match body.field? "endTime" with
  | none | some .null => false
  | some (.string s) => s ≠ ""
  | some _ => true

/-- The address of the operation. -/
def link? (body : Json) : Option String :=
  body.textField? "selfLink"

/-- The line about an operation after some seconds. -/
def progressLine (descriptor : String) (seconds : Nat) : String :=
  descriptor ++ " in progress, " ++ Text.ofNat seconds ++ " seconds elapsed"

/-- The line about an operation that has an end. -/
def completeLine (descriptor : String) : String :=
  descriptor ++ " complete"

/-- The lines that are reported. -/
def report (quiet : Bool) (line : String) : Run (List String) := do
  if quiet then return []
  Run.report line
  return [line]

/-- Looks at an operation until it has an end: the lines about it, and its last state. -/
def watch (p : Provider) (s : CallSettings) (quiet : Bool) (name : String) :
    Nat → Nat → Json → Run (List String × Json)
  | patience, elapsed, body =>
    if isComplete body then do
      let lines ← report quiet (completeLine name)
      return (lines, body)
    else match link? body with
      | none => throw .noSelfLink
      | some link =>
        match patience with
        | 0 => throw (.fault .patience)
        | patience + 1 => do
          Run.wait (1000 * s.pollInterval)
          let elapsed := elapsed + s.pollInterval
          let line ← report quiet (progressLine name elapsed)
          let body ← p.call (.read link)
          let (lines, body) ← watch p s quiet name patience elapsed body
          return (line ++ lines, body)

/-- Makes a call and watches the operation that it starts. -/
def execute (c : RestCall) (s : CallSettings) (quiet showResults : Bool) : Run Output := do
  if s.dryRun then return c.dryRun
  let body ← c.send
  let (messages, body) ← watch c.provider s quiet (descriptor body) s.patience 0 body
  let out : Output := if showResults then .ofRows (.ofRows (Row.ofResponse body none)) else .empty
  return { out with messages, body := some body }

end RestSql.Operation
