import RestSql.Execution.Output
import RestSql.Login
import RestSql.Plan.Basic
import RestSql.Request.Page

/-!
Calls of methods. The rows of a query come in pages: each response may name the next page, and the
pages are fetched one after the other up to a limit.
-/

namespace RestSql

/-- How calls are made. -/
structure CallSettings where
  /-- Requests are shown and not sent. -/
  dryRun : Bool
  /-- How many pages of a query are fetched; all if zero. -/
  pageLimit : Nat
  /-- The seconds between two looks at an operation. -/
  pollInterval : Nat
  /-- How many requests a statement may send before its execution is given up. -/
  patience : Nat
  deriving DecidableEq, Repr

namespace RestCall

/-- The key of the token of the next page. -/
def nextPageKey : String := "nextPageToken"

/-- The token of the next page, if the response names one. -/
def nextPage? (body : Json) : Option String :=
  (body.textField? nextPageKey).filter (· ≠ "")

/-- Sends the request of the call. -/
def send (c : RestCall) : Run Json :=
  c.provider.call c.prepared.request

/-- Another page may be fetched after `pages` ones. -/
def mayFetch (s : CallSettings) (pages : Nat) : Bool :=
  s.pageLimit == 0 || pages < s.pageLimit

/-- The rows of the pages after the one with the given body, the `pages`-th. -/
def morePages (c : RestCall) (s : CallSettings) : Nat → Nat → Json → Run (List Row)
  | patience, pages, body =>
    match (nextPage? body).filter fun _ => mayFetch s pages with
    | none => return []
    | some token =>
      match patience with
      | 0 => throw (.fault .patience)
      | patience + 1 => do
        let request ← Run.ofExcept .validation (c.prepared.request.page token)
        let body ← c.provider.call request
        let rows ← morePages c s patience (pages + 1) body
        return Row.ofResponse body c.itemsKey ++ rows

/-- The rows of all pages. -/
def fetchRows (c : RestCall) (s : CallSettings) : Run (List Row) := do
  let body ← c.send
  let rows ← c.morePages s s.patience 1 body
  return Row.ofResponse body c.itemsKey ++ rows

/-- The request as a row. -/
def dryRun (c : RestCall) : Output :=
  let r := c.prepared.request
  .ofRows { columns := ["method", "url", "body"]
            rows := [Row.ofTexts [("method", r.verb), ("url", r.url), ("body", r.body.getD "")]] }

/-- What a call says that succeeds without showing its results. -/
def successText : String := "The operation completed successfully"

/-- What it says after that if the method only reads. -/
def readingHint : String :=
  ", consider using a SELECT statement if you are performing an operation that returns data"

/-- The message of a call that succeeds. -/
def successMessage (m : Method) : String :=
  successText ++ if ["get", "list", "aggregatedList"].contains m.name then readingHint else ""

/-- The rows of a response to be shown: the listed ones, or the whole response if there are none. -/
def shownRows (body : Json) (key : Option String) : List Row :=
  match Row.ofResponse body key with
  | [] => Row.ofResponse body none
  | rows => rows

/-- What a call yields that changes something. -/
def mutationOutput (c : RestCall) (showResults : Bool) (body : Json) : Output :=
  let out : Output := if showResults then .ofRows (.ofRows (shownRows body c.itemsKey))
    else .ofMessage (successMessage c.method)
  { out with body := some body }

/-- Makes the call. -/
def execute (c : RestCall) (s : CallSettings) : Run Output := do
  if s.dryRun then return c.dryRun
  match c.use with
  | .rows shape => return .ofRows (shape.apply (← c.fetchRows s))
  | .mutation showResults => return c.mutationOutput showResults (← c.send)

end RestCall
end RestSql
