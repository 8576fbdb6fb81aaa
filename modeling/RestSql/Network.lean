import RestSql.Error

/-!
Networks, which answer requests, and scripts of answers. The answer of a network may depend on all
requests before it. A script keeps a queue of responses for each verb and start of an address; the last
response of a queue is repeated.
-/

namespace RestSql

/-- Answers a request, given the earlier ones, the latest first. -/
structure Network where
  answer : List Request → Request → Except TransportError Response

namespace Network

/-- The network that reaches nothing. -/
def unreachable : Network :=
  ⟨fun _ r => .error (.noConnection r.url)⟩

end Network

/-- The responses to requests with a verb and a start of the address. -/
structure Route where
  verb : String
  start : String
  /-- The responses still to be given. -/
  queue : List Response
  /-- The response that was given last. -/
  last : Option Response
  deriving DecidableEq, Repr

/-- A response that is always the same. -/
structure FixedAnswer where
  verb : String
  url : String
  response : Response
  deriving DecidableEq, Repr

/-- What a scripted network answers. -/
structure Script where
  fixed : List FixedAnswer
  routes : List Route
  deriving DecidableEq, Repr

namespace Route

/-- The route serves a request. -/
def covers (route : Route) (r : Request) : Bool :=
  route.verb == r.verb && (Text.rest? route.start r.url).isSome

/-- The next response, and the route after it. -/
def next (route : Route) : Option Response × Route :=
  match route.queue with
  | response :: queue => (some response, { route with queue, last := some response })
  | [] => (route.last, route)

end Route

namespace Script

def empty : Script := ⟨[], []⟩

/-- The script with one more response for a verb and a start of the address. -/
def respond (s : Script) (verb start : String) (response : Response) : Script :=
  let verb := Text.upper verb
  if s.routes.any fun r => r.verb == verb && r.start == start then
    { s with routes := s.routes.map fun r =>
        if r.verb = verb ∧ r.start = start then { r with queue := r.queue ++ [response] } else r }
  else { s with routes := s.routes ++ [⟨verb, start, [response], none⟩] }

/-- The script with an answer that is tried before the routes, after those added before it. -/
def always (s : Script) (verb url : String) (response : Response) : Script :=
  { s with fixed := s.fixed ++ [⟨verb, url, response⟩] }

/-- The better of two routes: the one with the longer start, of equals the later one. -/
def longer (best : Option Route) (route : Route) : Option Route :=
  match best with
  | some b =>
    if Text.byteLength route.start.toList < Text.byteLength b.start.toList then some b
    else some route
  | none => some route

/-- The route that serves a request. -/
def route? (s : Script) (r : Request) : Option Route :=
  (s.routes.filter (·.covers r)).foldl longer none

/-- The answer to a request, and the script after it. -/
def serve (s : Script) (r : Request) : Except TransportError Response × Script :=
  match s.fixed.find? fun a => a.verb == r.verb && a.url == r.url with
  | some a => (.ok a.response, s)
  | none =>
    match s.route? r with
    | none => (.error (.noAnswer r.verb r.url), s)
    | some route =>
      match route.next with
      | (none, _) => (.error (.noAnswer r.verb r.url), s)
      | (some response, later) =>
        (.ok response, { s with routes := s.routes.map fun x => if x = route then later else x })

/-- The script after requests, the latest of which comes first. -/
def after (s : Script) (earlier : List Request) : Script :=
  earlier.foldr (fun r s => (s.serve r).2) s

/-- The network that follows the script. -/
def network (s : Script) : Network :=
  ⟨fun earlier r => ((s.after earlier).serve r).1⟩

/-- Number of the requests with a verb and a start of the address. -/
def count (sent : List Request) (verb start : String) : Nat :=
  (sent.filter fun r =>
    Text.lower r.verb == Text.lower verb && (Text.rest? start r.url).isSome).length

theorem after_cons (s : Script) (r : Request) (earlier : List Request) :
    s.after (r :: earlier) = ((s.after earlier).serve r).2 := rfl

end Script
end RestSql
