import Mathlib.Tactic.Choose
import RestSql.Proofs.Calls
import RestSql.Proofs.PlanReuse

/-!
# Watching an operation

A call that is awaited is followed by looks at the operation that it starts, each at the address that the
state before names, until a state has an end. As for the pages of a query, the states are given as a
sequence with the contexts between them, and nothing is assumed of the network.
-/

namespace RestSql

namespace Operation

/-! ## One look -/

/-- The context in which an operation is looked at for the `i`-th time: after a pause and a report. -/
def paused (s : CallSettings) (quiet : Bool) (name : String) (i : Nat) (c : Context) : Context :=
  { c with
    clock := c.clock + 1000 * s.pollInterval
    reported := if quiet then c.reported else progressLine name (i * s.pollInterval) :: c.reported }

/-- The context after the report that an operation has an end. -/
def completed (quiet : Bool) (name : String) (c : Context) : Context :=
  { c with reported := if quiet then c.reported else completeLine name :: c.reported }

/-- The lines about the first `n` looks. -/
def progress (s : CallSettings) (quiet : Bool) (name : String) (n : Nat) : List String :=
  if quiet then [] else (List.range n).map fun i => progressLine name ((i + 1) * s.pollInterval)

variable {p : Provider} {c : RestCall} {s : CallSettings} {quiet : Bool} {name : String}

theorem progress_succ (n : Nat) : progress s quiet name (n + 1) =
    progress s quiet name n ++
      (if quiet then [] else [progressLine name ((n + 1) * s.pollInterval)]) := by
  cases quiet <;> simp [progress, List.range_succ]

theorem report_apply (line : String) (c : Context) :
    report quiet line c = (.ok (if quiet then [] else [line]),
      { c with reported := if quiet then c.reported else line :: c.reported }) := by
  cases quiet <;> rfl

theorem watch_of_isComplete {body : Json} (h : isComplete body = true) (patience elapsed : Nat)
    (c : Context) :
    watch p s quiet name patience elapsed body c =
      (.ok (if quiet then [] else [completeLine name], body), completed quiet name c) := by
  rw [watch.eq_def]
  dsimp only
  rw [if_pos h, Run.bind_apply, report_apply]
  rfl

theorem watch_of_no_link {body : Json} (h : isComplete body = false) (hlink : link? body = none)
    (patience elapsed : Nat) (c : Context) :
    watch p s quiet name patience elapsed body c = (.error .noSelfLink, c) := by
  rw [watch.eq_def]
  dsimp only
  rw [if_neg (by simp [h]), hlink]
  rfl

theorem watch_of_link {body : Json} {link : String} (h : isComplete body = false)
    (hlink : link? body = some link) (patience i : Nat) (c : Context) :
    watch p s quiet name (patience + 1) (i * s.pollInterval) body c = (do
      let next ← p.call (.read link)
      let (lines, last) ← watch p s quiet name patience ((i + 1) * s.pollInterval) next
      return ((if quiet then [] else [progressLine name ((i + 1) * s.pollInterval)]) ++ lines, last) :
        Run (List String × Json)) (paused s quiet name (i + 1) c) := by
  have hwait : Run.wait (1000 * s.pollInterval) c =
      (.ok (), { c with clock := c.clock + 1000 * s.pollInterval }) := rfl
  have helapsed : i * s.pollInterval + s.pollInterval = (i + 1) * s.pollInterval := by
    rw [Nat.succ_mul]
  rw [watch.eq_def]
  dsimp only
  rw [if_neg (by simp [h]), hlink]
  dsimp only
  rw [Run.bind_apply, hwait]
  dsimp only
  rw [Run.bind_apply, report_apply, helapsed]
  rfl

/-! ## All looks -/

/-- The call and the first `n` looks succeed, and there is a reason for each of these: the operation has
no end before it. The state `body i` is known in `context (i + 1)`. -/
structure Watched (c : RestCall) (s : CallSettings) (quiet : Bool) (body : Nat → Json)
    (context : Nat → Context) (n : Nat) : Prop where
  call : c.send (context 0) = (.ok (body 0), context 1)
  goesOn : ∀ i < n, isComplete (body i) = false
  look : ∀ i < n, ∃ link, link? (body i) = some link ∧
    c.provider.call (.read link)
      (paused s quiet (descriptor (body 0)) (i + 1) (context (i + 1))) =
        (.ok (body (i + 1)), context (i + 2))

variable {body : Nat → Json} {context : Nat → Context} {n : Nat}

theorem Watched.pred (h : Watched c s quiet body context (n + 1)) :
    Watched c s quiet body context n :=
  ⟨h.call, fun i hi => h.goesOn i (by omega), fun i hi => h.look i (by omega)⟩

theorem Watched.one {link : String} (hcall : c.send (context 0) = (.ok (body 0), context 1))
    (hopen : isComplete (body 0) = false) (hlink : link? (body 0) = some link)
    (hlook : c.provider.call (.read link) (paused s quiet (descriptor (body 0)) 1 (context 1)) =
      (.ok (body 1), context 2)) :
    Watched c s quiet body context 1 := by
  refine ⟨hcall, fun i hi => ?_, fun i hi => ?_⟩ <;> obtain rfl := Nat.lt_one_iff.1 hi
  · exact hopen
  · exact ⟨link, hlink, hlook⟩

/-- After the first looks the watch goes on from the last state, with the time that has passed. -/
theorem Watched.watch_eq (h : Watched c s quiet body context n) (hn : n ≤ s.patience) :
    let name := descriptor (body 0)
    watch c.provider s quiet name s.patience 0 (body 0) (context 1) = (do
      let (lines, last) ←
        watch c.provider s quiet name (s.patience - n) (n * s.pollInterval) (body n)
      return (progress s quiet name n ++ lines, last) : Run (List String × Json))
        (context (n + 1)) := by
  intro name
  induction n with
  | zero =>
      simp [progress]
  | succ n ih =>
      obtain ⟨link, hlink, hcall⟩ := h.look n n.lt_succ_self
      have hpatience : s.patience - n = s.patience - (n + 1) + 1 := by omega
      rw [ih h.pred (by omega), Run.bind_apply, hpatience,
        watch_of_link (h.goesOn n n.lt_succ_self) hlink, Run.bind_apply, hcall]
      dsimp only
      rw [Run.bind_apply, Run.bind_apply]
      rcases watch c.provider s quiet name (s.patience - (n + 1)) ((n + 1) * s.pollInterval)
        (body (n + 1)) (context (n + 2)) with ⟨_ | ⟨lines, last⟩, c'⟩
      · rfl
      · dsimp only
        rw [progress_succ, List.append_assoc]
        rfl

/-- The first request, and then those that read the links. -/
def requestOf (first : Request) (link : Nat → String) : Nat → Request
  | 0 => first
  | i + 1 => .read (link i)

/-- The requests of the call and of the looks. -/
theorem Watched.exists_requests (h : Watched c s quiet body context n) :
    ∃ request : Nat → Request, request 0 = c.prepared.request ∧
      (∀ i < n, ∃ link, link? (body i) = some link ∧ request (i + 1) = .read link) ∧
      ∀ i ≤ n, c.provider.Sends (request i) (context i) (context (i + 1)) := by
  choose! link hlink hcall using h.look
  refine ⟨requestOf c.prepared.request link, rfl, fun i hi => ?_, fun i hi => ?_⟩
  · exact ⟨link i, hlink i hi, rfl⟩
  · cases i with
    | zero => exact Provider.sends_of_call h.call
    | succ i =>
        -- a pause and a report send nothing
        have hsends := Provider.sends_of_call (hcall i (by omega))
        exact hsends

/-- What is shown of the last state. -/
def finalOutput (showResults : Bool) (messages : List String) (last : Json) : Output :=
  let out : Output := if showResults then .ofRows (.ofRows (Row.ofResponse last none)) else .empty
  { out with messages, body := some last }

variable {showResults : Bool}

theorem execute_of_watch (hdry : s.dryRun = false) {c₀ c₁ c₂ : Context} {b : Json}
    (hsend : c.send c₀ = (.ok b, c₁)) {r : Except Error (List String × Json)}
    (hwatch : watch c.provider s quiet (descriptor b) s.patience 0 b c₁ = (r, c₂)) :
    execute c s quiet showResults c₀ =
      (r.map fun (messages, last) => finalOutput showResults messages last, c₂) := by
  rw [execute, hdry, if_neg Bool.false_ne_true, Run.bind_apply, hsend]
  dsimp only
  rw [Run.bind_apply, hwatch]
  cases r <;> rfl

theorem Watched.execute_ok (h : Watched c s quiet body context n) (hdry : s.dryRun = false)
    (hn : n ≤ s.patience) (hlast : isComplete (body n) = true) :
    let name := descriptor (body 0)
    execute c s quiet showResults (context 0) =
      (.ok (finalOutput showResults
        (if quiet then [] else progress s quiet name n ++ [completeLine name]) (body n)),
        completed quiet name (context (n + 1))) := by
  intro name
  refine execute_of_watch hdry h.call (r := .ok (_, _)) ?_
  rw [h.watch_eq hn, Run.bind_apply, watch_of_isComplete hlast]
  cases quiet <;> rfl

theorem Watched.execute_no_link (h : Watched c s quiet body context n) (hdry : s.dryRun = false)
    (hn : n ≤ s.patience) (hopen : isComplete (body n) = false) (hlink : link? (body n) = none) :
    execute c s quiet showResults (context 0) = (.error .noSelfLink, context (n + 1)) := by
  refine execute_of_watch hdry h.call (r := .error _) ?_
  rw [h.watch_eq hn, Run.bind_apply, watch_of_no_link hopen hlink]

theorem Watched.execute_error (h : Watched c s quiet body context n) (hdry : s.dryRun = false)
    (hn : n < s.patience) (hopen : isComplete (body n) = false) {link : String}
    (hlink : link? (body n) = some link) {e : Error} {c' : Context}
    (herror : c.provider.call (.read link)
      (paused s quiet (descriptor (body 0)) (n + 1) (context (n + 1))) = (.error e, c')) :
    execute c s quiet showResults (context 0) = (.error e, c') := by
  have hpatience : s.patience - n = s.patience - (n + 1) + 1 := by omega
  refine execute_of_watch hdry h.call (r := .error _) ?_
  rw [h.watch_eq (Nat.le_of_lt hn), Run.bind_apply, hpatience, watch_of_link hopen hlink, Run.bind_apply, herror]

theorem execute_of_send_error (hdry : s.dryRun = false) {c₀ c₁ : Context} {e : Error}
    (hsend : c.send c₀ = (.error e, c₁)) :
    execute c s quiet showResults c₀ = (.error e, c₁) := by
  rw [execute, hdry, if_neg Bool.false_ne_true, Run.bind_apply, hsend]

end Operation

/-! ## The output -/

namespace Session

open Operation

/-- An operation is looked at until a state has an end: by one request for the call and one for each look,
at the address that the state before names. The output is the last state, with a line for each look and
one for the end unless the statement is quiet. If a state without an end names no address, or a call
fails, nothing is sent after that, and the error is the only output. A session has to have the patience for
that many looks. -/
theorem perform_operation {s : Session} {p : Plan} {c : RestCall} {quiet showResults : Bool}
    {body : Nat → Json} {context : Nat → Context}
    (hp : p.instruction = .monitored c quiet showResults) (hdry : s.settings.dryRun = false)
    (hstart : s.context = context 0) :
    let name := descriptor (body 0)
    let failed (e : Error) (c' : Context) : Output × Session :=
      ({ Output.ofError e with transaction := p.transaction }, { s with context := c' })
    (∀ n ≤ s.settings.patience, Watched c s.settings quiet body context n →
      isComplete (body n) = true →
      (∃ request : Nat → Request, request 0 = c.prepared.request ∧
        (∀ i < n, ∃ link, link? (body i) = some link ∧ request (i + 1) = .read link) ∧
        (∀ i ≤ n, c.provider.Sends (request i) (context i) (context (i + 1))) ∧
        ∀ token principal, c.provider.login = .fixed token principal →
          (perform p s).2.context.sent = ((List.range (n + 1)).map fun i =>
            (request i).withHeaders (Provider.bearer token)).reverse ++ s.context.sent) ∧
      perform p s =
        ({ finalOutput showResults
            (if quiet then [] else progress s.settings quiet name n ++ [completeLine name])
            (body n) with transaction := p.transaction },
          { s with context := completed quiet name (context (n + 1)) })) ∧
    (∀ n ≤ s.settings.patience, Watched c s.settings quiet body context n →
      isComplete (body n) = false → link? (body n) = none →
      perform p s = failed .noSelfLink (context (n + 1))) ∧
    (∀ n < s.settings.patience, Watched c s.settings quiet body context n →
      isComplete (body n) = false → ∀ link, link? (body n) = some link → ∀ e c',
      c.provider.call (.read link)
        (paused s.settings quiet name (n + 1) (context (n + 1))) = (.error e, c') →
      perform p s = failed e c') ∧
    ∀ e c', c.send (context 0) = (.error e, c') → perform p s = failed e c' := by
  intro name failed
  have hexecute {r : Except Error Output} {c' : Context}
      (h : Operation.execute c s.settings quiet showResults (context 0) = (r, c')) :
      p.instruction.execute s.settings s.context = (r, c') := by
    rw [hp, hstart]
    exact h
  refine ⟨fun n hn h hlast => ?_, fun n hn h hopen hlink => ?_, fun n hn h hopen link hlink e c' herror => ?_,
    fun e c' herror => ?_⟩
  · have hperform := perform_of_execute (hexecute (h.execute_ok hdry hn hlast))
    obtain ⟨request, hfirst, hnext, hsends⟩ := h.exists_requests
    refine ⟨⟨request, hfirst, hnext, hsends, fun token principal hlogin => ?_⟩, hperform⟩
    rw [hperform, hstart]
    exact Provider.sent_eq_of_sends (fun i hi => hsends i (Nat.le_of_lt_succ hi)) hlogin
  · exact perform_of_execute (hexecute (h.execute_no_link hdry hn hopen hlink))
  · exact perform_of_execute (hexecute (h.execute_error hdry hn hopen hlink herror))
  · exact perform_of_execute (hexecute (execute_of_send_error hdry herror))

/-- Answers the first request with an operation that goes on, and the others with its end. -/
def oneLook : Network :=
  ⟨fun earlier _ => .ok ⟨200, if earlier.isEmpty
    then "\x7b\"kind\": \"op\", \"selfLink\": \"https://compute.test/op\"\x7d"
    else "\x7b\"endTime\": \"now\"\x7d"⟩⟩

def startedCall : RestCall :=
  Sample.networksCall "DELETE" (.mutation false)

def startedSettings : CallSettings :=
  (Sample.sessionOn oneLook).settings

/-- The answer to the call and to each look, and the context after it. -/
def startedAnswer : Nat → Except Error Json × Context
  | 0 => startedCall.send (Sample.sessionOn oneLook).context
  | i + 1 => startedCall.provider.call
      (.read ((link? ((startedAnswer i).1.toOption.getD .null)).getD ""))
      (paused startedSettings false "op" (i + 1) (startedAnswer i).2)

def startedBody (i : Nat) : Json :=
  (startedAnswer i).1.toOption.getD .null

def startedContext : Nat → Context
  | 0 => (Sample.sessionOn oneLook).context
  | i + 1 => (startedAnswer i).2

theorem startedAnswer_eq {i : Nat} (h : (startedAnswer i).1.isOk = true) :
    startedAnswer i = (.ok (startedBody i), startedContext (i + 1)) :=
  Prod.ext (eq_ok_of_isOk h .null) rfl

theorem startedAnswer_zero : startedAnswer 0 = startedCall.send (startedContext 0) := by
  rw [startedAnswer, startedContext]

theorem startedAnswer_succ {i : Nat} {link : String} (h : link? (startedBody i) = some link) :
    startedAnswer (i + 1) = startedCall.provider.call (.read link)
      (paused startedSettings false "op" (i + 1) (startedContext (i + 1))) := by
  rw [startedAnswer, ← startedBody, h, startedContext, Option.getD_some]

theorem watched_startedCall :
    Watched startedCall startedSettings false startedBody startedContext 1 := by
  have hok : ∀ i ≤ 1, (startedAnswer i).1.isOk = true := by decide +kernel
  have hfirst : isComplete (startedBody 0) = false ∧
      link? (startedBody 0) = some "https://compute.test/op" ∧
      descriptor (startedBody 0) = "op" := by
    decide +kernel
  obtain ⟨hopen, hlink, hname⟩ := hfirst
  have hcall := startedAnswer_eq (hok 0 (by decide))
  have hlook := startedAnswer_eq (hok 1 (by decide))
  rw [startedAnswer_zero] at hcall
  rw [startedAnswer_succ hlink, ← hname] at hlook
  exact .one hcall hopen hlink hlook

theorem perform_operation_one :
    let s := Sample.sessionOn oneLook
    let p := Plan.make "DELETE" "" (.monitored startedCall false false) 1
    (perform p s).1.messages = ["op in progress, 10 seconds elapsed", "op complete"] ∧
      (perform p s).2.context.sent.map (·.url) =
        ["https://compute.test/op", "https://compute.test/networks"] := by
  intro s p
  have hlast : isComplete (startedBody 1) = true := by decide +kernel
  have hrun := ((@perform_operation s p startedCall false false startedBody startedContext rfl rfl
    rfl).1 1 (by decide) watched_startedCall hlast).2
  rw [hrun]
  exact ⟨by decide +kernel, by decide +kernel⟩

end Session
end RestSql
