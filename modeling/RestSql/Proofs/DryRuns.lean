import RestSql.Proofs.Descriptions
import RestSql.Proofs.FailedPlans

/-!
# Dry runs

A dry run shows the request of a call instead of sending it. What it shows is the request that the same
statement sends first otherwise, but for the credentials: `Session.dryRun_shows_first_request`.

What was sent stays recorded (`Run.Extends`), so the first request of a statement can be read off the
record whatever is sent after it.
-/

namespace RestSql

/-! ## The record of what was sent -/

namespace Run

variable {α β ε : Type}

/-- What was sent before the run is still recorded after it. -/
def Extends (x : Run α) : Prop :=
  ∀ c : Context, c.sent <:+ (x c).2.sent

theorem Quiet.extends {x : Run α} (h : Quiet x) : Extends x := fun c => ⟨[], (h c).symm⟩

theorem Extends.bind {x : Run α} {f : α → Run β} (hx : Extends x) (hf : ∀ a, Extends (f a)) :
    Extends (x >>= f) := by
  intro c
  have hx := hx c
  rw [bind_apply]
  rcases h : x c with ⟨e | a, c'⟩ <;> rw [h] at hx
  · exact hx
  · exact hx.trans (hf a c')

theorem extends_pure (a : α) : Extends (pure a) := (quiet_pure a).extends

theorem extends_throw (e : Error) : Extends (throw e : Run α) := (quiet_throw e).extends

theorem closed_extends : Closed fun _ => Extends :=
  ⟨extends_pure, extends_throw, Extends.bind⟩

end Run

open Run

/-! ## The first request of a call -/

namespace Provider

variable {α β : Type} {p : Provider} {r : Request} {c : Context}

/-- From a context on, the request is sent with a token, after what the login sends for the token and
before anything else; or the login that asks for tokens fails. -/
def SendsFirst (p : Provider) (r : Request) (c : Context) (result : Except Error α × Context) : Prop :=
  (∃ token asked, p.login.Gives token asked ∧
    r.withHeaders (bearer token) :: (asked ++ c.sent) <:+ result.2.sent) ∨
  p.login = .google ∧ ∃ e asked, Token.Asks asked ∧
    result.1 = .error e ∧ result.2.sent = asked ++ c.sent

theorem SendsFirst.bind {x : Run α} {f : α → Run β} (hx : p.SendsFirst r c (x c))
    (hf : ∀ a, Extends (f a)) : p.SendsFirst r c ((x >>= f) c) := by
  rw [bind_apply]
  rcases h : x c with ⟨e | a, c'⟩ <;> rw [h] at hx
  · obtain hsent | ⟨hlogin, e', asked, hasked, herror, hsent⟩ := hx
    · exact .inl hsent
    · cases herror
      exact .inr ⟨hlogin, e, asked, hasked, rfl, hsent⟩
  · obtain ⟨token, asked, hgives, hsent⟩ | ⟨-, _, _, -, herror, -⟩ := hx
    · exact .inl ⟨token, asked, hgives, hsent.trans (hf a c')⟩
    · cases herror

theorem sendsFirst_call (p : Provider) (r : Request) (c : Context) : p.SendsFirst r c (p.call r c) := by
  rw [call_apply]
  rcases ht : p.login.token (c.credentialsOf p.name)
    (c.setCredentials p.name (c.credentialsOf p.name)) with ⟨e | token, c₁⟩
  · refine .inr ?_
    cases hlogin : p.login with
    | fixed text principal =>
        rw [hlogin] at ht
        cases ht
    | google =>
        rw [hlogin] at ht
        obtain ⟨asked, hasked, hsent⟩ := Login.sendsWithin_google (c.credentialsOf p.name)
          (c.setCredentials p.name (c.credentialsOf p.name))
        rw [ht] at hsent
        exact ⟨rfl, e, asked, hasked, rfl, hsent⟩
  · obtain ⟨asked, hgives, hsent⟩ := Login.gives_of_token ht
    exact .inl ⟨token.text, asked, hgives, [], congrArg (_ :: ·) hsent.symm⟩

theorem extends_call (p : Provider) (r : Request) : Extends (p.call r) := by
  intro c
  obtain ⟨token, asked, -, hsent⟩ | ⟨-, _, asked, -, -, hsent⟩ := p.sendsFirst_call r c
  · exact ((List.suffix_append asked c.sent).trans (List.suffix_cons _ _)).trans hsent
  · exact ⟨asked, hsent.symm⟩

end Provider

/-! ## Executions -/

theorem RestCall.extends_morePages (c : RestCall) (s : CallSettings) (patience pages : Nat)
    (body : Json) : Extends (c.morePages s patience pages body) := by
  induction patience generalizing pages body with
  | zero =>
      rw [morePages]
      split
      · exact extends_pure _
      · exact extends_throw _
  | succ patience ih =>
      rw [morePages]
      split
      · exact extends_pure _
      · refine (closed_extends.ofExcept _ _).bind fun request => ?_
        exact (c.provider.extends_call request).bind fun body =>
          (ih _ body).bind fun _ => extends_pure _

theorem Operation.quiet_report (quiet : Bool) (line : String) : Quiet (report quiet line) := by
  cases quiet <;> exact fun _ => rfl

theorem Operation.extends_watch (p : Provider) (s : CallSettings) (quiet : Bool) (name : String)
    (patience elapsed : Nat) (body : Json) :
    Extends (watch p s quiet name patience elapsed body) := by
  have hcomplete (body : Json) : Extends (report quiet (completeLine name) >>= fun lines =>
      (pure (lines, body) : Run (List String × Json))) :=
    (quiet_report _ _).extends.bind fun _ => extends_pure _
  induction patience generalizing elapsed body with
  | zero =>
      rw [watch]
      split
      · exact hcomplete body
      · split <;> exact extends_throw _
  | succ patience ih =>
      rw [watch]
      split
      · exact hcomplete body
      · split
        · exact extends_throw _
        · have hwait : Quiet (wait (1000 * s.pollInterval)) := fun _ => rfl
          refine hwait.extends.bind fun _ => (quiet_report _ _).extends.bind fun _ => ?_
          exact (p.extends_call _).bind fun body => (ih _ body).bind fun _ => extends_pure _

namespace Instruction

/-- The call that the instruction makes, if it makes one. -/
def call? : Instruction → Option RestCall
  | rest c => some c
  | monitored c _ _ => some c
  | _ => none

variable {i : Instruction} {call : RestCall} {s : CallSettings}

theorem execute_of_dryRun (h : i.call? = some call) (hdry : s.dryRun = true) (c : Context) :
    i.execute s c = (.ok call.dryRun, c) := by
  cases i with
  | rest _ =>
      cases h
      rw [execute, RestCall.execute, if_pos hdry]
      rfl
  | monitored _ quiet showResults =>
      cases h
      rw [execute, Operation.execute, if_pos hdry]
      rfl
  | _ => cases h

theorem sendsFirst_execute (h : i.call? = some call) (hdry : s.dryRun = false) (c : Context) :
    call.provider.SendsFirst call.prepared.request c (i.execute s c) := by
  have hsend := call.provider.sendsFirst_call call.prepared.request c
  cases i with
  | rest _ =>
      cases h
      rw [execute, RestCall.execute, if_neg (by simp [hdry])]
      cases call.use with
      | rows shape =>
          have hrows : call.provider.SendsFirst call.prepared.request c (call.fetchRows s c) :=
            hsend.bind fun body => (call.extends_morePages s _ _ body).bind fun _ => extends_pure _
          exact hrows.bind fun _ => extends_pure _
      | mutation showResults => exact hsend.bind fun _ => extends_pure _
  | monitored _ quiet showResults =>
      cases h
      rw [execute, Operation.execute, if_neg (by simp [hdry])]
      exact hsend.bind fun body =>
        (Operation.extends_watch _ _ _ _ _ _ body).bind fun _ => extends_pure _
  | _ => cases h

theorem call_of_target {a : Analysis} {t : Target} (h : ofAnalysis a = .ok i)
    (ht : a.target? = some t) : ∃ use, i.call? = some (t.toCall use) := by
  cases a with
  | select target shape =>
      cases ht
      cases h
      exact ⟨_, rfl⟩
  | mutation kind target d =>
      cases ht
      simp only [ofAnalysis, ofMutation] at h
      repeat' split at h
      all_goals first | cases h; exact ⟨_, rfl⟩ | cases h
  | _ => cases ht

end Instruction

/-! ## Statements that make a call -/

/-- The query is on one table. -/
def Sql.Select.isOnTable (s : Sql.Select) : Bool :=
  match s.source with
  | some (.table _ _) => true
  | _ => false

/-- The statement is a query on one table, or it changes something. -/
def Sql.Statement.makesCall : Sql.Statement → Bool
  | .select s => s.isOnTable
  | .insert _ | .delete _ | .exec _ => true
  | _ => false

theorem Providers.eq_of_named {key name : String} {p q : Provider}
    (h : Providers.named [(key, p)] name = .ok q) : q = p :=
  congrArg Prod.snd (List.mem_singleton.1 (mem_of_named h))

theorem Call.exists_named {ps : Providers} {name : CallName} {action : String} {c c' : Context}
    {call : Call} (h : resolve ps name action c = (.ok call, c')) :
    ∃ name, ps.named name = .ok call.provider :=
  ⟨_, (resolve_ok h).2.1⟩

namespace Analysis

variable {ps : Providers} {current : String} {pageSize : Nat} {statement : Sql.Statement}

/-- A statement that makes a call means a call of one of the providers. -/
theorem exists_target (hs : statement.makesCall = true) {c : Context} {a : Analysis}
    (h : (analyze ps current pageSize statement c).1 = .ok a) :
    ∃ t, a.target? = some t ∧ ∃ name, ps.named name = .ok t.call.provider := by
  cases statement with
  | select s =>
      simp only [Sql.Statement.makesCall, Sql.Select.isOnTable] at hs
      split at hs
      · next name label hsource =>
        rw [analyze, analyzeSelect, hsource] at h
        obtain ⟨call, _, hcall, h⟩ := Run.bind_ok h
        obtain ⟨t, _, _, _, rfl, rfl, -⟩ := ofSelect_ok (Run.ofExcept_ok h)
        exact ⟨t, rfl, Call.exists_named hcall⟩
      · cases hs
  | insert s =>
      obtain ⟨call, _, hcall, h⟩ := Run.bind_ok h
      obtain ⟨_, _, _, -, rfl, -⟩ := ofInsert_ok (Run.ofExcept_ok h)
      exact ⟨_, rfl, Call.exists_named hcall⟩
  | delete s =>
      obtain ⟨call, _, hcall, h⟩ := Run.bind_ok h
      obtain ⟨_, _, rfl, -⟩ := ofDelete_ok (Run.ofExcept_ok h)
      exact ⟨_, rfl, Call.exists_named hcall⟩
  | exec s =>
      simp only [analyze, analyzeExec] at h
      split at h
      · cases h
      · obtain ⟨call, _, hcall, h⟩ := Run.bind_ok h
        obtain ⟨_, _, _, rfl, -⟩ := ofExec_ok (Run.ofExcept_ok h)
        exact ⟨_, rfl, Call.exists_named hcall⟩
  | _ => cases hs

end Analysis

namespace Session

variable {s : Session} {text : String} {statement : Sql.Statement}

/-- The session with dry runs, or without. -/
def withDryRun (s : Session) (dryRun : Bool) : Session :=
  { s with settings := { s.settings with dryRun } }

theorem Sound.withDryRun (h : s.Sound) (dryRun : Bool) : (s.withDryRun dryRun).Sound :=
  ⟨h.loaded, h.current⟩

theorem exists_call (ht : Sql.Statement.ofText text = .ok statement) (hs : statement.makesCall = true)
    {kind : String} {i : Instruction} (h : s.made text = .ok (kind, i)) :
    ∃ call, i.call? = some call ∧ ∃ name, s.providers.named name = .ok call.provider := by
  obtain ⟨_, _, _, a, hparsed, -, ha, hi⟩ := made_ok h
  cases ht.symm.trans hparsed
  obtain ⟨t, htarget, hnamed⟩ := Analysis.exists_target hs ha
  obtain ⟨use, hcall⟩ := Instruction.call_of_target hi htarget
  exact ⟨t.toCall use, hcall, hnamed⟩

theorem made_of_plan (h : s.Sound) (hplan : (plan text s).1.isOk = true) :
    ∃ kind i, s.made text = .ok (kind, i) := by
  obtain ⟨r, _, hp, -, hr⟩ := plan_eq_made h.loaded h.current text
  rw [hp] at hplan
  cases r with
  | error e => cases hplan
  | ok p => exact ⟨_, _, hr.1⟩

/-- A statement for a call of a provider for which a plan can be made: with dry runs, it sends nothing, and
its one row shows a request. Without dry runs, the same session sends this request with the token of the
provider, and nothing before it but what signing in takes: a fixed token takes nothing. Only a token that
has to be asked for can be missing, and then the request is not sent. -/
theorem dryRun_shows_first_request {start : Session} (hl : start.providers.Loaded)
    (hp : start.plans.entries = []) (h : Reached start s)
    (ht : Sql.Statement.ofText text = .ok statement) (hs : statement.makesCall = true)
    (hplan : (plan text s).1.isOk = true) :
    ∃ (p : Provider) (r : Request) (plans : PlanCache),
      (∃ name, s.providers.named name = .ok p) ∧
      executeStatement text (s.withDryRun true) =
        ({ Output.ofRows
            { columns := ["method", "url", "body"]
              rows := [Row.ofTexts
                [("method", r.verb), ("url", r.url), ("body", r.body.getD "")]] }
            with transaction := s.transactions + 1 },
          { s.withDryRun true with transactions := s.transactions + 1, plans }) ∧
      let signed (token : String) : Request :=
        { r with headers := Dict.put r.headers "Authorization" ("Bearer " ++ token) }
      let (out, t) := executeStatement text (s.withDryRun false)
      (∀ token principal, p.login = .fixed token principal →
        ∃ later, t.context.sent = later ++ signed token :: s.context.sent) ∧
      (p.login = .google → ∃ asked, Token.Asks asked ∧
        ((∃ token later, t.context.sent = later ++ signed token :: (asked ++ s.context.sent)) ∨
          out.error.isSome ∧ t.context.sent = asked ++ s.context.sent)) := by
  have hsound := h.sound (.of_no_plans hl hp)
  obtain ⟨kind, i, hmade⟩ := made_of_plan hsound hplan
  obtain ⟨call, hcall, hnamed⟩ := exists_call ht hs hmade
  obtain ⟨plans, hdry, -⟩ := executeStatement_eq_outcome (hsound.withDryRun true) text
  obtain ⟨others, hreal, -⟩ := executeStatement_eq_outcome (hsound.withDryRun false) text
  have houtcome (dryRun : Bool) : (s.withDryRun dryRun).outcome text =
      performed (s.withDryRun dryRun).settings i (s.transactions + 1) s.context := by
    have hmade : (s.withDryRun dryRun).made text = .ok (kind, i) := hmade
    rw [outcome, hmade]
    rfl
  rw [houtcome, performed, Instruction.execute_of_dryRun hcall rfl] at hdry
  have hfirst := Instruction.sendsFirst_execute hcall (s := (s.withDryRun false).settings) rfl s.context
  rcases hrun : i.execute (s.withDryRun false).settings s.context with ⟨result, c⟩
  rw [houtcome, performed, hrun] at hreal
  rw [hrun] at hfirst
  refine ⟨call.provider, call.prepared.request, plans, hnamed, hdry, ?_⟩
  rw [hreal]
  refine ⟨fun token principal hlogin => ?_, fun hlogin => ?_⟩
  · obtain ⟨_, asked, hgives, later, hsent⟩ | ⟨hgoogle, -⟩ := hfirst
    · rw [hlogin] at hgives
      obtain ⟨rfl, rfl⟩ := hgives
      exact ⟨later, hsent.symm⟩
    · cases hlogin.symm.trans hgoogle
  · obtain ⟨token, asked, hgives, later, hsent⟩ | ⟨-, e, asked, hasked, herror, hsent⟩ := hfirst
    · rw [hlogin] at hgives
      exact ⟨asked, hgives, .inl ⟨token, later, hsent.symm⟩⟩
    · cases herror
      exact ⟨asked, hasked, .inr ⟨rfl, hsent⟩⟩

/-- The statement for which a dry run and a run are compared below. -/
def awaitedDelete : String :=
  "DELETE /*+ AWAIT */ FROM google.compute.networks WHERE project = \x27p\x27 AND \x27n\x27 = network"

theorem dryRun_shows_first_request_awaitedDelete :
    let s := start (.initial "") Sample.providers Sample.context
    ∃ (r : Request) (later : List Request),
      (executeStatement awaitedDelete (s.withDryRun true)).1.result =
        some { columns := ["method", "url", "body"]
               rows := [Row.ofTexts [("method", r.verb), ("url", r.url), ("body", r.body.getD "")]] } ∧
      (executeStatement awaitedDelete (s.withDryRun true)).2.context.sent = [] ∧
      (executeStatement awaitedDelete (s.withDryRun false)).2.context.sent =
        later ++ [{ r with headers := Dict.put r.headers "Authorization" "Bearer token" }] := by
  intro s
  have hchecks : ((Sql.Statement.ofText awaitedDelete).toOption.any Sql.Statement.makesCall &&
      (plan awaitedDelete s).1.isOk) = true := by
    decide +kernel
  obtain ⟨hcall, hplan⟩ := Bool.and_eq_true_iff.1 hchecks
  obtain ⟨statement, ht, hs⟩ := (Option.any_eq_true _ _).1 hcall
  obtain ⟨p, r, plans, ⟨name, hname⟩, hdry, hreal⟩ :=
    dryRun_shows_first_request (.singleton ⟨_, _, rfl⟩) rfl .start (eq_ok_of_toOption ht) hs hplan
  have hlogin : p.login = .fixed "token" "me" := by
    rw [Providers.eq_of_named hname]
    rfl
  obtain ⟨later, hsent⟩ := hreal.1 "token" "me" hlogin
  rw [hdry]
  exact ⟨r, later, rfl, rfl, hsent⟩

end Session
end RestSql
