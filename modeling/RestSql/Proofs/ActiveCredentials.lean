import Mathlib.Data.List.Induction
import RestSql.Proofs.Downloads
import RestSql.Proofs.FailedPlans

/-!
# When credentials are active

Three statements change whether the credentials for a provider are active, if they succeed: AUTH and
SHOW AUTH, which finds out who is signed in, make them active, and AUTH REVOKE makes them inactive. So
the last of these statements that succeeded decides (`Session.active_iff`).
-/

namespace RestSql

open Run

/-- The credentials for the provider are active. -/
def Context.active (c : Context) (provider : String) : Bool :=
  (c.credentialsOf provider).active

namespace Context

variable (c : Context) (provider : String) (value : Credentials)

theorem active_congr {c c' : Context} (h : c'.settled = c.settled) : c'.active = c.active :=
  funext fun name => congrArg Credentials.active (credentialsOf_congr h name)

theorem active_setCredentials (name : String) :
    (c.setCredentials provider value).active name =
      if provider = name then value.active else c.active name := by
  unfold active
  rw [credentialsOf_setCredentials]
  split <;> rfl

/-- Credentials that are as active as those before them make no difference. -/
theorem active_setCredentials_self (h : value.active = (c.credentialsOf provider).active) :
    (c.setCredentials provider value).active = c.active := by
  funext name
  rw [active_setCredentials]
  split
  · next hn => rw [h, hn, active]
  · rfl

end Context

/-! ## Runs that change which credentials are active -/

namespace Run

variable {α β : Type} {provider : String} {on : Bool}

/-- After the context, the credentials for the provider are active, or inactive if `on` is false, and those
for other providers are as active as before. After a failure all of them are. -/
def Switched (provider : String) (on : Bool) (c : Context) : Except Error α × Context → Prop
  | (.error _, c') => c'.active = c.active
  | (.ok _, c') => ∀ name, c'.active name = if provider = name then on else c.active name

/-- The run makes the credentials for the provider active, or inactive if `on` is false. -/
def Switches (provider : String) (on : Bool) (x : Run α) : Prop :=
  ∀ c : Context, Switched provider on c (x c)

/-- Only what is active before the run matters. -/
theorem Switches.of_active {x : Run α} (h : Switches provider on x) {c c' : Context}
    (hc : c'.active = c.active) : Switched provider on c (x c') := by
  have h := h c'
  rcases hx : x c' with ⟨e | a, c''⟩ <;> rw [hx] at h
  · exact h.trans hc
  · intro name
    rw [← hc]
    exact h name

theorem switches_setCredentials {value : Credentials} (h : value.active = on) :
    Switches provider on (Run.setCredentials provider value) := by
  rintro c name
  rw [Context.active_setCredentials, h]

/-- What goes before the switch may fail, but leaves the credentials as active as they are. -/
theorem Keeps.bind_switches {x : Run α} {f : α → Run β} (hx : Keeps Context.active x)
    (hf : ∀ a, Switches provider on (f a)) : Switches provider on (x >>= f) := by
  intro c
  have hx := hx c
  rw [bind_apply]
  rcases h : x c with ⟨e | a, c'⟩ <;> rw [h] at hx
  · exact hx
  · exact (hf a).of_active hx

/-- What goes after the switch leaves the credentials as active as they are and does not fail. -/
theorem Switches.bind {x : Run α} {f : α → Run β} (hx : Switches provider on x)
    (hf : ∀ a c, ∃ b c', f a c = (.ok b, c') ∧ c'.active = c.active) :
    Switches provider on (x >>= f) := by
  intro c
  have hx := hx c
  rw [bind_apply]
  rcases h : x c with ⟨e | a, c'⟩ <;> rw [h] at hx
  · exact hx
  · obtain ⟨b, c'', hf, hactive⟩ := hf a c'
    dsimp only
    rw [hf]
    intro name
    rw [hactive]
    exact hx name

theorem Switches.bind_pure {x : Run α} (hx : Switches provider on x) (f : α → β) :
    Switches provider on (x >>= fun a => pure (f a)) :=
  hx.bind fun a c => ⟨f a, c, rfl, rfl⟩

theorem Keeps.active_of_settled {x : Run α} (h : Keeps Context.settled x) :
    Keeps Context.active x :=
  fun c => Context.active_congr (h c)

theorem keeps_credentials (provider : String) : Keeps Context.active (Run.credentials provider) :=
  fun c => Context.active_setCredentials_self c provider _ rfl

end Run

/-! ## Tokens and calls -/

theorem Login.keeps_token (l : Login) (credentials : Credentials) :
    Keeps Context.active (l.token credentials) := by
  cases l with
  | fixed text principal => exact fun _ => rfl
  | google =>
      refine keeps_get.bind fun context => (closed_keeps _).guard ?_
      split
      · exact keeps_pure _
      · refine (Login.keeps_newToken credentials).active_of_settled.bind fun t => ?_
        exact fun _ => rfl

theorem Provider.keeps_call (p : Provider) (r : Request) : Keeps Context.active (p.call r) := by
  refine (keeps_credentials p.name).bind fun credentials => ?_
  refine ((Login.keeps_token _ credentials).bind fun token => keeps_pure _).bind fun headers => ?_
  refine (keeps_fetch (fun _ _ => rfl) _).bind fun response => ?_
  exact (closed_keeps _).ofExcept _ _

theorem RestCall.keeps_morePages (call : RestCall) (s : CallSettings) (patience pages : Nat)
    (body : Json) : Keeps Context.active (call.morePages s patience pages body) := by
  induction patience generalizing pages body with
  | zero =>
      rw [morePages]
      split
      · exact keeps_pure _
      · exact keeps_throw _
  | succ patience ih =>
      rw [morePages]
      split
      · exact keeps_pure _
      · refine ((closed_keeps _).ofExcept _ _).bind fun request => ?_
        exact (call.provider.keeps_call request).bind fun body =>
          (ih _ body).bind fun _ => keeps_pure _

theorem RestCall.keeps_execute (call : RestCall) (s : CallSettings) :
    Keeps Context.active (call.execute s) := by
  unfold execute
  split
  · exact keeps_pure _
  · split
    · refine Keeps.bind ?_ fun rows => keeps_pure _
      exact (call.provider.keeps_call _).bind fun body =>
        (call.keeps_morePages s _ _ body).bind fun _ => keeps_pure _
    · exact (call.provider.keeps_call _).bind fun body => keeps_pure _

theorem Operation.keeps_report (quiet : Bool) (line : String) :
    Keeps Context.active (report quiet line) := by
  cases quiet <;> exact fun _ => rfl

theorem Operation.keeps_watch (p : Provider) (s : CallSettings) (quiet : Bool) (name : String)
    (patience elapsed : Nat) (body : Json) :
    Keeps Context.active (watch p s quiet name patience elapsed body) := by
  have hcomplete (body : Json) : Keeps Context.active (report quiet (completeLine name) >>=
      fun lines => (pure (lines, body) : Run (List String × Json))) :=
    (keeps_report _ _).bind fun _ => keeps_pure _
  induction patience generalizing elapsed body with
  | zero =>
      rw [watch]
      split
      · exact hcomplete body
      · split <;> exact keeps_throw _
  | succ patience ih =>
      rw [watch]
      split
      · exact hcomplete body
      · split
        · exact keeps_throw _
        · have hwait : Keeps Context.active (wait (1000 * s.pollInterval)) := fun _ => rfl
          refine hwait.bind fun _ => (keeps_report _ _).bind fun _ => ?_
          exact (p.keeps_call _).bind fun body => (ih _ body).bind fun _ => keeps_pure _

theorem Operation.keeps_execute (call : RestCall) (s : CallSettings) (quiet showResults : Bool) :
    Keeps Context.active (execute call s quiet showResults) := by
  unfold execute
  split
  · exact keeps_pure _
  · exact (call.provider.keeps_call _).bind fun body =>
      (keeps_watch _ _ _ _ _ _ body).bind fun _ => keeps_pure _

/-! ## Questions about credentials -/

namespace Provider

variable (p : Provider)

theorem switches_identity : Switches p.name true p.identity := by
  refine (keeps_credentials p.name).bind_switches fun credentials => ?_
  refine (keeps_tryCatch (Login.keeps_principal _ _) fun _ => keeps_throw _).bind_switches
    fun principal => ?_
  exact (switches_setCredentials rfl).bind_pure _

theorem switches_signOut : Switches p.name false p.signOut := by
  refine (keeps_credentials p.name).bind_switches fun credentials => ?_
  exact (Login.keeps_revoke (fun _ _ => rfl) _ _).bind_switches fun _ => switches_setCredentials rfl

/-- The kind that is asked for is written before anything else, and says nothing about whether the
credentials are active. -/
theorem switches_signIn (kind : String) : Switches p.name true (p.signIn kind) := by
  intro c
  have hswitches (requested : Credentials) : Switches p.name true (do
      let _ ← p.login.token requested
      let principal ← tryCatch (p.login.principal requested) fun _ => pure ""
      Run.setCredentials p.name (requested.activate principal requested.kind)) :=
    (Login.keeps_token _ _).bind_switches fun _ =>
      (keeps_tryCatch (Login.keeps_principal _ _) fun _ => keeps_pure _).bind_switches fun _ =>
        switches_setCredentials rfl
  rw [signIn_apply]
  exact (hswitches _).of_active (Context.active_setCredentials_self c p.name _ rfl)

end Provider

namespace ProviderQuery

theorem switches_executeSignIn (p : Provider) (kind : String) (keyFile : Option String) :
    Switches p.name true (executeSignIn p kind keyFile) := by
  intro c
  have hswitches : Switches p.name true (do
      p.signIn kind
      let c ← Run.credentials p.name
      let who := if c.principal = "" then c.kind else c.principal
      return Output.ofMessage ("Authenticated to provider '" ++ p.name ++ "' as '" ++ who ++ "'")) := by
    refine (p.switches_signIn kind).bind fun _ c => ⟨_, _, rfl, ?_⟩
    exact Context.active_setCredentials_self c p.name _ rfl
  rw [executeSignIn_apply]
  exact hswitches.of_active (Context.active_setCredentials_self c p.name _ rfl)

/-- Whether the question makes the credentials for a provider active or inactive. -/
def switch? : ProviderQuery → Option (Bool × Provider)
  | signIn p _ _ => some (true, p)
  | identity p => some (true, p)
  | signOut p => some (false, p)
  | _ => none

theorem switches_execute {q : ProviderQuery} {on : Bool} {p : Provider}
    (h : q.switch? = some (on, p)) (filter : Option Filter) :
    Switches p.name on (q.execute filter) := by
  cases q with
  | identity p =>
      cases h
      exact p.switches_identity.bind_pure _
  | signIn p kind keyFile =>
      cases h
      exact switches_executeSignIn p kind keyFile
  | signOut p =>
      cases h
      exact p.switches_signOut.bind_pure _
  | _ => cases h

theorem keeps_execute {q : ProviderQuery} (h : q.switch? = none) (filter : Option Filter) :
    Keeps Context.active (q.execute filter) := by
  cases q with
  | services p extended =>
      refine Keeps.active_of_settled (Keeps.bind ?_ fun _ => keeps_pure _)
      exact p.keeps_directory.bind fun _ => keeps_pure _
  | resources p service extended =>
      exact ((p.keeps_service service).bind fun _ => keeps_pure _).active_of_settled
  | methods p service resource extended =>
      exact ((p.keeps_resource service resource).bind fun _ => keeps_pure _).active_of_settled
  | providers names => exact keeps_pure _
  | rows r => exact keeps_pure _
  | identity p => cases h
  | signIn p kind keyFile => cases h
  | signOut p => cases h

/-- What succeeds says so. -/
theorem error_of_execute {q : ProviderQuery} {filter : Option Filter} {c : Context} {out : Output}
    (h : (q.execute filter c).1 = .ok out) : out.error = none := by
  cases q with
  | signIn p kind keyFile => exact executeSignIn_ok h
  | providers names =>
      cases h
      rfl
  | rows r =>
      cases h
      rfl
  | _ =>
      obtain ⟨_, _, -, h⟩ := bind_ok h
      cases h
      rfl

end ProviderQuery

/-! ## Statements -/

/-- Whether the statement makes credentials active or inactive, and the provider that it names for it. -/
def Sql.Statement.switch? : Sql.Statement → Option (Bool × String)
  | auth a => some (true, a.provider)
  | «show» s => if s.kind = "AUTH" then some (true, (s.target.getD ⟨[]⟩).last) else none
  | revoke provider => some (false, provider)
  | _ => none

namespace Analysis

variable {ps : Providers} {current : String} {pageSize : Nat} {c : Context}

/-- Whether the answer makes the credentials for a provider active or inactive. -/
def switch? : Analysis → Option (Bool × Provider)
  | query q _ => q.switch?
  | _ => none

theorem switch_of_listing {s : Sql.Show} {l : Listing} (h : listing ps current s = .ok l) :
    l.query.switch? = (Sql.Statement.show s).switch?.bind fun asked =>
      (providerNamed ps current asked.2).toOption.map (asked.1, ·) := by
  unfold listing at h
  by_cases hk : s.kind = "AUTH"
  · rw [Sql.Statement.switch?, if_pos hk]
    simp only [hk] at h
    obtain ⟨p, hp, ⟨⟩⟩ := bind_eq_ok.1 h
    simp only [Option.bind_some, mapError_eq_ok.1 hp]
    rfl
  · rw [Sql.Statement.switch?, if_neg hk, Option.bind_none]
    dsimp only at h
    split at h
    · obtain ⟨_, -, ⟨⟩⟩ := bind_eq_ok.1 h
      rfl
    · obtain ⟨_, -, ⟨⟩⟩ := bind_eq_ok.1 h
      rfl
    · obtain ⟨_, -, ⟨⟩⟩ := bind_eq_ok.1 (guard_eq_ok.1 h).2
      rfl
    · obtain ⟨_, -, ⟨⟩⟩ := bind_eq_ok.1 (guard_eq_ok.1 h).2
      rfl
    · exact (hk ‹_›).elim
    · cases h

/-- The meaning of a statement is about the credentials for the provider that it names. -/
theorem switch_of_analyze {s : Sql.Statement} {a : Analysis}
    (h : (analyze ps current pageSize s c).1 = .ok a) :
    a.switch? = s.switch?.bind fun asked =>
      (providerNamed ps current asked.2).toOption.map (asked.1, ·) := by
  have hasks := asks_of_analyze h
  split at hasks
  · obtain ⟨q, filter, rfl, hq⟩ := hasks
    cases hq with
    | template hk _ =>
        rw [Sql.Statement.switch?, if_neg (by rw [hk]; decide)]
        rfl
    | listing hl => exact switch_of_listing hl
    | description _ _ => rfl
    | signIn hp =>
        simp only [Sql.Statement.switch?, Option.bind_some, hp]
        rfl
    | signOut hp =>
        simp only [Sql.Statement.switch?, Option.bind_some, hp]
        rfl
  · next hs =>
    have hstatement : s.switch? = none := by
      cases s with
      | «show» _ => exact absurd rfl hs
      | auth _ => exact absurd rfl hs
      | revoke _ => exact absurd rfl hs
      | _ => rfl
    have hanalysis : a.switch? = none := by
      cases a with
      | query q filter => cases hasks
      | _ => rfl
    rw [hstatement, hanalysis]
    rfl

end Analysis

namespace Instruction

def switch? : Instruction → Option (Bool × Provider)
  | query q _ => q.switch?
  | _ => none

theorem switch_of_analysis {a : Analysis} {i : Instruction} (h : ofAnalysis a = .ok i) :
    i.switch? = a.switch? := by
  cases a with
  | mutation kind target d =>
      simp only [ofAnalysis, ofMutation] at h
      repeat' split at h
      all_goals cases h <;> rfl
  | _ =>
      cases h
      rfl

theorem keeps_execute {i : Instruction} (h : i.switch? = none) (s : CallSettings) :
    Keeps Context.active (i.execute s) := by
  cases i with
  | rest call => exact call.keeps_execute s
  | monitored call quiet showResults => exact Operation.keeps_execute call s quiet showResults
  | query q filter => exact q.keeps_execute h filter
  | literals result => exact keeps_pure _
  | sleep duration =>
      have hwait : Keeps Context.active (wait duration) := fun _ => rfl
      exact hwait.bind fun _ => keeps_pure _
  | use provider =>
      have huse : Keeps Context.active (modify fun c : Context => { c with current := provider } :
        Run PUnit) := fun _ => rfl
      exact huse.bind fun _ => keeps_pure _
  | join tables => exact keeps_throw _

/-- A question that succeeds makes the credentials for its provider active or inactive, and no output
that it yields is a failure. -/
theorem switches_execute {i : Instruction} {on : Bool} {p : Provider} (h : i.switch? = some (on, p))
    (s : CallSettings) :
    Switches p.name on (i.execute s) ∧
      ∀ c out, (i.execute s c).1 = .ok out → out.error = none := by
  cases i with
  | query q filter =>
      exact ⟨ProviderQuery.switches_execute h filter, fun _ _ => ProviderQuery.error_of_execute⟩
  | _ => cases h

end Instruction

namespace Session

open Analysis (providerNamed)

variable {s : Session} {text : String}

/-- What a statement was planned to do about credentials is what it says. -/
theorem Made.switch_eq_some_iff {ps : Providers} {pageSize : Nat} {current : String}
    {i : Instruction} (h : Made ps pageSize current text i) {on : Bool} {p : Provider} :
    i.switch? = some (on, p) ↔ ∃ statement written, Sql.Statement.ofText text = .ok statement ∧
      statement.switch? = some (on, written) ∧ providerNamed ps current written = .ok p := by
  obtain ⟨transaction, plan, c, rfl, hb, rfl⟩ := h
  obtain ⟨statement, a, i, hparsed, -, ha, hi, rfl⟩ := build_eq_ok.1 (Prod.ext hb rfl)
  show i.switch? = _ ↔ _
  rw [Instruction.switch_of_analysis hi, Analysis.switch_of_analyze (congrArg Prod.fst ha)]
  simp only [Option.bind_eq_some_iff, Option.map_eq_some_iff, Prod.mk.injEq]
  constructor
  · rintro ⟨⟨_, written⟩, hasked, _, hp, rfl, rfl⟩
    exact ⟨statement, written, hparsed, hasked, eq_ok_of_toOption hp⟩
  · rintro ⟨_, written, hparsed', hasked, hp⟩
    cases hparsed.symm.trans hparsed'
    exact ⟨(on, written), hasked, p, by rw [hp]; rfl, rfl, rfl⟩

/-- The statement makes the credentials for the provider active, or inactive if `on` is false: it is one of
the three that do, it names the provider, and it succeeds. -/
def Switches (s : Session) (text : String) (on : Bool) (provider : String) : Prop :=
  ∃ statement written p, Sql.Statement.ofText text = .ok statement ∧
    statement.switch? = some (on, written) ∧
    providerNamed s.providers s.context.current written = .ok p ∧ p.name = provider ∧
    (executeStatement text s).1.error = none

/-- A statement that switches the credentials for a provider leaves them so, and any other statement
leaves them as active as they were. -/
theorem active_executeStatement (hs : s.PlansMade) (text provider : String) :
    let after := (executeStatement text s).2.context.active provider
    (∀ on, s.Switches text on provider → after = on) ∧
    ((∀ on, ¬s.Switches text on provider) → after = s.context.active provider) := by
  obtain ⟨r, planned, plans, hplan, hsettled, -, hmade⟩ := hs.plan text
  have hplanned : planned.active = s.context.active := Context.active_congr hsettled
  unfold Switches
  cases r with
  | error e =>
      rw [executeStatement_of_error hplan]
      refine ⟨?_, fun _ => congrFun hplanned provider⟩
      rintro on ⟨_, _, _, -, -, -, -, ⟨⟩⟩
  | ok plan =>
      rcases hx : plan.instruction.execute s.settings planned with ⟨r, context⟩
      rw [executeStatement_of_ok hplan (perform_of_execute hx)]
      dsimp only
      cases hi : plan.instruction.switch? with
      | none =>
          have hkeeps := Instruction.keeps_execute hi s.settings planned
          rw [hx] at hkeeps
          refine ⟨?_, fun _ => congrFun (hkeeps.trans hplanned) provider⟩
          rintro on ⟨_, _, _, hparsed, hasked, hp, -, -⟩
          cases hi.symm.trans (hmade.switch_eq_some_iff.2 ⟨_, _, hparsed, hasked, hp⟩)
      | some asked =>
          obtain ⟨on, p⟩ := asked
          obtain ⟨hswitches, hout⟩ := Instruction.switches_execute hi s.settings
          have hswitched := hswitches planned
          rw [hx] at hswitched
          cases r with
          | error e =>
              refine ⟨?_, fun _ => congrFun (hswitched.trans hplanned) provider⟩
              rintro on ⟨_, _, _, -, -, -, -, ⟨⟩⟩
          | ok out =>
              refine ⟨?_, fun hnone => ?_⟩
              · rintro on' ⟨_, _, _, hparsed, hasked, hp, rfl, -⟩
                cases hi.symm.trans (hmade.switch_eq_some_iff.2 ⟨_, _, hparsed, hasked, hp⟩)
                exact (hswitched p.name).trans (if_pos rfl)
              · have hother : p.name ≠ provider := by
                  intro hp
                  obtain ⟨_, _, hparsed, hasked, hnamed⟩ := hmade.switch_eq_some_iff.1 hi
                  refine hnone on ⟨_, _, p, hparsed, hasked, hnamed, hp, ?_⟩
                  exact hout planned out (by rw [hx])
                refine (hswitched provider).trans ((if_neg hother).trans ?_)
                exact congrFun hplanned provider

/-! ## Runs -/

/-- The statement at a position switches the credentials for the provider, in its turn. -/
def SwitchesAt (s : Session) (texts : List String) (i : Nat) (on : Bool) (provider : String) : Prop :=
  ∃ text, texts[i]? = some text ∧ (executeEach (texts.take i) s).2.Switches text on provider

variable {texts : List String} {i : Nat} {on : Bool} {provider : String}

theorem SwitchesAt.lt_length (h : s.SwitchesAt texts i on provider) : i < texts.length := by
  obtain ⟨text, htext, -⟩ := h
  exact (List.getElem?_eq_some_iff.1 htext).1

theorem switchesAt_concat : s.SwitchesAt (texts ++ [text]) i on provider ↔
    s.SwitchesAt texts i on provider ∨
      i = texts.length ∧ (executeEach texts s).2.Switches text on provider := by
  rcases Nat.lt_trichotomy i texts.length with hi | rfl | hi
  · simp only [SwitchesAt, List.getElem?_append_left hi,
      List.take_append_of_le_length (Nat.le_of_lt hi), Nat.ne_of_lt hi, false_and, or_false]
  · simp [SwitchesAt]
  · have hmore : ¬i < (texts ++ [text]).length := by
      simp only [List.length_append, List.length_singleton]
      omega
    constructor
    · exact fun h => (hmore h.lt_length).elim
    · rintro (h | ⟨rfl, -⟩)
      · exact (Nat.lt_asymm hi h.lt_length).elim
      · exact (Nat.lt_irrefl _ hi).elim

/-- Credentials are active if the last statement that switched them made them so, or if they were active
before and no statement made them inactive. -/
theorem active_executeEach {start : Session} (hstart : start.PlansMade) (h : Reached start s)
    (texts : List String) (provider : String) :
    (executeEach texts s).2.context.active provider = true ↔
      (∃ i, s.SwitchesAt texts i true provider ∧ ∀ j > i, ¬s.SwitchesAt texts j false provider) ∨
      s.context.active provider = true ∧ ∀ j, ¬s.SwitchesAt texts j false provider := by
  induction texts using List.reverseRecOn with
  | nil =>
      have hnone (i : Nat) (on : Bool) : ¬s.SwitchesAt [] i on provider :=
        fun h => Nat.not_lt_zero _ h.lt_length
      simp only [hnone, exists_false, false_or, not_false_eq_true, implies_true, and_true]
      rfl
  | append_singleton texts text ih =>
      have hlast : (executeEach (texts ++ [text]) s).2 =
          (executeStatement text (executeEach texts s).2).2 := by
        rw [executeEach_append]
        rfl
      obtain ⟨hswitched, hkept⟩ :=
        active_executeStatement ((h.executeEach texts).plansMade hstart) text provider
      rw [hlast]
      simp only [switchesAt_concat]
      by_cases hon : (executeEach texts s).2.Switches text true provider
      -- the statement makes them active, and none comes after it
      · refine iff_of_true (hswitched true hon) (.inl ⟨texts.length, .inr ⟨rfl, hon⟩, ?_⟩)
        rintro j hj (hat | ⟨rfl, -⟩)
        · exact Nat.lt_asymm hj hat.lt_length
        · exact Nat.lt_irrefl _ hj
      · by_cases hoff : (executeEach texts s).2.Switches text false provider
        -- it makes them inactive after all others
        · refine iff_of_false (by rw [hswitched false hoff]; decide) ?_
          rintro (⟨i, hat | ⟨-, hat⟩, hnone⟩ | ⟨-, hnone⟩)
          · exact hnone _ hat.lt_length (.inr ⟨rfl, hoff⟩)
          · exact hon hat
          · exact hnone _ (.inr ⟨rfl, hoff⟩)
        -- it is not a statement that counts
        · have hnot (on : Bool) : ¬(executeEach texts s).2.Switches text on provider := by
            cases on
            · exact hoff
            · exact hon
          simp only [hnot, and_false, or_false]
          rw [hkept hnot]
          exact ih

/-- Credentials that are not active at first are active exactly if some AUTH or SHOW AUTH for their
provider succeeded and no AUTH REVOKE for it succeeded after the last such statement. No other statement
makes a difference, and none that fails. -/
theorem active_iff {config : Config} {ps : Providers} {context : Context}
    (h : Reached (start config ps context) s) (hinactive : s.context.active provider = false)
    (texts : List String) :
    let after := (executeEach texts s).2
    (after.context.active provider = true ↔
      ∃ i, s.SwitchesAt texts i true provider ∧ ∀ j > i, ¬s.SwitchesAt texts j false provider) ∧
    ∀ text, ((executeStatement text after).1.error ≠ none ∨
        ∀ statement, Sql.Statement.ofText text = .ok statement → statement.switch? = none) →
      (executeStatement text after).2.context.active provider = after.context.active provider := by
  intro after
  have hstart : PlansMade (start config ps context) := .of_no_plans rfl
  refine ⟨?_, fun text hother => ?_⟩
  · rw [active_executeEach hstart h texts provider, hinactive]
    simp
  · refine (active_executeStatement ((h.executeEach texts).plansMade hstart) text provider).2 ?_
    rintro on ⟨statement, _, _, hparsed, hasked, -, -, hok⟩
    rcases hother with herror | hnone
    · exact herror hok
    · rw [hnone statement hparsed] at hasked
      cases hasked

/-- A session that has not begun yet, with a provider that has a fixed token. -/
def withToken : Session :=
  start (.initial "google") [("google", .google (.loaded [] []) (.fixed "token" "me") false)]
    (.initial .unreachable "google")

/-- The first sign-in is revoked, but then somebody asks who is signed in. -/
theorem active_iff_asked :
    let texts := ["AUTH google", "AUTH REVOKE google", "SHOW AUTH", "SELECT 1", "AUTH other"]
    withToken.context.active "google" = false ∧
      (executeEach texts withToken).2.context.active "google" = true ∧
      ∃ i, withToken.SwitchesAt texts i true "google" ∧
        ∀ j > i, ¬withToken.SwitchesAt texts j false "google" := by
  intro texts
  have hinactive : withToken.context.active "google" = false := rfl
  have hactive : (executeEach texts withToken).2.context.active "google" = true := by decide +kernel
  obtain ⟨hiff, -⟩ := active_iff (s := withToken) .start hinactive texts
  exact ⟨hinactive, hactive, hiff.1 hactive⟩

/-- The statement at a position is AUTH for the provider and succeeds, in its turn. -/
def SignsInAt (s : Session) (texts : List String) (i : Nat) (provider : String) : Prop :=
  ∃ text a p, texts[i]? = some text ∧ Sql.Statement.ofText text = .ok (.auth a) ∧
    let s := (executeEach (texts.take i) s).2
    providerNamed s.providers s.context.current a.provider = .ok p ∧ p.name = provider ∧
      (executeStatement text s).1.error = none

/-- To ask who is signed in is enough, without any sign-in. -/
theorem not_active_only_after_signIn : ¬∀ texts,
    (executeEach texts withToken).2.context.active "google" = true ↔
      ∃ i, withToken.SignsInAt texts i "google" ∧
        ∀ j > i, ¬withToken.SwitchesAt texts j false "google" := by
  intro h
  obtain ⟨i, ⟨text, a, p, htext, ha, -⟩, -⟩ := (h ["SHOW AUTH"]).1 (by decide +kernel)
  obtain rfl : text = "SHOW AUTH" := List.mem_singleton.1 (List.mem_of_getElem? htext)
  have hkind : (Sql.Statement.ofText "SHOW AUTH").toOption.map Sql.Statement.kind = some "SHOW" := by
    decide +kernel
  rw [ha] at hkind
  have hsame : "AUTH" = "SHOW" := Option.some.inj hkind
  exact absurd hsame (by decide)

end Session
end RestSql
