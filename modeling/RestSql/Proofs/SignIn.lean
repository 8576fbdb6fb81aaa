import RestSql.Proofs.Accepted
import RestSql.Proofs.Planning

/-!
# Sign-ins that fail

A sign-in first writes the requested kind and key file into the credentials of the provider, and then
asks for a token. If there is none, what was written stays. Everything else is as before.
-/

namespace RestSql

open Run

/-- The credentials with which a sign-in asks for a token. -/
def Credentials.requested (c : Credentials) (kind : String) (keyFile : Option String) : Credentials :=
  let c := { c with keyFile := keyFile.orElse fun _ => c.keyFile }
  { c with kind := (c.inferKind kind).text }

theorem Credentials.requested_eq_iff {c : Credentials} {kind : String} {keyFile : Option String} :
    c.requested kind keyFile = c ↔
      (keyFile = none ∨ keyFile = c.keyFile) ∧ (c.inferKind kind).text = c.kind := by
  have hkeyFile : (keyFile.orElse fun _ => c.keyFile) = c.keyFile ↔
      keyFile = none ∨ keyFile = c.keyFile := by
    cases keyFile <;> simp
  rw [← hkeyFile]
  constructor
  · intro h
    have hk := congrArg Credentials.keyFile h
    have hkind := congrArg Credentials.kind h
    simp only [requested] at hk hkind
    rw [hk] at hkind
    exact ⟨hk, hkind⟩
  · rintro ⟨hk, hkind⟩
    simp only [requested, hk, hkind]

/-! ## Credentials by provider -/

namespace Context

/-- Requests and documents have no part in the credentials. -/
theorem credentialsOf_congr {c c' : Context} (h : c'.settled = c.settled) (name : String) :
    c'.credentialsOf name = c.credentialsOf name := by
  show c'.settled.credentialsOf name = c.settled.credentialsOf name
  rw [h]

variable (c : Context) (provider : String) (value other : Credentials)

theorem setCredentials_setCredentials :
    (c.setCredentials provider value).setCredentials provider other =
      c.setCredentials provider other := by
  simp only [setCredentials, Dict.put_put]

theorem credentialsOf_setCredentials (name : String) :
    (c.setCredentials provider value).credentialsOf name =
      if provider = name then value else c.credentialsOf name := by
  unfold credentialsOf setCredentials
  rw [Dict.find?_put]
  by_cases h : provider = name
  · simp [h]
  · simp [h]

end Context

theorem Run.credentials_apply (provider : String) (c : Context) :
    Run.credentials provider c =
      (.ok (c.credentialsOf provider), c.setCredentials provider (c.credentialsOf provider)) := rfl

/-! ## Asking for a token -/

section

variable {γ : Type} {view : Context → γ}

theorem AccountKey.keeps_read (path : Option String) : Keeps view (AccountKey.read path) := by
  unfold AccountKey.read
  split
  · exact keeps_throw _
  · refine keeps_get.bind fun c => ?_
    repeat' split
    all_goals first | exact keeps_throw _ | exact keeps_pure _

theorem Gcloud.keeps_call (arguments : List String) : Keeps view (Gcloud.call arguments) := by
  refine keeps_get.bind fun c => ?_
  repeat' split
  all_goals first | exact keeps_throw _ | exact keeps_pure _

theorem Gcloud.keeps_token : Keeps view Gcloud.token :=
  (Gcloud.keeps_call _).bind fun _ => (closed_keeps _).guard (keeps_get.bind fun _ => keeps_pure _)

end

theorem Token.keeps_ofAccount (c : Credentials) : Keeps Context.settled (Token.ofAccount c) := by
  refine (AccountKey.keeps_read _).bind fun key => keeps_get.bind fun context => ?_
  refine (closed_keeps _).guard ((keeps_fetch (fun _ _ => rfl) _).bind fun response => ?_)
  refine ((closed_keeps _).ofExcept _ _).bind fun body => ?_
  split
  · exact keeps_throw _
  · exact ((closed_keeps _).ofExcept _ _).bind fun _ => keeps_pure _

theorem Login.keeps_newToken (c : Credentials) : Keeps Context.settled (Login.newToken c) := by
  unfold newToken
  split
  · exact Token.keeps_ofAccount c
  · exact Gcloud.keeps_token

/-- A call for a token gives the one at hand, or keeps a new one. -/
theorem Login.google_token_apply (credentials : Credentials) (c : Context) :
    google.token credentials c =
      if (Dict.find? c.tokens credentials.cacheKey).any Token.isEarly then
        (.error (.fault .calendar), c)
      else match (Dict.find? c.tokens credentials.cacheKey).filter (·.isFresh c.clock) with
        | some t => (.ok t, c)
        | none => (do
            let t ← newToken credentials
            modify fun context : Context =>
              { context with tokens := Dict.put context.tokens credentials.cacheKey t }
            return t) c := by
  rw [token, get_bind_apply]
  split
  · rfl
  · cases (Dict.find? c.tokens credentials.cacheKey).filter (·.isFresh c.clock) <;> rfl

/-- Where no token is given, nothing is kept of the attempt. -/
theorem Login.settled_of_token_error {l : Login} {credentials : Credentials} {c c' : Context}
    {e : Error} (h : l.token credentials c = (.error e, c')) : c'.settled = c.settled := by
  cases l with
  | fixed text principal => cases h
  | google =>
      have hnew := Login.keeps_newToken credentials c
      rw [google_token_apply] at h
      split at h
      · cases h
        rfl
      · split at h
        · cases h
        · rw [bind_apply] at h
          rcases hn : newToken credentials c with ⟨e' | t, c₁⟩
          · rw [hn] at h hnew
            cases h
            exact hnew
          · rw [hn] at h
            cases h

/-! ## Signing in -/

theorem Run.tryCatch_pure_apply {α : Type} (x : Run α) (a : α) (c : Context) :
    ∃ b, (tryCatch x fun _ => pure a) c = (.ok b, (x c).2) := by
  show ∃ b, (ExceptT.tryCatch x fun _ => pure a : Run α) c = _
  unfold ExceptT.tryCatch ExceptT.mk
  simp only [bind, StateT.bind]
  rcases x c with ⟨_ | b, c'⟩
  · exact ⟨a, rfl⟩
  · exact ⟨b, rfl⟩

theorem Run.setCredentials_apply (provider : String) (value : Credentials) (c : Context) :
    Run.setCredentials provider value c = (.ok (), c.setCredentials provider value) := rfl

namespace Provider

variable {p : Provider} {kind : String} {c c' : Context} {e : Error}

theorem signIn_apply (p : Provider) (kind : String) (c : Context) :
    let requested := (c.credentialsOf p.name).requested kind none
    p.signIn kind c = (do
      let _ ← p.login.token requested
      let principal ← tryCatch (p.login.principal requested) fun _ => pure ""
      Run.setCredentials p.name (requested.activate principal requested.kind))
        (c.setCredentials p.name requested) := by
  intro requested
  rw [← Context.setCredentials_setCredentials c p.name (c.credentialsOf p.name)]
  simp only [signIn, bind_apply, credentials_apply, setCredentials_apply]
  rfl

/-- A sign-in fails only where no token is given for what was requested. -/
theorem signIn_error (h : p.signIn kind c = (.error e, c')) :
    let requested := (c.credentialsOf p.name).requested kind none
    p.login.token requested (c.setCredentials p.name requested) = (.error e, c') := by
  intro requested
  rw [signIn_apply, bind_apply] at h
  rcases ht : p.login.token requested (c.setCredentials p.name requested) with ⟨e' | t, c₁⟩
  · rw [ht] at h
    cases h
    rfl
  · rw [ht] at h
    obtain ⟨principal, hp⟩ := tryCatch_pure_apply (p.login.principal requested) "" c₁
    dsimp only at h
    rw [bind_apply, hp] at h
    cases h

end Provider

namespace ProviderQuery

theorem executeSignIn_apply (p : Provider) (kind : String) (keyFile : Option String) (c : Context) :
    let old := c.credentialsOf p.name
    executeSignIn p kind keyFile c = (do
      p.signIn kind
      let c ← Run.credentials p.name
      let who := if c.principal = "" then c.kind else c.principal
      return Output.ofMessage ("Authenticated to provider '" ++ p.name ++ "' as '" ++ who ++ "'"))
        (c.setCredentials p.name { old with keyFile := keyFile.orElse fun _ => old.keyFile }) := by
  intro old
  rw [← Context.setCredentials_setCredentials c p.name old]
  simp only [executeSignIn, bind_apply, credentials_apply, setCredentials_apply]
  rfl

/-- Of a sign-in that fails, the requested kind and key file stay in the credentials of the provider. -/
theorem executeSignIn_error {p : Provider} {kind : String} {keyFile : Option String} {c c' : Context}
    {e : Error} (h : executeSignIn p kind keyFile c = (.error e, c')) :
    c'.settled =
      (c.setCredentials p.name ((c.credentialsOf p.name).requested kind keyFile)).settled := by
  rw [executeSignIn_apply, bind_apply] at h
  rcases hs : p.signIn kind (c.setCredentials p.name
    { c.credentialsOf p.name with
      keyFile := keyFile.orElse fun _ => (c.credentialsOf p.name).keyFile }) with ⟨e' | _, c₁⟩
  · rw [hs] at h
    cases h
    have hsettled := Login.settled_of_token_error (Provider.signIn_error hs)
    rw [Context.credentialsOf_setCredentials, if_pos rfl, Context.setCredentials_setCredentials]
      at hsettled
    exact hsettled
  · rw [hs] at h
    cases h

/-- A sign-in that succeeds reports no error. -/
theorem executeSignIn_ok {p : Provider} {kind : String} {keyFile : Option String} {c : Context}
    {out : Output} (h : (executeSignIn p kind keyFile c).1 = .ok out) : out.error = none := by
  rw [executeSignIn_apply] at h
  obtain ⟨_, c₁, -, h⟩ := bind_ok h
  cases h
  rfl

end ProviderQuery

namespace Session

/-! ## Sign-ins as statements -/

open Analysis (providerNamed)

/-- The check of the provider names of a sign-in asks nothing but what its analysis asks, too. -/
theorem checkNames_auth (ps : Providers) (a : Sql.Auth) (c : Context) :
    let check : Run PUnit := (Sql.Statement.auth a).providerNames.forM fun name => do
      let _ ← Run.ofExcept .resolution (ps.named name)
    check c = (if a.provider = "" then .ok () else
      ((ps.named a.provider).mapError .resolution).map fun _ => (), c) := by
  intro check
  by_cases he : a.provider = ""
  · have hnames : (Sql.Statement.auth a).providerNames = [] := by
      simp [Sql.Statement.providerNames, he]
    rw [if_pos he]
    unfold check
    rw [hnames]
    rfl
  · have hnames : (Sql.Statement.auth a).providerNames = [a.provider] := by
      simp [Sql.Statement.providerNames, he]
    rw [if_neg he]
    unfold check
    rw [hnames]
    show ((Run.ofExcept Error.resolution (ps.named a.provider) >>= fun _ => pure ()) >>=
      fun _ => pure () : Run PUnit) c = _
    rw [bind_apply, bind_apply, ofExcept_apply]
    cases ps.named a.provider <;> rfl

/-- To plan a sign-in, only its provider is looked up. -/
theorem build_auth {text : String} {a : Sql.Auth}
    (ht : Sql.Statement.ofText text = .ok (.auth a)) (ps : Providers) (pageSize transaction : Nat)
    (c : Context) :
    build ps pageSize text transaction c =
      (((providerNamed ps c.current a.provider).mapError .resolution).map fun p =>
        .make "AUTH" text (.query (.signIn p (a.kind.getD "") a.keyFile) none) transaction, c) := by
  have hrest : (do
      let analysis ← Analysis.analyze ps (← get).current pageSize (.auth a)
      let instruction ← Run.ofExcept Error.plan (Instruction.ofAnalysis analysis)
      return .make "AUTH" text instruction transaction : Run Plan) c =
        (((providerNamed ps c.current a.provider).mapError .resolution).map fun p =>
          .make "AUTH" text (.query (.signIn p (a.kind.getD "") a.keyFile) none) transaction, c) := by
    rw [get_bind_apply, Analysis.analyze, bind_apply, bind_apply, ofExcept_apply]
    cases providerNamed ps c.current a.provider <;> rfl
  unfold build
  rw [ht, bind_apply]
  show (_ >>= _ : Run Plan) c = _
  rw [bind_apply, checkNames_auth]
  by_cases he : a.provider = ""
  · rw [if_pos he]
    exact hrest
  · rw [if_neg he]
    have hnamed : providerNamed ps c.current a.provider = ps.named a.provider :=
      congrArg ps.named (if_neg he)
    cases hp : ps.named a.provider with
    | error e =>
        rw [hnamed, hp]
        rfl
    | ok p => exact hrest

/-- Only sign-ins are made for the text of a sign-in. -/
theorem instruction_of_made {ps : Providers} {pageSize : Nat} {current text : String}
    {a : Sql.Auth} {instruction : Instruction} (ht : Sql.Statement.ofText text = .ok (.auth a))
    (h : Made ps pageSize current text instruction) :
    ∃ p, providerNamed ps current a.provider = .ok p ∧
      instruction = .query (.signIn p (a.kind.getD "") a.keyFile) none := by
  obtain ⟨transaction, plan, c, rfl, hb, rfl⟩ := h
  rw [build_auth ht] at hb
  obtain ⟨p, hp, rfl⟩ := map_eq_ok.1 hb
  exact ⟨p, mapError_eq_ok.1 hp, rfl⟩

/-- The credentials that a sign-in leaves for a provider if it fails. -/
def leftBy (s : Session) (a : Sql.Auth) (name : String) : Credentials :=
  let old := s.context.credentialsOf name
  match providerNamed s.providers s.context.current a.provider with
  | .ok p => if p.name = name then old.requested (a.kind.getD "") a.keyFile else old
  | .error _ => old

theorem leftBy_eq_iff (s : Session) (a : Sql.Auth) :
    (∀ name, s.leftBy a name = s.context.credentialsOf name) ↔
      ∀ p, providerNamed s.providers s.context.current a.provider = .ok p →
        (a.keyFile = none ∨ a.keyFile = (s.context.credentialsOf p.name).keyFile) ∧
        ((s.context.credentialsOf p.name).inferKind (a.kind.getD "")).text =
          (s.context.credentialsOf p.name).kind := by
  unfold leftBy
  cases hp : providerNamed s.providers s.context.current a.provider with
  | error e => exact ⟨fun _ _ h => (nomatch h), fun _ _ => rfl⟩
  | ok p =>
      simp only [Except.ok.injEq, forall_eq', ← Credentials.requested_eq_iff]
      refine ⟨fun h => by simpa using h p.name, fun h name => ?_⟩
      split
      · next hn => rw [← hn, h]
      · rfl

/-- A statement to sign in that fails leaves what it asked with in the credentials of its provider, and
changes nothing else but requests and documents. -/
theorem context_of_failed_signIn {s : Session} (hs : s.PlansMade) {text : String} {a : Sql.Auth}
    (ht : Sql.Statement.ofText text = .ok (.auth a)) {e : Error}
    (he : (executeStatement text s).1.error = some e) :
    ∃ credentials, (executeStatement text s).2.context.settled =
        { s.context with credentials }.settled ∧
      ∀ name, { s.context with credentials }.credentialsOf name = s.leftBy a name := by
  obtain ⟨planned, context, out, plans, hexec, hsettled, -, hcase⟩ := hs.executeStatement text
  rw [hexec] at he ⊢
  unfold leftBy
  rcases hcase with ⟨rfl, e', hfails⟩ | ⟨instruction, r, hmade, hx, herror⟩
  -- the provider is not known
  · rw [build_auth ht] at hfails
    cases hp : providerNamed s.providers s.context.current a.provider with
    | error e => exact ⟨_, hsettled, fun _ => rfl⟩
    | ok p =>
        rw [hp] at hfails
        cases hfails
  -- the provider gives no token
  · obtain ⟨p, hp, rfl⟩ := instruction_of_made ht hmade
    rw [hp]
    dsimp only
    cases r with
    | ok reported =>
        have hnone := ProviderQuery.executeSignIn_ok (congrArg Prod.fst hx)
        cases (herror.trans hnone).symm.trans he
    | error e =>
        have hleft := ProviderQuery.executeSignIn_error hx
        have hplanned := Context.credentialsOf_congr hsettled
        rw [hplanned] at hleft
        let credentials := Dict.put planned.credentials p.name
          ((s.context.credentialsOf p.name).requested (a.kind.getD "") a.keyFile)
        have hcontext : { planned with credentials }.settled = { s.context with credentials }.settled :=
          congrArg (fun c : Context => { c with credentials }) hsettled
        refine ⟨credentials, hleft.trans hcontext, fun name => ?_⟩
        rw [← Context.credentialsOf_congr hcontext]
        refine (Context.credentialsOf_setCredentials _ _ _ name).trans ?_
        by_cases hn : p.name = name
        · rw [if_pos hn, if_pos hn, hn]
        · rw [if_neg hn, if_neg hn, hplanned]

/-- A statement to sign in does what the sign-in does. -/
theorem executeStatement_signIn {s : Session} (hs : s.Sound) {text : String} {a : Sql.Auth}
    (ht : Sql.Statement.ofText text = .ok (.auth a)) {p : Provider}
    (hp : providerNamed s.providers s.context.current a.provider = .ok p) :
    let signIn := ProviderQuery.executeSignIn p (a.kind.getD "") a.keyFile s.context
    (executeStatement text s).1.error = (outputOf signIn.1).error ∧
      (executeStatement text s).2.context = signIn.2 := by
  intro signIn
  have hmade : s.made text =
      .ok ("AUTH", .query (.signIn p (a.kind.getD "") a.keyFile) none) := by
    rw [made, build_auth ht, hp]
    rfl
  obtain ⟨plans, he, -⟩ := executeStatement_eq_outcome hs text
  rw [he, outcome, hmade]
  have hexecute : (Instruction.query (.signIn p (a.kind.getD "") a.keyFile) none).execute s.settings
      s.context = signIn := rfl
  rcases hsignIn : signIn with ⟨r, c⟩
  simp only [performed, hexecute, hsignIn]
  cases r <;> exact ⟨rfl, trivial⟩

/-- The text is the statement to sign in. -/
def readsSignIn (text : String) (a : Sql.Auth) : Bool :=
  match Sql.Statement.ofText text with
  | .ok (.auth b) => b = a
  | _ => false

theorem ofText_of_readsSignIn {text : String} {a : Sql.Auth} (h : readsSignIn text a = true) :
    Sql.Statement.ofText text = .ok (.auth a) := by
  unfold readsSignIn at h
  split at h
  · next b hb => rw [hb, of_decide_eq_true h]
  · cases h

/-- Service accounts have a short name. -/
example : readsSignIn "auth google sa" ⟨"google", some "serviceaccount", none⟩ = true := by
  decide +kernel

/-- A session that has not begun yet, with a provider that asks the login program for the tokens of a
user. -/
def withLogin (gcloud : Option (Dict CommandResult)) : Session :=
  start (.initial "") [("google", .google (.loaded [] []) .google false)]
    { Context.initial .unreachable "google" with gcloud }

theorem sound_withLogin (gcloud : Option (Dict CommandResult)) : (withLogin gcloud).Sound :=
  .of_no_plans (.singleton ⟨[], [], rfl⟩) rfl

end Session
end RestSql
