import RestSql.Proofs.SignIn

/-!
# Requests for tokens

A login asks for a token by at most one request, which exchanges an assertion: it does so if the
credentials are those of a service account with a key that can sign, and no fresh token is at hand. To
sign in is to ask for a token, and no other question about credentials sends a request.
-/

namespace RestSql

open Run

/-! ## Runs that leave the context as it is -/

namespace Run

variable {α γ : Type} {view : Context → γ}

theorem keeps_tryCatch {x : Run α} {f : Error → Run α} (hx : Keeps view x)
    (hf : ∀ e, Keeps view (f e)) : Keeps view (tryCatch x f) := by
  intro c
  have hx := hx c
  show view ((ExceptT.tryCatch x f : Run α) c).2 = _
  unfold ExceptT.tryCatch ExceptT.mk
  simp only [bind, StateT.bind]
  rcases h : x c with ⟨e | a, c'⟩ <;> rw [h] at hx
  · exact (hf e c').trans hx
  · exact hx

/-- What follows a run and keeps the view does not change what is seen after it. -/
theorem Keeps.after_bind {β : Type} {x : Run α} {f : α → Run β} (hf : ∀ a, Keeps view (f a))
    (c : Context) : view ((x >>= f) c).2 = view (x c).2 := by
  rw [bind_apply]
  rcases x c with ⟨e | a, c'⟩
  · rfl
  · exact hf a c'

end Run

variable {γ : Type} {view : Context → γ}

theorem Gcloud.keeps_account : Keeps view Gcloud.account :=
  (Gcloud.keeps_call _).bind fun _ => (closed_keeps _).guard (keeps_pure _)

theorem Login.keeps_principal (l : Login) (credentials : Credentials) :
    Keeps view (l.principal credentials) := by
  cases l with
  | fixed text principal => exact keeps_pure _
  | google =>
      simp only [principal]
      split
      · exact (AccountKey.keeps_read _).bind fun _ => keeps_pure _
      · exact Gcloud.keeps_account

/-- Only a token that is kept is lost when credentials are revoked. -/
theorem Login.keeps_revoke (h : ∀ c tokens, view { c with tokens } = view c) (l : Login)
    (credentials : Credentials) : Keeps view (l.revoke credentials) := by
  unfold revoke
  split
  · split
    · exact keeps_throw _
    · exact keeps_pure _
  · dsimp only
    split
    · exact keeps_throw _
    · split
      · exact ((Gcloud.keeps_call _).bind fun _ => keeps_pure _).bind fun _ =>
          keeps_modify fun c => h c _
      · exact keeps_throw _

/-! ## Exchanges -/

/-- The request for a token, if the key file can be read and its key can sign. -/
def Token.exchange? (credentials : Credentials) (c : Context) : Option Request :=
  match (AccountKey.read credentials.keyFile c).1 with
  | .error _ => none
  | .ok key =>
    if PrivateKey.isValid key.privateKey then
      let claims : Claims :=
        { email := key.email, scopes := credentials.effectiveScopes, audience := key.address
          time := c.clock / 1000 }
      some (exchangeRequest key.address (claims.assertion (c.sign key.privateKey)))
    else none

/-- The request for a new token, if a request gives one. -/
def Credentials.exchange? (credentials : Credentials) (c : Context) : Option Request :=
  match credentials.usedKind with
  | .serviceAccount => Token.exchange? credentials c
  | .interactive => none

/-- The request for a token, if none is at hand that is fresh or too early to tell. -/
def Login.exchange? (l : Login) (credentials : Credentials) (c : Context) : Option Request :=
  match l with
  | .fixed _ _ => none
  | .google =>
    if (Dict.find? c.tokens credentials.cacheKey).any fun t => t.isEarly || t.isFresh c.clock then none
    else credentials.exchange? c

theorem Token.ofAccount_after (credentials : Credentials) (c : Context) :
    (Token.ofAccount credentials c).2 =
      { c with sent := (exchange? credentials c).toList ++ c.sent } := by
  have hread : Keeps id (AccountKey.read credentials.keyFile) := AccountKey.keeps_read _
  have hread := hread c
  rw [ofAccount, bind_apply, exchange?]
  rcases hkey : AccountKey.read credentials.keyFile c with ⟨e | key, c'⟩
  · rw [hkey] at hread
    exact hread
  · rw [hkey] at hread
    obtain rfl : c' = c := hread
    simp only [get_bind_apply]
    cases hvalid : PrivateKey.isValid key.privateKey with
    | false => rfl
    | true =>
        -- whatever is made of the response, nothing else is sent
        show id ((Run.fetch _ >>= _) c').2 = _
        refine (Keeps.after_bind (fun response => ?_) c').trans ?_
        · refine ((closed_keeps _).ofExcept _ _).bind fun body => ?_
          split
          · exact keeps_throw _
          · exact ((closed_keeps _).ofExcept _ _).bind fun _ => keeps_pure _
        · rw [fetch_apply]
          rfl

theorem Login.newToken_after (credentials : Credentials) (c : Context) :
    (newToken credentials c).2 =
      { c with sent := (credentials.exchange? c).toList ++ c.sent } := by
  unfold newToken Credentials.exchange?
  cases credentials.usedKind with
  | serviceAccount => exact Token.ofAccount_after credentials c
  | interactive =>
      have htoken : Keeps id Gcloud.token := Gcloud.keeps_token
      exact htoken c

/-- What was sent and what is remembered of documents. -/
def Context.traffic (c : Context) : List Request × Dict Library :=
  (c.sent, c.libraries)

theorem Login.traffic_token (l : Login) (credentials : Credentials) (c : Context) :
    (l.token credentials c).2.traffic =
      ((l.exchange? credentials c).toList ++ c.sent, c.libraries) := by
  cases l with
  | fixed text principal => rfl
  | google =>
      have hput (t : Token) : Keeps Context.traffic (do
          modify fun context : Context =>
            { context with tokens := Dict.put context.tokens credentials.cacheKey t }
          return t) := fun _ => rfl
      rw [google_token_apply, exchange?]
      cases Dict.find? c.tokens credentials.cacheKey with
      | none =>
          refine (Keeps.after_bind hput c).trans ?_
          rw [newToken_after]
          rfl
      | some t =>
          simp only [Option.any_some, Option.filter_some]
          by_cases hearly : t.isEarly
          · rw [if_pos hearly, if_pos (by simp [hearly])]
            rfl
          · rw [if_neg hearly]
            by_cases hfresh : t.isFresh c.clock
            · rw [if_pos hfresh, if_pos (by simp [hfresh])]
              rfl
            · rw [if_neg hfresh, if_neg (by simp [hearly, hfresh])]
              refine (Keeps.after_bind hput c).trans ?_
              rw [newToken_after]
              rfl

/-! ## Questions about credentials -/

theorem Login.exchange?_setCredentials (l : Login) (credentials : Credentials) (c : Context)
    (provider : String) (value : Credentials) :
    l.exchange? credentials (c.setCredentials provider value) = l.exchange? credentials c := by
  have hread : (AccountKey.read credentials.keyFile (c.setCredentials provider value)).1 =
      (AccountKey.read credentials.keyFile c).1 := by
    cases credentials.keyFile with
    | none => rfl
    | some path =>
        simp only [AccountKey.read, get_bind_apply, Context.setCredentials]
        cases c.files.read path with
        | error e => rfl
        | ok f =>
            dsimp only
            cases Json.decode? AccountKey.decoder f.text <;> rfl
  unfold exchange? Credentials.exchange? Token.exchange?
  rw [hread]
  rfl

namespace Provider

/-- To sign in is to ask for a token. -/
theorem traffic_signIn (p : Provider) (kind : String) (c : Context) :
    (p.signIn kind c).2.traffic =
      ((p.login.exchange? ((c.credentialsOf p.name).requested kind none) c).toList ++ c.sent,
        c.libraries) := by
  have hprincipal (credentials : Credentials) (t : Token) : Keeps Context.traffic (do
      let principal ← tryCatch (p.login.principal credentials) fun _ => Pure.pure ""
      Run.setCredentials p.name (credentials.activate principal credentials.kind)) :=
    (keeps_tryCatch (Login.keeps_principal _ _) fun _ => keeps_pure _).bind fun _ => fun _ => rfl
  rw [signIn_apply]
  refine (Keeps.after_bind (hprincipal _) _).trans ?_
  rw [Login.traffic_token, Login.exchange?_setCredentials]
  rfl

theorem keeps_identity (p : Provider) : Keeps Context.traffic p.identity := by
  have hcredentials : Keeps Context.traffic (Run.credentials p.name) := fun _ => rfl
  refine hcredentials.bind fun credentials => ?_
  refine (keeps_tryCatch (Login.keeps_principal _ _) fun _ => keeps_throw _).bind fun principal => ?_
  exact fun _ => rfl

theorem keeps_signOut (p : Provider) : Keeps Context.traffic p.signOut := by
  have hcredentials : Keeps Context.traffic (Run.credentials p.name) := fun _ => rfl
  refine hcredentials.bind fun credentials => ?_
  exact (Login.keeps_revoke (fun _ _ => rfl) _ _).bind fun _ => fun _ => rfl

end Provider

theorem ProviderQuery.traffic_executeSignIn (p : Provider) (kind : String)
    (keyFile : Option String) (c : Context) :
    (executeSignIn p kind keyFile c).2.traffic =
      ((p.login.exchange? ((c.credentialsOf p.name).requested kind keyFile) c).toList ++ c.sent,
        c.libraries) := by
  rw [executeSignIn_apply]
  refine (Keeps.after_bind (fun _ => ?_) _).trans ?_
  · exact fun _ => rfl
  · rw [Provider.traffic_signIn, Login.exchange?_setCredentials, Context.credentialsOf_setCredentials,
      if_pos rfl]
    rfl

end RestSql
