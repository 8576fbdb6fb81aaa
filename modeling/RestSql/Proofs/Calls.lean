import RestSql.Proofs.Steady
import RestSql.Proofs.Steps

namespace RestSql

namespace Run

variable {α β ε : Type}

/-- The run sends at most the requests of one of the lists in `p`, the latest first. -/
def SendsWithin (p : List Request → Prop) (x : Run α) : Prop :=
  ∀ c : Context, ∃ asked, p asked ∧ (x c).2.sent = asked ++ c.sent

/-- The run sends nothing. -/
def Quiet (x : Run α) : Prop :=
  ∀ c : Context, (x c).2.sent = c.sent

theorem quiet_pure (a : α) : Quiet (pure a) := fun _ => rfl

theorem quiet_throw (e : Error) : Quiet (throw e : Run α) := fun _ => rfl

theorem quiet_get : Quiet (get : Run Context) := fun _ => rfl

theorem Quiet.bind {x : Run α} {f : α → Run β} (hx : Quiet x) (hf : ∀ a, Quiet (f a)) :
    Quiet (x >>= f) := by
  intro c
  have hx := hx c
  rw [bind_apply]
  rcases h : x c with ⟨e | a, c'⟩ <;> rw [h] at hx
  · exact hx
  · exact (hf a c').trans hx

theorem closed_quiet : Closed fun _ => Quiet :=
  ⟨quiet_pure, quiet_throw, Quiet.bind⟩

variable {p : List Request → Prop}

theorem Quiet.sendsWithin {x : Run α} (h : Quiet x) (hp : p []) : SendsWithin p x :=
  fun c => ⟨[], hp, h c⟩

theorem Quiet.bind_sendsWithin {x : Run α} {f : α → Run β} (hx : Quiet x) (hp : p [])
    (hf : ∀ a, SendsWithin p (f a)) : SendsWithin p (x >>= f) := by
  intro c
  have hx := hx c
  rw [bind_apply]
  rcases h : x c with ⟨e | a, c'⟩ <;> rw [h] at hx
  · exact ⟨[], hp, hx⟩
  · rw [← hx]
    exact hf a c'

theorem SendsWithin.bind_quiet {x : Run α} {f : α → Run β} (hx : SendsWithin p x)
    (hf : ∀ a, Quiet (f a)) : SendsWithin p (x >>= f) := by
  intro c
  obtain ⟨asked, hp, hx⟩ := hx c
  refine ⟨asked, hp, ?_⟩
  rw [bind_apply, ← hx]
  rcases x c with ⟨e | a, c'⟩
  · rfl
  · exact hf a c'

theorem sendsWithin_guard {q : Prop} [Decidable q] {e : Error} {x : Run α} (hp : p [])
    (hx : SendsWithin p x) : SendsWithin p (do
      if q then throw e
      x) := by
  split
  · exact (quiet_throw e).sendsWithin hp
  · exact hx

theorem ofExcept_apply (wrap : ε → Error) (x : Except ε α) (c : Context) :
    ofExcept wrap x c = (x.mapError wrap, c) := by
  cases x <;> rfl

theorem fetch_apply (r : Request) (c : Context) :
    fetch r c = ((c.network.answer c.sent r).mapError .transport, { c with sent := r :: c.sent }) := by
  simp only [fetch, bind_apply]
  show ofExcept .transport (c.network.answer c.sent r) { c with sent := r :: c.sent } = _
  cases c.network.answer c.sent r <;> rfl

end Run

open Run

/-- Requests for a token: none, or one that exchanges an assertion. -/
def Token.Asks (asked : List Request) : Prop :=
  asked = [] ∨ ∃ address assertion, asked = [exchangeRequest address assertion]

theorem Gcloud.quiet_token : Quiet Gcloud.token := by
  refine Quiet.bind (x := Gcloud.call _) ?_ fun text => closed_quiet.guard (quiet_get.bind fun _ => quiet_pure _)
  refine quiet_get.bind fun c => ?_
  repeat' split
  all_goals first | exact quiet_throw _ | exact quiet_pure _

theorem AccountKey.quiet_read (path : Option String) : Quiet (AccountKey.read path) := by
  unfold AccountKey.read
  split
  · exact quiet_throw _
  · refine quiet_get.bind fun c => ?_
    repeat' split
    all_goals first | exact quiet_throw _ | exact quiet_pure _

theorem Token.sendsWithin_ofAccount (c : Credentials) : SendsWithin Asks (Token.ofAccount c) := by
  refine (AccountKey.quiet_read _).bind_sendsWithin (.inl rfl) fun key => ?_
  refine quiet_get.bind_sendsWithin (.inl rfl) fun context => ?_
  refine sendsWithin_guard (.inl rfl) (SendsWithin.bind_quiet ?_ fun response => ?_)
  · intro c
    rw [fetch_apply]
    exact ⟨[_], .inr ⟨_, _, rfl⟩, rfl⟩
  · refine (closed_quiet.ofExcept _ _).bind fun body => ?_
    split
    · exact quiet_throw _
    · exact (closed_quiet.ofExcept _ _).bind fun _ => quiet_pure _

theorem Login.sendsWithin_newToken (c : Credentials) :
    SendsWithin Token.Asks (Login.newToken c) := by
  unfold newToken
  split
  · exact Token.sendsWithin_ofAccount c
  · exact Gcloud.quiet_token.sendsWithin (.inl rfl)

theorem Login.sendsWithin_google (c : Credentials) :
    SendsWithin Token.Asks (Login.google.token c) := by
  refine quiet_get.bind_sendsWithin (.inl rfl) fun context => sendsWithin_guard (.inl rfl) ?_
  split
  · exact (quiet_pure _).sendsWithin (.inl rfl)
  · exact (sendsWithin_newToken c).bind_quiet fun t => fun _ => rfl

/-- The login may give the token after the requests `asked`. A fixed token takes none. -/
def Login.Gives (l : Login) (token : String) (asked : List Request) : Prop :=
  match l with
  | .fixed text _ => token = text ∧ asked = []
  | .google => Token.Asks asked

theorem Login.gives_of_token {l : Login} {credentials : Credentials} {t : Token} {c c' : Context}
    (h : l.token credentials c = (.ok t, c')) :
    ∃ asked, l.Gives t.text asked ∧ c'.sent = asked ++ c.sent := by
  cases l with
  | fixed text principal =>
      cases h
      exact ⟨[], ⟨rfl, rfl⟩, rfl⟩
  | google =>
      obtain ⟨asked, hasked, hsent⟩ := sendsWithin_google credentials c
      rw [h] at hsent
      exact ⟨asked, hasked, hsent⟩

namespace Provider

/-- The headers that carry a token. -/
def bearer (token : String) : Dict String :=
  [("Authorization", "Bearer " ++ token)]

/-- Between the contexts the request is sent with a token, and nothing else but what the login sends for
the token before it. -/
def Sends (p : Provider) (r : Request) (c c' : Context) : Prop :=
  ∃ token asked, p.login.Gives token asked ∧
    c'.sent = r.withHeaders (bearer token) :: (asked ++ c.sent)

theorem headers_apply (p : Provider) (credentials : Credentials) (c : Context) :
    p.headers credentials c = match p.login.token credentials c with
      | (.error e, c₁) => (.error e, c₁)
      | (.ok token, c₁) => (.ok (bearer token.text), c₁) := by
  rw [headers, bind_apply]
  rcases p.login.token credentials c with ⟨_ | token, c₁⟩ <;> rfl

theorem call_apply (p : Provider) (r : Request) (c : Context) :
    let credentials := c.credentialsOf p.name
    p.call r c = match p.login.token credentials (c.setCredentials p.name credentials) with
      | (.error e, c₁) => (.error e, c₁)
      | (.ok token, c₁) =>
        let signed := r.withHeaders (bearer token.text)
        let answer := (c₁.network.answer c₁.sent signed).mapError .transport
        (answer >>= fun response => response.value.mapError .ofResponse,
          { c₁ with sent := signed :: c₁.sent }) := by
  intro credentials
  have hcredentials : Run.credentials p.name c =
      (.ok credentials, c.setCredentials p.name credentials) := rfl
  simp only [call, bind_apply, hcredentials, headers_apply, fetch_apply]
  rcases p.login.token credentials (c.setCredentials p.name credentials) with ⟨_ | token, c₁⟩
  · rfl
  · dsimp only
    rcases c₁.network.answer c₁.sent (r.withHeaders (bearer token.text)) with _ | response
    · rfl
    · exact ofExcept_apply _ _ _

theorem sends_of_call {p : Provider} {r : Request} {c c' : Context} {body : Json}
    (h : p.call r c = (.ok body, c')) : p.Sends r c c' := by
  rw [call_apply] at h
  rcases ht : p.login.token (c.credentialsOf p.name)
    (c.setCredentials p.name (c.credentialsOf p.name)) with ⟨_ | token, c₁⟩
  · rw [ht] at h
    cases h
  · rw [ht] at h
    obtain ⟨asked, hasked, h₁⟩ := Login.gives_of_token ht
    refine ⟨token.text, asked, hasked, ?_⟩
    rw [← (Prod.mk.inj h).2, ← show asked ++ c.sent = _ from h₁.symm]

/-- With a fixed token exactly the requests are sent. -/
theorem sent_eq_of_sends {p : Provider} {request : Nat → Request} {context : Nat → Context} {n : Nat}
    {token principal : String}
    (h : ∀ i < n, p.Sends (request i) (context i) (context (i + 1)))
    (hp : p.login = .fixed token principal) :
    (context n).sent =
      ((List.range n).map fun i => (request i).withHeaders (bearer token)).reverse ++
        (context 0).sent := by
  induction n with
  | zero => rfl
  | succ n ih =>
      obtain ⟨_, asked, hgives, hsent⟩ := h n n.lt_succ_self
      rw [hp] at hgives
      obtain ⟨rfl, rfl⟩ := hgives
      rw [hsent, ih fun i hi => h i (Nat.lt_succ_of_lt hi)]
      simp [List.range_succ]

end Provider

namespace Sample

/-- A call on networks with a fixed token. -/
def networksCall (verb : String) (use : ResponseUse) : RestCall :=
  { provider := .google (.loaded [] []) (.fixed "token" "me") false
    method := { id := "compute.networks.list", name := "list", path := "networks", verb
                description := "", parameters := [], parameterOrder := [], request := none
                response := none }
    prepared := { parameters := .empty, request := .make verb "https://compute.test/networks"
                  requestSchema := none, responseSchema := none }
    itemsKey := some "items", use }

/-- A session that has not begun yet, with a network. -/
def sessionOn (network : Network) : Session :=
  .start (.initial "") [] (.initial network "google")

end Sample
end RestSql
