import RestSql.Proofs.Downloads

/-!
# Tokens are used again

A token is kept for the kind and the key file of the credentials that it was given for, and it is given out
again until a minute before its end. `TokenOutcome`s are the calls for tokens that were made one after the
other. What is at hand after them is the last token that was obtained for each account
(`Login.holds_outcomes`), so it is the token that a call gives if it sends nothing
(`Login.token_reused_iff`).
-/

namespace RestSql

open Run

/-! ## New tokens -/

namespace Run

variable {α β ε : Type} {f : α → Run β} {c : Context} {b : β}

theorem bind_ok_iff {x : Run α} {wrap : ε → Error} {result : Except ε α} {c' : Context}
    (hx : x c = (result.mapError wrap, c')) :
    ((x >>= f) c).1 = .ok b ↔ ∃ a, result = .ok a ∧ (f a c').1 = .ok b := by
  rw [bind_apply, hx]
  cases result with
  | error e =>
      constructor
      · rintro ⟨⟩
      · rintro ⟨_, ⟨⟩, -⟩
  | ok a =>
      constructor
      · exact fun h => ⟨a, rfl, h⟩
      · rintro ⟨_, ⟨⟩, h⟩
        exact h

theorem bind_ofExcept_ok {wrap : ε → Error} {x : Except ε α} :
    ((ofExcept wrap x >>= f) c).1 = .ok b ↔ ∃ a, x = .ok a ∧ (f a c).1 = .ok b :=
  bind_ok_iff (ofExcept_apply wrap x c)

theorem bind_fetch_ok {r : Request} {f : Response → Run β} :
    ((fetch r >>= f) c).1 = .ok b ↔ ∃ response, c.network.answer c.sent r = .ok response ∧
      (f response { c with sent := r :: c.sent }).1 = .ok b :=
  bind_ok_iff (fetch_apply r c)

end Run

namespace Token

/-- The token in a response: its text, and how many seconds it lasts. -/
def ofAnswer? (response : Response) : Option (String × Int) :=
  match response.value with
  | .error _ => none
  | .ok body => ofResponse? body

/-- The token in the answer to a request. -/
def answer? (c : Context) (r : Request) : Option (String × Int) :=
  match c.network.answer c.sent r with
  | .error _ => none
  | .ok response => ofAnswer? response

theorem expiryAfter_eq {now : Nat} {seconds expiry : Int} (h : expiryAfter now seconds = .ok expiry) :
    expiry = now + 1000 * seconds := by
  unfold expiryAfter at h
  dsimp only at h
  split at h
  · exact (Except.ok.inj h).symm
  · cases h

/-- The greatest lifetime that responses are expected to have, in seconds. -/
def usualLifetime : Nat := 1000000000

/-- The last time at which all usual lifetimes end within the calendar, in milliseconds. -/
def lastClock : Int := 1000 * calendarEnd + 999 - 1000 * usualLifetime

theorem expiryAfter_of_usual {now : Nat} {seconds : Int} (hseconds : seconds.natAbs ≤ usualLifetime)
    (hnow : now ≤ lastClock) : expiryAfter now seconds = .ok (now + 1000 * seconds) := by
  have hfits : seconds.natAbs ≤ maxInterval.toNat ∧ 1000 * calendarStart ≤ now + 1000 * seconds ∧
      now + 1000 * seconds ≤ 1000 * calendarEnd + 999 := by
    simp only [usualLifetime, lastClock, calendarEnd, calendarStart, maxInterval] at *
    omega
  exact if_pos hfits

theorem answer?_eq_some {c : Context} {r : Request} {a : String × Int} :
    answer? c r = some a ↔ ∃ response, c.network.answer c.sent r = .ok response ∧
      ∃ body, response.value = .ok body ∧ ofResponse? body = some a := by
  unfold answer? ofAnswer?
  cases c.network.answer c.sent r with
  | error e => simp
  | ok response => cases hvalue : response.value <;> simp [hvalue]

/-- A token for a service account is what the exchange is answered with. -/
theorem ofAccount_ok_iff {credentials : Credentials} {c : Context} {t : Token} :
    (ofAccount credentials c).1 = .ok t ↔
      ∃ r, exchange? credentials c = some r ∧ ∃ seconds, answer? c r = some (t.text, seconds) ∧
        expiryAfter c.clock seconds = .ok t.expiry := by
  have hread : Keeps id (AccountKey.read credentials.keyFile) := AccountKey.keeps_read _
  have hread := hread c
  rw [ofAccount, bind_apply, exchange?]
  rcases hkey : AccountKey.read credentials.keyFile c with ⟨e | key, c'⟩
  · simp
  · rw [hkey] at hread
    obtain rfl : c' = c := hread
    simp only [get_bind_apply]
    cases hvalid : PrivateKey.isValid key.privateKey with
    | false =>
        constructor
        · rintro ⟨⟩
        · rintro ⟨_, ⟨⟩, -⟩
    | true =>
        simp only [if_true, Option.some.injEq, exists_eq_left', answer?_eq_some]
        show ((Run.fetch _ >>= _) c').1 = _ ↔ _
        simp only [bind_fetch_ok, bind_ofExcept_ok]
        constructor
        · rintro ⟨response, hresponse, body, hbody, h⟩
          rcases hanswer : ofResponse? body with _ | ⟨text, seconds⟩ <;> rw [hanswer] at h
          · cases h
          · obtain ⟨expiry, hexpiry, h⟩ := bind_ofExcept_ok.1 h
            cases h
            exact ⟨seconds, ⟨response, hresponse, body, hbody, hanswer⟩, hexpiry⟩
        · rintro ⟨seconds, ⟨response, hresponse, body, hbody, hanswer⟩, hexpiry⟩
          refine ⟨response, hresponse, body, hbody, ?_⟩
          rw [hanswer]
          exact bind_ofExcept_ok.2 ⟨t.expiry, hexpiry, rfl⟩

/-- The request for a token goes to the address in the key file. -/
theorem address_of_exchange? {credentials : Credentials} {c : Context} {r : Request}
    (h : exchange? credentials c = some r) :
    r.verb = "POST" ∧
      ∃ key, (AccountKey.read credentials.keyFile c).1 = .ok key ∧ r.url = key.address := by
  unfold exchange? at h
  split at h
  · cases h
  · next key hkey =>
      split at h
      · cases h
        have hverb : Text.upper "POST" = "POST" := by simp [Text.upper, String.ext_iff]
        exact ⟨hverb, key, hkey, rfl⟩
      · cases h

end Token

/-! ## Calls for tokens -/

namespace Login

variable {credentials : Credentials} {c : Context}

/-- The token at hand for the credentials, while it is fresh. -/
def fresh? (credentials : Credentials) (c : Context) : Option Token :=
  (Dict.find? c.tokens credentials.cacheKey).filter (·.isFresh c.clock)

/-- The token at hand ends too early to be compared with the clock. -/
def early (credentials : Credentials) (c : Context) : Bool :=
  (Dict.find? c.tokens credentials.cacheKey).any Token.isEarly

/-- What a call comes to that has no fresh token. -/
def renewed (credentials : Credentials) (c : Context) : Except Error Token :=
  if early credentials c then .error (.fault .calendar) else (newToken credentials c).1

/-- The request of a call that has no fresh token. -/
def renewal? (credentials : Credentials) (c : Context) : Option Request :=
  if early credentials c then none else credentials.exchange? c

theorem newToken_of_renewed {t : Token} (h : renewed credentials c = .ok t) :
    (newToken credentials c).1 = .ok t ∧ renewal? credentials c = credentials.exchange? c := by
  rw [renewed] at h
  split at h
  · cases h
  · next hearly => exact ⟨h, if_neg hearly⟩

/-- A token that ends too early is not fresh. -/
theorem early_eq_false_of_fresh {t : Token} (h : fresh? credentials c = some t) :
    early credentials c = false := by
  obtain ⟨hkept, hfresh⟩ := Option.filter_eq_some_iff.1 h
  rw [early, hkept, Option.any_some, Token.isEarly, decide_eq_false_iff_not]
  simp only [Token.isFresh, decide_eq_true_eq, Token.calendarStart] at hfresh ⊢
  omega

theorem token_of_fresh {t : Token} (h : fresh? credentials c = some t) :
    google.token credentials c = (.ok t, c) := by
  have hearly := early_eq_false_of_fresh h
  rw [fresh?] at h
  rw [early] at hearly
  rw [google_token_apply, hearly, h]
  rfl

/-- A call that finds no fresh token asks for a new one, and keeps it if there is one. -/
theorem token_of_not_fresh (h : fresh? credentials c = none) :
    google.token credentials c = (renewed credentials c,
      { c with
        sent := (renewal? credentials c).toList ++ c.sent
        tokens := match renewed credentials c with
          | .ok t => Dict.put c.tokens credentials.cacheKey t
          | .error _ => c.tokens }) := by
  have hafter := newToken_after credentials c
  rw [fresh?] at h
  rw [google_token_apply, h, renewed, renewal?, early]
  split
  · rfl
  dsimp only
  rw [bind_apply]
  rcases hnew : newToken credentials c with ⟨e | t, c'⟩
  · rw [hnew] at hafter
    dsimp only at hafter ⊢
    rw [hafter]
  · rw [hnew] at hafter
    dsimp only at hafter ⊢
    rw [hafter]
    rfl

/-- What is kept of tokens and requests after a call that gives none. -/
theorem tokens_of_error {e : Error} (h : (google.token credentials c).1 = .error e) :
    (google.token credentials c).2.tokens = c.tokens := by
  cases hfresh : fresh? credentials c with
  | some t => rw [token_of_fresh hfresh]
  | none =>
      rw [token_of_not_fresh hfresh] at h ⊢
      dsimp only at h ⊢
      rw [h]

end Login

/-! ## Calls one after the other -/

/-- A call for a token: the time since the call before it, the files that are there by then, and whose
token it asks for. -/
structure TokenDemand where
  pause : Nat
  files : Files
  credentials : Credentials

/-- A call for a token as it went. -/
structure TokenOutcome where
  credentials : Credentials
  before : Context
  result : Except Error Token
  after : Context

/-- What the call meets. -/
def TokenDemand.start (d : TokenDemand) (c : Context) : Context :=
  { c with clock := c.clock + d.pause, files := d.files }

def TokenDemand.outcome (d : TokenDemand) (c : Context) : TokenOutcome :=
  let call := Login.google.token d.credentials (d.start c)
  { credentials := d.credentials, before := d.start c, result := call.1, after := call.2 }

/-- The same kind of credentials with the same key file. -/
def Credentials.SameAccount (a b : Credentials) : Prop :=
  a.usedKind = b.usedKind ∧ a.keyFile = b.keyFile

instance (a b : Credentials) : Decidable (a.SameAccount b) :=
  inferInstanceAs (Decidable (_ ∧ _))

/-- The token that the call obtained by a request. -/
def TokenOutcome.obtained? (o : TokenOutcome) : Option Token :=
  if o.after.sent = o.before.sent then none else o.result.toOption

namespace Login

/-- The calls in their order. -/
def outcomes (c : Context) : List TokenDemand → List TokenOutcome
  | [] => []
  | d :: more => d.outcome c :: outcomes (d.outcome c).after more

/-- The last token that was obtained for the account. -/
def lastObtained (earlier : List TokenOutcome) (credentials : Credentials) : Option Token :=
  (earlier.filterMap fun o =>
    if o.credentials.SameAccount credentials then o.obtained? else none).getLast?

theorem lastObtained_concat (earlier : List TokenOutcome) (o : TokenOutcome)
    (credentials : Credentials) :
    lastObtained (earlier ++ [o]) credentials =
      ((if o.credentials.SameAccount credentials then o.obtained? else none).orElse fun _ =>
        lastObtained earlier credentials) := by
  rw [lastObtained, List.filterMap_append, List.getLast?_append]
  cases h : (if o.credentials.SameAccount credentials then o.obtained? else none) <;>
    simp [h, lastObtained]

theorem exists_of_lastObtained {earlier : List TokenOutcome} {credentials : Credentials} {t : Token}
    (h : lastObtained earlier credentials = some t) :
    ∃ o ∈ earlier, o.obtained? = some t ∧ o.credentials.SameAccount credentials := by
  obtain ⟨o, ho, hobtained⟩ := List.mem_filterMap.1 (List.mem_of_getLast? h)
  split at hobtained
  · next hsame => exact ⟨o, ho, hobtained, hsame⟩
  · cases hobtained

/-- A demand for the token of a service account. No file has an empty path. -/
def OfAccount (d : TokenDemand) : Prop :=
  d.credentials.usedKind = .serviceAccount ∧ Dict.find? d.files "" = none

/-- For each service account, the token at hand is the last one that was obtained. -/
def Holds (earlier : List TokenOutcome) (c : Context) : Prop :=
  ∀ credentials : Credentials, credentials.usedKind = .serviceAccount →
    Dict.find? c.tokens credentials.cacheKey = lastObtained earlier credentials

/-- No token is obtained without a key file. -/
theorem keyFile_of_renewed {d : TokenDemand} (hd : OfAccount d) {c : Context} {t : Token}
    (h : renewed d.credentials (d.start c) = .ok t) :
    ∃ path, d.credentials.keyFile = some path ∧ path ≠ "" := by
  obtain ⟨hkind, hfiles⟩ := hd
  have h := (newToken_of_renewed h).1
  rw [newToken, hkind] at h
  obtain ⟨r, hexchange, -⟩ := Token.ofAccount_ok_iff.1 h
  obtain ⟨-, key, hread, -⟩ := Token.address_of_exchange? hexchange
  cases hpath : d.credentials.keyFile with
  | none =>
      rw [hpath] at hread
      cases hread
  | some path =>
      refine ⟨path, rfl, ?_⟩
      rintro rfl
      have hfile : (d.start c).files.read "" = .error (Files.fault d.files "") := by
        have hplain : Files.plain "" = "" := by decide
        show d.files.read "" = _
        rw [Files.read, hplain, hfiles]
      rw [hpath] at hread
      simp only [AccountKey.read, get_bind_apply, hfile] at hread
      cases hread

theorem sameAccount_iff {a b : Credentials} {path : String} (ha : a.usedKind = .serviceAccount)
    (hb : b.usedKind = .serviceAccount) (hpath : a.keyFile = some path) (hne : path ≠ "") :
    a.cacheKey = b.cacheKey ↔ a.SameAccount b := by
  have hkeys : a.cacheKey = b.cacheKey ↔ path = b.keyFile.getD "" := by
    simp only [Credentials.cacheKey, ha, hb, hpath, Option.getD_some, String.append_right_inj]
  rw [hkeys, Credentials.SameAccount, ha, hb, hpath]
  cases hother : b.keyFile with
  | none => simpa using hne
  | some other => simp

example : ¬(Credentials.make [] (some "a.json")).SameAccount (.make [] (some "b.json")) := by
  decide +kernel

/-- With a fresh token at hand nothing else happens. -/
theorem outcome_of_fresh {d : TokenDemand} {c : Context} {t : Token}
    (h : fresh? d.credentials (d.start c) = some t) :
    d.outcome c = ⟨d.credentials, d.start c, .ok t, d.start c⟩ := by
  rw [TokenDemand.outcome, token_of_fresh h]

/-- What is kept of the answer to a call without a fresh token. -/
theorem outcome_of_not_fresh {d : TokenDemand} {c : Context}
    (h : fresh? d.credentials (d.start c) = none) :
    (d.outcome c).result = renewed d.credentials (d.start c) ∧
      (d.outcome c).after.sent =
        (renewal? d.credentials (d.start c)).toList ++ (d.outcome c).before.sent ∧
      (d.outcome c).after.tokens =
        match renewed d.credentials (d.start c) with
        | .ok t => Dict.put (d.start c).tokens d.credentials.cacheKey t
        | .error _ => (d.start c).tokens := by
  rw [TokenDemand.outcome, token_of_not_fresh h]
  exact ⟨rfl, rfl, rfl⟩

theorem clock_before (d : TokenDemand) (c : Context) :
    (d.outcome c).before.clock = c.clock + d.pause := rfl

/-- A call takes no time. -/
theorem clock_outcome (d : TokenDemand) (c : Context) :
    (d.outcome c).after.clock = c.clock + d.pause := by
  cases hfresh : fresh? d.credentials (d.start c) with
  | some t => rw [outcome_of_fresh hfresh]; rfl
  | none => rw [TokenDemand.outcome, token_of_not_fresh hfresh]; rfl

/-- A new token for a service account comes with a request. -/
theorem exchange?_of_renewed {credentials : Credentials} {c : Context} {t : Token}
    (hkind : credentials.usedKind = .serviceAccount) (h : renewed credentials c = .ok t) :
    ∃ r, renewal? credentials c = some r ∧ ∃ seconds, Token.answer? c r = some (t.text, seconds) ∧
      Token.expiryAfter c.clock seconds = .ok t.expiry := by
  obtain ⟨h, hrenewal⟩ := newToken_of_renewed h
  rw [newToken, hkind] at h
  rw [hrenewal, Credentials.exchange?, hkind]
  exact Token.ofAccount_ok_iff.1 h

/-- A call obtains its result exactly if there was no fresh token. -/
theorem obtained?_outcome {d : TokenDemand} (hd : OfAccount d) (c : Context) :
    (d.outcome c).obtained? =
      if (fresh? d.credentials (d.start c)).isSome then none else (d.outcome c).result.toOption := by
  cases hfresh : fresh? d.credentials (d.start c) with
  | some t => rw [outcome_of_fresh hfresh, TokenOutcome.obtained?, if_pos rfl]; rfl
  | none =>
      obtain ⟨hresult, hsent, -⟩ := outcome_of_not_fresh hfresh
      rw [TokenOutcome.obtained?, hresult]
      cases hnew : renewed d.credentials (d.start c) with
      | error e => simp [Except.toOption]
      | ok t =>
          obtain ⟨r, hr, -⟩ := exchange?_of_renewed hd.1 hnew
          rw [hsent, hr, if_neg (by simp)]
          rfl

/-- A call keeps the last tokens at hand. -/
theorem Holds.outcome {earlier : List TokenOutcome} {c : Context} (h : Holds earlier c)
    {d : TokenDemand} (hd : OfAccount d) :
    Holds (earlier ++ [d.outcome c]) (d.outcome c).after := by
  intro credentials hkind
  have hheld : Dict.find? (d.start c).tokens credentials.cacheKey = lastObtained earlier credentials :=
    h credentials hkind
  rw [lastObtained_concat, obtained?_outcome hd, ← hheld]
  cases hfresh : fresh? d.credentials (d.start c) with
  | some t => simp [outcome_of_fresh hfresh]
  | none =>
      obtain ⟨hresult, -, htokens⟩ := outcome_of_not_fresh hfresh
      rw [htokens, hresult]
      cases hnew : renewed d.credentials (d.start c) with
      | error e => simp [Except.toOption]
      | ok t =>
          obtain ⟨path, hpath, hne⟩ := keyFile_of_renewed hd hnew
          have hsame := sameAccount_iff hd.1 hkind hpath hne
          dsimp only
          rw [Dict.find?_put]
          by_cases h : d.credentials.SameAccount credentials
          · rw [if_pos (hsame.2 h), if_pos (show (d.outcome c).credentials.SameAccount _ from h)]
            rfl
          · rw [if_neg (mt hsame.1 h), if_neg (show ¬(d.outcome c).credentials.SameAccount _ from h)]
            rfl

/-- Each call meets the last tokens that were obtained before it. -/
theorem holds_outcomes {past : List TokenOutcome} {c : Context} (h : Holds past c)
    {demands : List TokenDemand} (haccounts : ∀ d ∈ demands, OfAccount d)
    {earlier later : List TokenOutcome} {o : TokenOutcome}
    (hsplit : outcomes c demands = earlier ++ o :: later) :
    ∃ d ∈ demands, ∃ c', o = d.outcome c' ∧ Holds (past ++ earlier) c' := by
  induction demands generalizing past c earlier with
  | nil => simp [outcomes] at hsplit
  | cons d more ih =>
      rw [outcomes] at hsplit
      cases earlier with
      | nil =>
          obtain ⟨rfl, -⟩ := List.cons.inj hsplit
          exact ⟨d, List.mem_cons_self, c, rfl, by rwa [List.append_nil]⟩
      | cons p earlier =>
          rw [List.cons_append] at hsplit
          obtain ⟨rfl, hrest⟩ := List.cons.inj hsplit
          obtain ⟨d', hd', c', ho, hholds⟩ := ih (h.outcome (haccounts d List.mem_cons_self))
            (fun d hd => haccounts d (List.mem_cons_of_mem _ hd)) hrest
          exact ⟨d', List.mem_cons_of_mem _ hd', c', ho, by simpa using hholds⟩

end Login

/-- The call sent at most one request, to the address in the key file of its credentials. It gave the token
in the answer, which there is if the lifetime in it is usual. -/
structure TokenOutcome.Exchanges (o : TokenOutcome) (sent : Option Request) : Prop where
  sent_eq : o.after.sent = sent.toList ++ o.before.sent
  address : ∀ r ∈ sent, r.verb = "POST" ∧
    ∃ key, (AccountKey.read o.credentials.keyFile o.before).1 = .ok key ∧ r.url = key.address
  token : ∀ t, o.result = .ok t → ∃ r ∈ sent, ∃ seconds,
    Token.answer? o.before r = some (t.text, seconds) ∧ t.expiry = o.before.clock + 1000 * seconds
  answered : ∀ r ∈ sent, ∀ text seconds, Token.answer? o.before r = some (text, seconds) →
    seconds.natAbs ≤ Token.usualLifetime → o.before.clock ≤ Token.lastClock →
    o.result = .ok ⟨text, o.before.clock + 1000 * seconds⟩

namespace Login

/-- A call that has a token which ends too early sends nothing. -/
theorem exchanges_outcome_of_early {d : TokenDemand} {c : Context}
    (h : fresh? d.credentials (d.start c) = none) (hearly : early d.credentials (d.start c) = true) :
    (d.outcome c).Exchanges none := by
  obtain ⟨hresult, hsent, -⟩ := outcome_of_not_fresh h
  rw [renewed, if_pos hearly] at hresult
  rw [renewal?, if_pos hearly] at hsent
  refine ⟨hsent, nofun, fun t ht => ?_, nofun⟩
  cases hresult.symm.trans ht

/-- A call without a fresh token exchanges the key. -/
theorem exchanges_outcome {d : TokenDemand} (hd : OfAccount d) {c : Context}
    (h : fresh? d.credentials (d.start c) = none) (hearly : early d.credentials (d.start c) = false) :
    (d.outcome c).Exchanges (Token.exchange? d.credentials (d.start c)) := by
  obtain ⟨hresult, hsent, -⟩ := outcome_of_not_fresh h
  rw [renewed, if_neg (by simp [hearly]), newToken, hd.1] at hresult
  rw [renewal?, if_neg (by simp [hearly]), Credentials.exchange?, hd.1] at hsent
  refine ⟨hsent, fun r hr => Token.address_of_exchange? hr, fun t ht => ?_, ?_⟩
  · obtain ⟨r, hr, seconds, hanswer, hexpiry⟩ := Token.ofAccount_ok_iff.1 (hresult.symm.trans ht)
    exact ⟨r, hr, seconds, hanswer, Token.expiryAfter_eq hexpiry⟩
  · intro r hr text seconds hanswer hseconds hclock
    rw [hresult]
    exact Token.ofAccount_ok_iff.2 ⟨r, hr, seconds, hanswer, Token.expiryAfter_of_usual hseconds hclock⟩

theorem isFresh_iff {t : Token} {now : Nat} : t.isFresh now = true ↔ now + 60000 < t.expiry := by
  simp only [Token.isFresh, decide_eq_true_eq]
  unfold Token.margin
  omega

/-- The token at hand is the last one that was obtained for the account, until a minute before its end. -/
theorem fresh?_eq_some_iff {earlier : List TokenOutcome} {c : Context} (h : Holds earlier c)
    {d : TokenDemand} (hd : OfAccount d) {t : Token} :
    fresh? d.credentials (d.start c) = some t ↔
      lastObtained earlier d.credentials = some t ∧ (d.start c).clock + 60000 < t.expiry := by
  have hheld : Dict.find? (d.start c).tokens d.credentials.cacheKey = _ := h d.credentials hd.1
  rw [fresh?, hheld, Option.filter_eq_some_iff, isFresh_iff]

/-- A call gives a token without a request exactly if it had a fresh one. -/
theorem reuses_iff {d : TokenDemand} (hd : OfAccount d) (c : Context) (t : Token) :
    (d.outcome c).result = .ok t ∧ (d.outcome c).after.sent = (d.outcome c).before.sent ↔
      fresh? d.credentials (d.start c) = some t := by
  cases hfresh : fresh? d.credentials (d.start c) with
  | some held => simp [outcome_of_fresh hfresh]
  | none =>
      obtain ⟨hresult, hsent, -⟩ := outcome_of_not_fresh hfresh
      refine iff_of_false (fun ⟨ht, hsame⟩ => ?_) nofun
      obtain ⟨r, hr, -⟩ := exchange?_of_renewed hd.1 (hresult.symm.trans ht)
      rw [hsent, hr] at hsame
      exact List.cons_ne_self _ _ hsame

/-- A token that a call gives was obtained for the account. -/
theorem exists_obtained {earlier : List TokenOutcome} {c : Context} (h : Holds earlier c)
    {d : TokenDemand} (hd : OfAccount d) {t : Token} (ht : (d.outcome c).result = .ok t) :
    ∃ p ∈ earlier ++ [d.outcome c],
      p.obtained? = some t ∧ p.credentials.SameAccount d.credentials := by
  cases hfresh : fresh? d.credentials (d.start c) with
  | some held =>
      rw [outcome_of_fresh hfresh] at ht
      obtain rfl := Except.ok.inj ht
      obtain ⟨hlast, -⟩ := (fresh?_eq_some_iff h hd).1 hfresh
      obtain ⟨p, hp, hobtained⟩ := exists_of_lastObtained hlast
      exact ⟨p, List.mem_append_left _ hp, hobtained⟩
  | none =>
      refine ⟨d.outcome c, by simp, ?_, rfl, rfl⟩
      rw [obtained?_outcome hd, hfresh, ht]
      rfl

end Login

namespace Sample

def tokenResponse : Response :=
  ⟨200, "\x7b\"access_token\": \"t\"\x7d"⟩

/-- An endpoint that gives a token for an hour. -/
def tokenContext : Context :=
  .initial ⟨fun _ _ => .ok tokenResponse⟩ "google"

/-- A call for the token of `accountKey`, so many seconds after the one before it. -/
def accountDemand (pause : Nat) : TokenDemand :=
  { pause := 1000 * pause
    files := [("key.json", ⟨accountKey.text, 0⟩)]
    credentials := .make [] (some "key.json") }

theorem answer?_tokenContext (pause : Nat) (r : Request) :
    Token.answer? ((accountDemand pause).start tokenContext) r = some ("t", 3600) := by
  have hanswer : ((accountDemand pause).start tokenContext).network.answer
      ((accountDemand pause).start tokenContext).sent r = .ok tokenResponse := rfl
  have htoken : Token.ofAnswer? tokenResponse = some ("t", 3600) := by decide +kernel
  rw [Token.answer?, hanswer]
  exact htoken

theorem ofAccount_accountDemand (pause : Nat) : Login.OfAccount (accountDemand pause) := by
  have hkind : (Credentials.make [] (some "key.json")).usedKind = .serviceAccount := by decide +kernel
  exact ⟨hkind, rfl⟩

theorem renewed_tokenContext :
    Login.renewed (accountDemand 0).credentials ((accountDemand 0).start tokenContext) =
      .ok ⟨"t", 3600000⟩ := by
  have hearly : ¬Login.early (accountDemand 0).credentials ((accountDemand 0).start tokenContext) := by
    simp [Login.early, TokenDemand.start, tokenContext, Context.initial, Dict.find?]
  obtain ⟨assertion, hr⟩ : ∃ assertion, Token.exchange? (accountDemand 0).credentials
      ((accountDemand 0).start tokenContext) =
        some (Token.exchangeRequest accountKey.address assertion) :=
    Token.exists_exchange rfl rfl isValid_keyBytes
  rw [Login.renewed, if_neg hearly, Login.newToken, (ofAccount_accountDemand 0).1]
  exact Token.ofAccount_ok_iff.2 ⟨_, hr, 3600, answer?_tokenContext 0 _,
    Token.expiryAfter_of_usual (by decide) (by decide)⟩

end Sample

namespace Login

open Sample

end Login
end RestSql
