import RestSql.CommandLine.Program
import RestSql.Proofs.SettingDocuments
import RestSql.Proofs.TokenReuse

/-!
# How long documents and tokens last

The lifetime of documents is set in hours and kept in seconds of 64 bits. Beyond `Config.greatestHours` the
seconds wrap around, and copies are out of date too early. The lifetime of a token is a number of seconds
of 64 bits that a server chooses, and a call for a token comes to a fault exactly if the calendar cannot
hold the end of the new token, or the time until which the one at hand can be used
(`Login.faults_token_iff`).
-/

namespace RestSql

/-! ## Faults -/

namespace Run

variable {α β ε : Type} {c : Context}

/-- The calculation comes to a fault. -/
def Faults (x : Run α) (c : Context) : Prop :=
  ∃ fault, (x c).1 = .error (.fault fault)

theorem not_faults_pure (a : α) : ¬ Faults (pure a) c := by
  rintro ⟨_, ⟨⟩⟩

theorem faults_throw {e : Error} : Faults (throw e : Run α) c ↔ ∃ fault, e = .fault fault := by
  constructor
  · rintro ⟨fault, ⟨⟩⟩
    exact ⟨fault, rfl⟩
  · rintro ⟨fault, rfl⟩
    exact ⟨fault, rfl⟩

theorem faults_get_bind {f : Context → Run β} : Faults (get >>= f) c ↔ Faults (f c) c := by
  rw [Faults, get_bind_apply]
  rfl

/-- Two steps come to a fault if the first one does, or goes well and the second one does. -/
theorem faults_bind_iff {x : Run α} {f : α → Run β} :
    Faults (x >>= f) c ↔ Faults x c ∨ ∃ a, (x c).1 = .ok a ∧ Faults (f a) (x c).2 := by
  rw [Faults, bind_apply, Faults]
  rcases x c with ⟨e | a, c'⟩
  · simp
  · simp [Faults]

theorem faults_ofExcept_bind {wrap : ε → Error} {x : Except ε α} {f : α → Run β}
    (hwrap : ∀ e fault, wrap e ≠ .fault fault) :
    Faults (ofExcept wrap x >>= f) c ↔ ∃ a, x = .ok a ∧ Faults (f a) c := by
  rw [faults_bind_iff, Faults, ofExcept_apply]
  cases x with
  | error e => simpa [Except.mapError] using hwrap e
  | ok a => simp [Except.mapError]

theorem faults_fetch_bind {r : Request} {f : Response → Run β} :
    Faults (fetch r >>= f) c ↔ ∃ response, c.network.answer c.sent r = .ok response ∧
      Faults (f response) { c with sent := r :: c.sent } := by
  rw [faults_bind_iff, Faults, fetch_apply]
  cases c.network.answer c.sent r <;> simp [Except.mapError]

end Run

open Run

/-! ## Lifetimes of tokens -/

namespace Token

/-- The calendar holds the end of a token that lasts some seconds. -/
def HasEnd (now : Nat) (seconds : Int) : Prop :=
  seconds.natAbs ≤ maxInterval.toNat ∧ 1000 * calendarStart ≤ now + 1000 * seconds ∧
    now + 1000 * seconds ≤ 1000 * calendarEnd + 999

instance (now : Nat) (seconds : Int) : Decidable (HasEnd now seconds) :=
  inferInstanceAs (Decidable (_ ∧ _))

theorem expiryAfter_apply (now : Nat) (seconds : Int) :
    expiryAfter now seconds = if HasEnd now seconds then .ok (now + 1000 * seconds) else .error .calendar :=
  rfl

end Token

theorem AccountKey.not_faults_read (path : Option String) (c : Context) : ¬ Faults (read path) c := by
  unfold read
  split
  · simp [faults_throw]
  · rw [faults_get_bind]
    split
    · simp [faults_throw]
    · split
      · simp [faults_throw]
      · exact not_faults_pure _

theorem Gcloud.not_faults_call (arguments : List String) (c : Context) :
    ¬ Faults (call arguments) c := by
  rw [call, faults_get_bind]
  split
  · simp [faults_throw]
  · split
    · exact not_faults_pure _
    · split
      · exact not_faults_pure _
      · simp [faults_throw]

theorem Gcloud.not_faults_token (c : Context) : ¬ Faults token c := by
  rw [token, faults_bind_iff]
  rintro (h | ⟨text, -, h⟩)
  · exact not_faults_call _ c h
  · split at h
    · simp [faults_throw] at h
    · dsimp only at h
      rw [faults_get_bind] at h
      exact not_faults_pure _ h

theorem Token.faults_end_iff (now : Context) (text : String) (seconds : Int) (c : Context) :
    Faults (ofExcept .fault (expiryAfter now.clock seconds) >>= fun expiry => pure (⟨text, expiry⟩ : Token)) c ↔
      ¬ HasEnd now.clock seconds := by
  rw [faults_bind_iff, Faults, ofExcept_apply, expiryAfter_apply]
  split
  · next hend => simpa [hend, Except.mapError] using not_faults_pure _
  · next hend => simp [hend, Except.mapError]

/-- An exchange comes to a fault exactly if the calendar does not hold the end of the token that it is
answered with. -/
theorem Token.faults_ofAccount_iff {credentials : Credentials} {c : Context} :
    Faults (ofAccount credentials) c ↔
      ∃ r, exchange? credentials c = some r ∧
        ∃ text seconds, answer? c r = some (text, seconds) ∧ ¬ HasEnd c.clock seconds := by
  have hread : Keeps id (AccountKey.read credentials.keyFile) := AccountKey.keeps_read _
  have hread := hread c
  have hfault := AccountKey.not_faults_read credentials.keyFile c
  rw [ofAccount, Faults, bind_apply, exchange?]
  rw [Faults] at hfault
  rcases hkey : AccountKey.read credentials.keyFile c with ⟨e | key, c'⟩
  · rw [hkey] at hfault
    simpa using hfault
  · rw [hkey] at hread
    obtain rfl : c' = c := hread
    simp only [get_bind_apply]
    cases hvalid : PrivateKey.isValid key.privateKey with
    | false =>
        constructor
        · rintro ⟨_, ⟨⟩⟩
        · rintro ⟨_, ⟨⟩, -⟩
    | true =>
        simp only [if_true, Option.some.injEq, exists_eq_left', answer?_eq_some]
        show Faults (Run.fetch _ >>= _) c' ↔ _
        rw [faults_fetch_bind]
        constructor
        · rintro ⟨response, hresponse, h⟩
          obtain ⟨body, hbody, h⟩ := (faults_ofExcept_bind fun _ _ => Error.noConfusion).1 h
          rcases hanswer : ofResponse? body with _ | ⟨text, seconds⟩ <;> rw [hanswer] at h
          · simp [faults_throw] at h
          · exact ⟨text, seconds, ⟨response, hresponse, body, hbody, hanswer⟩,
              (faults_end_iff c' text seconds _).1 h⟩
        · rintro ⟨text, seconds, ⟨response, hresponse, body, hbody, hanswer⟩, hend⟩
          refine ⟨response, hresponse,
            (faults_ofExcept_bind fun _ _ => Error.noConfusion).2 ⟨body, hbody, ?_⟩⟩
          rw [hanswer]
          exact (faults_end_iff c' text seconds _).2 hend

/-! ## Calls for tokens -/

namespace Login

variable {credentials : Credentials} {c : Context}

theorem faults_newToken_iff :
    Faults (newToken credentials) c ↔
      ∃ r, credentials.exchange? c = some r ∧
        ∃ text seconds, Token.answer? c r = some (text, seconds) ∧ ¬ Token.HasEnd c.clock seconds := by
  unfold newToken Credentials.exchange?
  cases credentials.usedKind with
  | serviceAccount => exact Token.faults_ofAccount_iff
  | interactive =>
      constructor
      · exact fun h => absurd h (Gcloud.not_faults_token c)
      · rintro ⟨_, ⟨⟩, -⟩

/-- A call for a token comes to a fault exactly if the token at hand ends too early for the calendar, or
none at hand is fresh and the end of the one that an exchange gives is beyond the calendar. -/
theorem faults_token_iff :
    Faults (google.token credentials) c ↔
      early credentials c = true ∨
        (fresh? credentials c = none ∧ ∃ r, credentials.exchange? c = some r ∧
          ∃ text seconds, Token.answer? c r = some (text, seconds) ∧
            ¬ Token.HasEnd c.clock seconds) := by
  cases hfresh : fresh? credentials c with
  | some t =>
      have hearly := early_eq_false_of_fresh hfresh
      rw [Faults, token_of_fresh hfresh, hearly]
      simp
  | none =>
      rw [Faults, token_of_not_fresh hfresh, ← faults_newToken_iff]
      dsimp only
      unfold renewed
      split
      · next hearly => simp [hearly]
      · next hearly => simp [hearly, Faults]

end Login

/-! ## Lifetimes of documents -/

/-- The setting of the lifetime of documents, in hours. -/
def Setting.documentLifetime : Setting :=
  ⟨"metadata_ttl", .natural (·.documentLifetime) fun n c => { c with documentLifetime := n }⟩

theorem Setting.named?_documentLifetime : Setting.named? "metadatattl" = some .documentLifetime :=
  Setting.named?_eq_some.2 ⟨.tail _ (.tail _ (.head _)), by simp [Setting.key, documentLifetime]⟩

theorem SettingKind.ofText?_natural (get : Config → Nat) (put : Nat → Config → Config) (text : String) :
    (natural get put).ofText? text = match natural? (Text.trimmed text) with
      | some n => .ok (put n)
      | none => .error text := by
  unfold ofText?
  cases natural? (Text.trimmed text) <;> rfl

namespace Config

/-- The most hours whose seconds are a number of 64 bits. -/
def greatestHours : Nat := 5124095576030431

theorem le_greatestHours_iff {hours : Nat} : hours ≤ greatestHours ↔ hours * 3600 < Word.count := by
  simp only [greatestHours, Word.count]
  omega

/-- The setting of the lifetime takes each number of 64 bits. -/
theorem set_documentLifetime {key : String} (hkey : Text.lower key = "metadatattl") (c : Config)
    (text : String) :
    c.set key text = match SettingKind.natural? (Text.trimmed text) with
      | some hours => .ok { c with documentLifetime := hours }
      | none => .error (.badValue key text) := by
  unfold set
  rw [hkey, Setting.named?_documentLifetime]
  dsimp only
  rw [Setting.documentLifetime, SettingKind.ofText?_natural]
  cases SettingKind.natural? (Text.trimmed text) with
  | none => rfl
  | some hours => rfl

theorem natural?_lt {text : String} {n : Nat} (h : SettingKind.natural? text = some n) :
    n < Word.count :=
  of_decide_eq_true (Option.filter_eq_some_iff.1 h).2

end Config

theorem Provider.lifetime_of_config {c : Config} {d : DocumentSource}
    (h : (Provider.ofConfig c).catalog = .documents d) : d.lifetime = c.documentMilliseconds := by
  cases h
  rfl

/-- A copy is out of date as soon as the hours have passed, at every age, exactly if the seconds do not
wrap around. -/
theorem DocumentSource.isFresh_hours_iff {c : Config} {d : DocumentSource}
    (h : (Provider.ofConfig c).catalog = .documents d) :
    (∀ (f : File) (now : Nat), f.time ≤ now →
        (d.isFresh f now = true ↔ now - f.time < 3600000 * c.documentLifetime)) ↔
      c.documentLifetime ≤ Config.greatestHours := by
  have hlifetime := Provider.lifetime_of_config h
  rw [Config.documentMilliseconds] at hlifetime
  rw [Config.le_greatestHours_iff]
  constructor
  · intro hexact
    by_contra hwraps
    -- the age at which the seconds that are left have passed
    have hat := (hexact ⟨"", 0⟩ d.lifetime (Nat.zero_le _)).2
    have hmod := Nat.mod_lt (c.documentLifetime * 3600) (show 0 < Word.count by decide)
    have hfresh := (isFresh_iff.1 (hat (by omega))).2
    exact absurd hfresh (by simp)
  · intro hfits f now hage
    rw [Nat.mod_eq_of_lt hfits] at hlifetime
    rw [isFresh_iff, hlifetime]
    constructor
    · rintro ⟨-, h⟩
      omega
    · exact fun h => ⟨hage, by omega⟩

/-- Lifetimes are numbers of 64 bits, and arithmetic with them does not go beyond that. The hours that
the setting takes are at most the greatest number of 64 bits; of their seconds 64 bits are kept, so copies
are fresh for that many hours exactly if there are at most `Config.greatestHours`. A call for a token comes
to a fault exactly if the calendar cannot hold the end of the new token, or a minute before the end of the
one at hand. -/
theorem lifetimes_of_documents_and_tokens (c : Config) (credentials : Credentials) (context : Context) :
    (∀ (c' : Config) (key text : String), Text.lower key = "metadatattl" → c.set key text = .ok c' →
      SettingKind.natural? (Text.trimmed text) = some c'.documentLifetime ∧
        c'.documentLifetime < Word.count) ∧
    (∀ d : DocumentSource, (Provider.ofConfig c).catalog = .documents d →
      (∀ files now name f, d.offline = false → files.read (d.copyPath name) = .ok f → f.time ≤ now →
        d.copy? files now name =
          .ok (if now - f.time < 1000 * (c.documentLifetime * 3600 % Word.count) then some f.text
            else none)) ∧
      ((∀ (f : File) (now : Nat), f.time ≤ now →
          (d.isFresh f now = true ↔ now - f.time < 3600000 * c.documentLifetime)) ↔
        c.documentLifetime ≤ Config.greatestHours)) ∧
    (Faults (Login.google.token credentials) context ↔
      Login.early credentials context = true ∨
        (Login.fresh? credentials context = none ∧ ∃ r, credentials.exchange? context = some r ∧
          ∃ text seconds, Token.answer? context r = some (text, seconds) ∧
            ¬ Token.HasEnd context.clock seconds)) := by
  refine ⟨fun c' key text hkey hset => ?_, fun d hd => ⟨?_, DocumentSource.isFresh_hours_iff hd⟩,
    Login.faults_token_iff⟩
  · rw [Config.set_documentLifetime hkey] at hset
    split at hset
    · next hours hours_eq =>
      cases hset
      exact ⟨hours_eq, Config.natural?_lt hours_eq⟩
    · cases hset
  · intro files now name f honline hread hage
    have hlifetime : d.lifetime = 1000 * (c.documentLifetime * 3600 % Word.count) :=
      Provider.lifetime_of_config hd
    have hfresh : d.isFresh f now = true ↔
        now - f.time < 1000 * (c.documentLifetime * 3600 % Word.count) := by
      rw [DocumentSource.isFresh_iff, hlifetime, and_iff_right hage]
    rw [DocumentSource.copy?_of_read hread honline, if_congr hfresh rfl rfl]

namespace Sample

/-- A number of hours whose seconds are a multiple of the number of words. -/
def longHours : Nat := 1152921504606846976

def longConfig : Config := { Config.initial "" with documentLifetime := longHours }

def longResponse : Response :=
  ⟨200, "\x7b\"access_token\": \"t\", \"expires_in\": 9223372036854775807\x7d"⟩

/-- A service account and an endpoint that gives a token for as long as a number can say. -/
def longContext : Context :=
  { Context.initial ⟨fun _ _ => .ok longResponse⟩ "google" with
    files := [("key.json", ⟨accountKey.text, 0⟩)] }

end Sample

open Sample

/-- With so many hours a copy is out of date at once, and a token that lasts too long is a fault instead
of a token or an error. -/
theorem lifetimes_overflow :
    (Config.initial "").set "metadatattl" (Text.ofInt longHours) = .ok longConfig ∧
    (∃ d, (Provider.ofConfig longConfig).catalog = .documents d ∧ d.isFresh ⟨"", 0⟩ 0 = false) ∧
    Faults (Login.google.token (.make [] (some "key.json"))) longContext := by
  refine ⟨?_, ⟨_, rfl, ?_⟩, Login.faults_token_iff.2 (.inr ⟨rfl, ?_⟩)⟩
  · have hlower : Text.lower "metadatattl" = "metadatattl" := by simp [Text.lower, String.ext_iff]
    rw [Config.set_documentLifetime hlower, SettingKind.trimmed_ofInt,
      SettingKind.natural?_ofNat (by decide)]
    rfl
  · rw [Bool.eq_false_iff, ne_eq, DocumentSource.isFresh_iff]
    decide
  · have hkind : (Credentials.make [] (some "key.json")).usedKind = .serviceAccount := by decide +kernel
    have hanswer : Token.ofAnswer? longResponse = some ("t", 9223372036854775807) := by decide +kernel
    obtain ⟨assertion, hr⟩ : ∃ assertion,
        Token.exchange? (.make [] (some "key.json")) longContext =
          some (Token.exchangeRequest accountKey.address assertion) :=
      Token.exists_exchange rfl rfl isValid_keyBytes
    have hexchange : (Credentials.make [] (some "key.json")).exchange? longContext =
        some (Token.exchangeRequest accountKey.address assertion) := by
      rw [Credentials.exchange?, hkind]
      exact hr
    exact ⟨_, hexchange, "t", 9223372036854775807, hanswer, by decide⟩

end RestSql
