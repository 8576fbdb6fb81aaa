import RestSql.Proofs.BadDocuments
import RestSql.Proofs.DryRuns
import RestSql.Proofs.Exchanges
import RestSql.Proofs.KeyFiles

/-!
# What a dry run sends

Calls are shown in a dry run and not sent. Two kinds of requests are sent still: documents about services
are fetched, and a sign-in exchanges an assertion for a token.
-/

namespace RestSql

open Run

/-! ## Downloads -/

/-- What is remembered in the first context still is in the second one. -/
def Context.KnownIn (c c' : Context) : Prop :=
  ∀ name i f, (c.libraryOf name).find? i = some f → (c'.libraryOf name).find? i = some f

namespace Providers

variable {ps : Providers} {c c' c'' : Context} {r : Request}

/-- The request fetches a document of a provider: the directory, or a document that the directory
lists. -/
inductive Downloads (ps : Providers) (c : Context) : Request → Prop
  | directory {name : String} {p : Provider} {d : DocumentSource} (named : ps.named name = .ok p)
      (source : p.catalog = .documents d) : Downloads ps c (.read d.directory)
  | document {name : String} {p : Provider} {d : DocumentSource} {entries : List ServiceEntry}
      {e : ServiceEntry} (named : ps.named name = .ok p) (source : p.catalog = .documents d)
      (known : (c.libraryOf p.name).find? .directory = some (.directory entries))
      (listed : e ∈ entries) : Downloads ps c (.read e.documentAddress)

/-- Between the contexts, the given requests and downloads are sent, and nothing else. What is known at
first is known then. -/
structure Sends (ps : Providers) (asked : List Request) (c c' : Context) : Prop where
  sent : ∃ added downloads, c'.sent = added ++ c.sent ∧ added.Perm (asked ++ downloads) ∧
    ∀ r ∈ downloads, ps.Downloads c' r
  known : c.KnownIn c'

/-- Nothing but downloads is sent between the contexts. -/
def Reads (ps : Providers) (c c' : Context) : Prop :=
  ps.Sends [] c c'

theorem Downloads.mono (h : ps.Downloads c r) (hknown : c.KnownIn c') : ps.Downloads c' r := by
  cases h with
  | directory named source => exact .directory named source
  | document named source known listed =>
      exact .document named source (hknown _ _ _ known) listed

theorem sends_of_traffic {asked : List Request} (h : c'.traffic = (asked ++ c.sent, c.libraries)) :
    ps.Sends asked c c' := by
  obtain ⟨hsent, hlibraries⟩ := Prod.mk.inj h
  refine ⟨⟨asked, [], hsent, by rw [List.append_nil], nofun⟩, fun name i f known => ?_⟩
  unfold Context.libraryOf
  rw [hlibraries]
  exact known

theorem Sends.trans {asked more : List Request} (h : ps.Sends asked c c')
    (h' : ps.Sends more c' c'') : ps.Sends (asked ++ more) c c'' := by
  obtain ⟨added, downloads, hsent, hperm, hdownloads⟩ := h.sent
  obtain ⟨added', downloads', hsent', hperm', hdownloads'⟩ := h'.sent
  refine ⟨⟨added' ++ added, downloads ++ downloads', ?_, ?_, ?_⟩, ?_⟩
  · rw [hsent', hsent, List.append_assoc]
  · have hregroup : ((asked ++ downloads) ++ (more ++ downloads')).Perm
        ((asked ++ more) ++ (downloads ++ downloads')) := by
      simpa only [List.append_assoc] using
        (List.perm_append_comm_assoc downloads more downloads').append_left asked
    exact List.perm_append_comm.trans ((hperm.append hperm').trans hregroup)
  · intro r hr
    rcases List.mem_append.1 hr with hr | hr
    · exact (hdownloads r hr).mono h'.known
    · exact hdownloads' r hr
  · intro name i f known
    exact h'.known name i f (h.known name i f known)

theorem Reads.refl (ps : Providers) (c : Context) : ps.Reads c c :=
  sends_of_traffic rfl

theorem Reads.trans (h : ps.Reads c c') (h' : ps.Reads c' c'') : ps.Reads c c'' :=
  Sends.trans h h'

end Providers

/-! ## Runs that only read documents -/

namespace Run

variable {ps : Providers} {α β : Type}

/-- The run sends nothing but downloads. -/
def OnlyReads (ps : Providers) (x : Run α) : Prop :=
  ∀ c : Context, ps.Reads c (x c).2

theorem Keeps.onlyReads {x : Run α} (h : Keeps Context.traffic x) : OnlyReads ps x :=
  fun c => Providers.sends_of_traffic (h c)

theorem OnlyReads.bind {x : Run α} {f : α → Run β} (hx : OnlyReads ps x)
    (hf : ∀ a, OnlyReads ps (f a)) : OnlyReads ps (x >>= f) := by
  intro c
  have hx := hx c
  rw [bind_apply]
  rcases h : x c with ⟨e | a, c'⟩ <;> rw [h] at hx
  · exact hx
  · exact hx.trans (hf a c')

theorem closed_onlyReads (ps : Providers) : Closed fun _ => OnlyReads ps :=
  ⟨fun a => (keeps_pure a).onlyReads, fun e => (keeps_throw e).onlyReads, OnlyReads.bind⟩

end Run

namespace Provider

variable {ps : Providers} {name : String} {p : Provider} {i : Inquiry} {c : Context}

theorem mem_of_select {directory : List ServiceEntry} {key : String} {e : ServiceEntry}
    (h : p.select directory key = .ok e) : e ∈ directory := by
  unfold select at h
  split at h
  · rename_i e' hid
    cases h
    exact (List.mem_filter.1 (hid ▸ List.mem_singleton_self _)).1
  · split at h
    · rename_i e' hname
      cases h
      exact (List.mem_filter.1 (hname ▸ List.mem_singleton_self _)).1
    · cases h
    · cases h

theorem reads_find
    (hdownload : ∀ d, p.catalog = .documents d → ps.Downloads c (.read (i.address d))) :
    ps.Reads c (p.find i c).2 := by
  cases hp : p.catalog with
  | loaded directory services =>
      have hloaded : p.Loaded := ⟨directory, services, hp⟩
      have hafter : (p.find i c).2 = c := hloaded.after_eq rfl
      rw [hafter]
      exact .refl ps c
  | documents d =>
      have hconsulted := (find_eq_iff hp).1 (rfl : p.find i c = _)
      have hknown : c.KnownIn (p.find i c).2 := fun _ _ _ => hconsulted.find?_of_known hp
      rcases hconsulted.sent with ⟨-, hsent⟩ | ⟨-, hsent, -⟩
      · refine ⟨⟨[_], [_], hsent, .refl _, ?_⟩, hknown⟩
        intro r hr
        rw [List.mem_singleton.1 hr]
        exact (hdownload d hp).mono hknown
      · exact ⟨⟨[], [], hsent, .refl _, nofun⟩, hknown⟩

theorem onlyReads_directory (named : ps.named name = .ok p) : OnlyReads ps p.directory := by
  intro c
  have hfind : p.find .directory c = _ := map_apply Finding.directory p.directory c
  have hreads : ps.Reads c (p.find .directory c).2 := reads_find fun d hp => .directory named hp
  rw [hfind] at hreads
  exact hreads

theorem reads_load (named : ps.named name = .ok p) {e : ServiceEntry}
    (hlisted : ∀ d, p.catalog = .documents d → ∃ entries, e ∈ entries ∧
      (c.libraryOf p.name).find? .directory = some (.directory entries)) :
    ps.Reads c (p.load e c).2 := by
  have hfind : p.find (.service e) c = _ := map_apply Finding.service (p.load e) c
  have hreads : ps.Reads c (p.find (.service e) c).2 := by
    refine reads_find fun d hp => ?_
    obtain ⟨entries, listed, known⟩ := hlisted d hp
    exact .document named hp known listed
  rw [hfind] at hreads
  exact hreads

theorem onlyReads_service (named : ps.named name = .ok p) (key : String) :
    OnlyReads ps (p.service key) := by
  intro c
  have hdirectory := onlyReads_directory named c
  rw [service, bind_apply]
  rcases hentries : p.directory c with ⟨e | entries, c'⟩ <;> rw [hentries] at hdirectory
  · exact hdirectory
  · refine hdirectory.trans ?_
    dsimp only
    rw [bind_apply, ofExcept_apply]
    cases hselect : p.select entries key with
    | error e => exact .refl ps c'
    | ok e =>
        refine reads_load named fun d hp => ⟨entries, mem_of_select hselect, ?_⟩
        -- the directory that was read is known
        have hfind : p.find .directory c = (.ok (.directory entries), c') := by
          rw [find, map_apply, hentries]
          rfl
        rw [((find_eq_iff hp).1 hfind).find?_of_ok rfl, if_pos rfl]

theorem onlyReads_resource (named : ps.named name = .ok p) (service resource : String) :
    OnlyReads ps (p.resource service resource) := by
  refine (onlyReads_service named service).bind fun s => ?_
  split
  · exact (closed_onlyReads ps).returns _
  · exact (closed_onlyReads ps).fails _

theorem onlyReads_services (named : ps.named name = .ok p) : OnlyReads ps p.services :=
  (onlyReads_directory named).bind fun _ => (closed_onlyReads ps).returns _

end Provider

theorem Session.onlyReads_build (ps : Providers) (pageSize : Nat) (text : String)
    (transaction : Nat) : OnlyReads ps (build ps pageSize text transaction) :=
  (closed_onlyReads ps).build (fun _ _ named => Provider.onlyReads_resource named)
    (fun hf c => by rw [get_bind_apply]; exact hf c c) _ _ _

/-! ## Questions to providers -/

namespace ProviderQuery

/-- The question is no sign-in, and documents are read of a provider that has a name. -/
def ReadsFrom (ps : Providers) : ProviderQuery → Prop
  | services p _ => ∃ name, ps.named name = .ok p
  | resources p _ _ => ∃ name, ps.named name = .ok p
  | methods p _ _ _ => ∃ name, ps.named name = .ok p
  | signIn _ _ _ => False
  | _ => True

theorem onlyReads_execute {ps : Providers} {q : ProviderQuery} (h : q.ReadsFrom ps)
    (filter : Option Filter) : OnlyReads ps (q.execute filter) := by
  have hreturns (out : Output) : OnlyReads ps (pure out) := (closed_onlyReads ps).returns out
  cases q with
  | providers names => exact hreturns _
  | services p extended =>
      obtain ⟨name, named⟩ := h
      exact (Provider.onlyReads_services named).bind fun _ => hreturns _
  | resources p service extended =>
      obtain ⟨name, named⟩ := h
      exact (Provider.onlyReads_service named _).bind fun _ => hreturns _
  | methods p service resource extended =>
      obtain ⟨name, named⟩ := h
      exact (Provider.onlyReads_resource named _ _).bind fun _ => hreturns _
  | identity p => exact p.keeps_identity.onlyReads.bind fun _ => hreturns _
  | signIn p kind keyFile => exact h.elim
  | signOut p => exact p.keeps_signOut.onlyReads.bind fun _ => hreturns _
  | rows r => exact hreturns _

end ProviderQuery

/-- The statement asks a question. -/
def Sql.Statement.asks : Sql.Statement → Bool
  | .show _ | .describe _ | .auth _ | .revoke _ => true
  | _ => false

namespace Analysis

variable {ps : Providers} {current : String} {pageSize : Nat} {c : Context}

theorem readsFrom_listing {s : Sql.Show} {l : Listing} (h : listing ps current s = .ok l) :
    l.query.ReadsFrom ps := by
  have hnamed {name : String} {p : Provider}
      (h : (providerNamed ps current name).mapError Error.resolution = .ok p) :
      ∃ name, ps.named name = .ok p := ⟨_, mapError_eq_ok.1 h⟩
  unfold listing at h
  dsimp only at h
  split at h
  · obtain ⟨_, -, h⟩ := bind_eq_ok.1 h
    cases h
    trivial
  · obtain ⟨p, hp, h⟩ := bind_eq_ok.1 h
    cases h
    exact hnamed hp
  · obtain ⟨-, h⟩ := guard_eq_ok.1 h
    obtain ⟨p, hp, h⟩ := bind_eq_ok.1 h
    cases h
    exact hnamed hp
  · obtain ⟨-, h⟩ := guard_eq_ok.1 h
    obtain ⟨p, hp, h⟩ := bind_eq_ok.1 h
    cases h
    exact hnamed hp
  · obtain ⟨p, hp, h⟩ := bind_eq_ok.1 h
    cases h
    trivial
  · cases h

/-- The question that is the meaning of a statement. -/
inductive Asks (ps : Providers) (current : String) : Sql.Statement → ProviderQuery → Prop
  | template {s : Sql.Show} (h : s.kind = "INSERT") (r : ResultSet) : Asks ps current (.show s) (.rows r)
  | listing {s : Sql.Show} {l : Listing} (h : Analysis.listing ps current s = .ok l) :
    Asks ps current (.show s) l.query
  | description (d : Sql.Describe) (r : ResultSet) : Asks ps current (.describe d) (.rows r)
  | signIn {a : Sql.Auth} {p : Provider} (h : providerNamed ps current a.provider = .ok p) :
    Asks ps current (.auth a) (.signIn p (a.kind.getD "") a.keyFile)
  | signOut {name : String} {p : Provider} (h : providerNamed ps current name = .ok p) :
    Asks ps current (.revoke name) (.signOut p)

/-- The question, if the meaning is one. -/
def query? : Analysis → Option ProviderQuery
  | query q _ => some q
  | _ => none

/-- A statement with a meaning asks a question if it is one of four, and none if it is not. -/
theorem asks_of_analyze {s : Sql.Statement} {a : Analysis}
    (h : (analyze ps current pageSize s c).1 = .ok a) :
    if s.asks then ∃ q filter, a = .query q filter ∧ Asks ps current s q else a.query? = none := by
  have hcall (hs : s.makesCall = true) : a.query? = none := by
    obtain ⟨_, ht, -⟩ := exists_target hs h
    cases a with
    | query q filter => cases ht
    | _ => rfl
  cases s with
  | select s =>
      cases hsource : s.source with
      | none =>
          simp only [analyze, analyzeSelect, hsource] at h
          simp only [ofValues, ofExcept_apply, mapError_eq_ok, bind_eq_ok, pure_eq_ok] at h
          obtain ⟨_, -, ⟨⟩⟩ := h
          rfl
      | some source =>
          cases source with
          | table name label =>
              refine hcall ?_
              rw [Sql.Statement.makesCall, Sql.Select.isOnTable, hsource]
          | join _ _ _ _ =>
              simp only [analyze, analyzeSelect, hsource] at h
              cases h
              rfl
  | insert s => exact hcall rfl
  | delete s => exact hcall rfl
  | exec s => exact hcall rfl
  | «show» s =>
      simp only [analyze, analyzeShow] at h
      split at h
      · next hk =>
        obtain ⟨call, _, -, h⟩ := bind_ok h
        simp only [ofShowInsert, ofExcept_apply, mapError_eq_ok, bind_eq_ok, pure_eq_ok] at h
        obtain ⟨_, -, ⟨⟩⟩ := h
        exact ⟨_, _, rfl, .template hk _⟩
      · simp only [ofShow, ofExcept_apply, mapError_eq_ok, bind_eq_ok, pure_eq_ok] at h
        obtain ⟨l, hl, _, -, ⟨⟩⟩ := h
        exact ⟨_, _, rfl, .listing hl⟩
  | describe d =>
      obtain ⟨p, _, -, h⟩ := bind_ok h
      obtain ⟨found, _, -, h⟩ := bind_ok h
      simp only [ofDescribe, ofExcept_apply, mapError_eq_ok, bind_eq_ok, pure_eq_ok] at h
      obtain ⟨_, -, _, -, ⟨⟩⟩ := h
      exact ⟨_, _, rfl, .description d _⟩
  | auth a =>
      obtain ⟨p, _, hp, h⟩ := bind_ok h
      cases h
      exact ⟨_, _, rfl, .signIn (ofExcept_ok (congrArg Prod.fst hp))⟩
  | revoke name =>
      obtain ⟨p, _, hp, h⟩ := bind_ok h
      cases h
      exact ⟨_, _, rfl, .signOut (ofExcept_ok (congrArg Prod.fst hp))⟩
  | use name =>
      obtain ⟨p, _, -, h⟩ := bind_ok h
      cases h
      rfl
  | sleep e =>
      have h := ofExcept_ok h
      unfold ofSleep at h
      split at h
      · split at h <;> cases h
        rfl
      · cases h
  | unsupported kind => cases h

example : (["AUTH REVOKE google", "USE google"].map fun text =>
    (Sql.Statement.ofText text).toOption.map (·.asks)) = [some true, some false] := by
  decide +kernel

/-- Whatever a statement asks, it is a sign-in itself or asks only what is read. -/
theorem readsFrom_of_analyze {s : Sql.Statement} {q : ProviderQuery} {filter : Option Filter}
    (h : (analyze ps current pageSize s c).1 = .ok (.query q filter)) :
    (∃ a, s = .auth a) ∨ q.ReadsFrom ps := by
  have hasks := asks_of_analyze h
  split at hasks
  · obtain ⟨_, _, ⟨⟩, hq⟩ := hasks
    cases hq with
    | template _ _ => exact .inr trivial
    | listing hl => exact .inr (readsFrom_listing hl)
    | description _ _ => exact .inr trivial
    | signIn _ => exact .inl ⟨_, rfl⟩
    | signOut _ => exact .inr trivial
  · cases hasks

end Analysis

/-! ## Instructions -/

namespace Instruction

theorem query_of_analysis {a : Analysis} {q : ProviderQuery} {filter : Option Filter}
    (h : ofAnalysis a = .ok (.query q filter)) : a = .query q filter := by
  cases a with
  | mutation kind target d =>
      simp only [ofAnalysis, ofMutation] at h
      repeat' split at h
      all_goals cases h
  | _ => cases h <;> rfl

/-- In a dry run, only a question sends something. -/
theorem onlyReads_execute {ps : Providers} {i : Instruction} {s : CallSettings}
    (hdry : s.dryRun = true) (hquery : ∀ q filter, i = .query q filter → q.ReadsFrom ps) :
    OnlyReads ps (i.execute s) := by
  have hshown {call : RestCall} (h : i.call? = some call) : OnlyReads ps (i.execute s) := by
    intro c
    rw [execute_of_dryRun h hdry]
    exact .refl ps c
  cases i with
  | rest call => exact hshown rfl
  | monitored call quiet showResults => exact hshown rfl
  | query q filter => exact q.onlyReads_execute (hquery q filter rfl) filter
  | literals result => exact (keeps_pure _).onlyReads
  | sleep duration =>
      have hwait : Keeps Context.traffic (wait duration) := fun _ => rfl
      exact (hwait.bind fun _ => keeps_pure _).onlyReads
  | use provider =>
      have huse : Keeps Context.traffic (modify fun c : Context => { c with current := provider } :
        Run PUnit) := fun _ => rfl
      exact (huse.bind fun _ => keeps_pure _).onlyReads
  | join tables => exact (keeps_throw _).onlyReads

end Instruction

namespace Session

open Analysis (providerNamed)

variable {s : Session} {text : String}

theorem readsFrom_of_made {ps : Providers} {pageSize : Nat} {current : String} {i : Instruction}
    (h : Made ps pageSize current text i) :
    (∃ a, Sql.Statement.ofText text = .ok (.auth a)) ∨
      ∀ q filter, i = .query q filter → q.ReadsFrom ps := by
  obtain ⟨transaction, p, c, -, hb, rfl⟩ := h
  obtain ⟨statement, _, _, a, hparsed, -, ha, hi⟩ := build_ok hb
  by_cases hauth : ∃ a, statement = .auth a
  · obtain ⟨a, rfl⟩ := hauth
    exact .inl ⟨a, hparsed⟩
  · refine .inr fun q filter hq => ?_
    rw [hq] at hi
    rw [Instruction.query_of_analysis hi] at ha
    exact (Analysis.readsFrom_of_analyze ha).resolve_left hauth

/-! ## Statements -/

/-- The request for a token that the statement makes, if it is a sign-in that makes one. -/
def exchange? (s : Session) (text : String) : Option Request :=
  match Sql.Statement.ofText text with
  | .ok (.auth a) =>
    match providerNamed s.providers s.context.current a.provider with
    | .ok p =>
      let credentials := s.context.credentialsOf p.name
      p.login.exchange? (credentials.requested (a.kind.getD "") a.keyFile) s.context
    | .error _ => none
  | _ => none

theorem reads_plan (s : Session) (text : String) :
    s.providers.Reads s.context (plan text s).2.context := by
  rcases hg : s.plans.get text with ⟨_ | p, plans⟩
  · have hreads := onlyReads_build s.providers s.pageSize text (s.transactions + 1) s.context
    rcases hb : build s.providers s.pageSize text (s.transactions + 1) s.context with ⟨r, context⟩
    rw [hb] at hreads
    rw [plan_of_missing hg hb]
    exact hreads
  · rw [plan_of_found hg]
    exact .refl _ _

theorem plan_signIn {a : Sql.Auth} (ht : Sql.Statement.ofText text = .ok (.auth a)) :
    (plan text s).2.context = s.context := by
  rcases hg : s.plans.get text with ⟨_ | p, plans⟩
  · rw [plan_of_missing hg (build_auth ht _ _ _ _)]
  · rw [plan_of_found hg]

theorem exchange?_of_signIn {a : Sql.Auth} (ht : Sql.Statement.ofText text = .ok (.auth a))
    {p : Provider} (hp : providerNamed s.providers s.context.current a.provider = .ok p) :
    s.exchange? text = p.login.exchange? ((s.context.credentialsOf p.name).requested
      (a.kind.getD "") a.keyFile) s.context := by
  simp only [exchange?, ht, hp]

theorem exchange?_eq_none (h : ∀ a, Sql.Statement.ofText text ≠ .ok (.auth a)) :
    s.exchange? text = none := by
  unfold exchange?
  split
  · next a ht => exact (h a ht).elim
  · rfl

/-- A sign-in sends the request for a token and nothing else. -/
theorem traffic_signIn (hs : s.PlansMade) {a : Sql.Auth}
    (ht : Sql.Statement.ofText text = .ok (.auth a)) :
    (executeStatement text s).2.context.traffic =
      ((s.exchange? text).toList ++ s.context.sent, s.context.libraries) := by
  have hcontext := plan_signIn (s := s) ht
  obtain ⟨r, planned, plans, hplan, -, -, hmade⟩ := hs.plan text
  -- no document is read for the plan, so the request is the one that the context before it leads to
  rw [hplan] at hcontext
  obtain rfl : planned = s.context := hcontext
  cases r with
  | error e =>
      rw [executeStatement_of_error hplan]
      rw [build_auth ht] at hmade
      simp only [exchange?, ht]
      cases hp : providerNamed s.providers s.context.current a.provider with
      | error e => rfl
      | ok p =>
          rw [hp] at hmade
          cases hmade
  | ok p =>
      obtain ⟨provider, hp, hi⟩ := instruction_of_made ht hmade
      rw [executeStatement_of_ok hplan (perform_of_execute rfl), exchange?_of_signIn ht hp]
      simp only [hi]
      exact ProviderQuery.traffic_executeSignIn provider _ _ _

/-- In a dry run, a statement sends downloads, and the request for a token if it is a sign-in. -/
theorem sends_executeStatement (hs : s.PlansMade) (hdry : s.settings.dryRun = true) (text : String) :
    s.providers.Sends (s.exchange? text).toList s.context (executeStatement text s).2.context := by
  -- a sign-in is the only question that sends something else, in a dry run as well as without
  by_cases hauth : ∃ a, Sql.Statement.ofText text = .ok (.auth a)
  · obtain ⟨a, ht⟩ := hauth
    exact Providers.sends_of_traffic (traffic_signIn hs ht)
  · rw [exchange?_eq_none fun a ht => hauth ⟨a, ht⟩]
    have hreads := s.reads_plan text
    obtain ⟨r, planned, plans, hplan, -, -, hmade⟩ := hs.plan text
    rw [hplan] at hreads
    cases r with
    | error e =>
        rw [executeStatement_of_error hplan]
        exact hreads
    | ok p =>
        rw [executeStatement_of_ok hplan (perform_of_execute rfl)]
        have hquery := (readsFrom_of_made hmade).resolve_left hauth
        exact hreads.trans (Instruction.onlyReads_execute hdry hquery planned)

/-! ## Runs -/

/-- The requests for tokens that the statements make, each in its turn. -/
def exchanges : List String → Session → List Request
  | [], _ => []
  | text :: more, s => (s.exchange? text).toList ++ exchanges more (executeStatement text s).2

theorem exchanges_eq_nil {texts : List String}
    (h : ∀ text ∈ texts, ∀ a, Sql.Statement.ofText text ≠ .ok (.auth a)) (s : Session) :
    exchanges texts s = [] := by
  induction texts generalizing s with
  | nil => rfl
  | cons text more ih =>
      rw [exchanges, exchange?_eq_none (h text List.mem_cons_self),
        ih fun text htext => h text (List.mem_cons_of_mem _ htext)]
      rfl

theorem sends_executeEach (hs : s.PlansMade) (hdry : s.settings.dryRun = true)
    (texts : List String) :
    s.providers.Sends (exchanges texts s) s.context (executeEach texts s).2.context := by
  induction texts generalizing s with
  | nil => exact Providers.Reads.refl _ _
  | cons text more ih =>
      -- the providers and the settings stay, and downloads stay downloads when more is known
      have hfirst := sends_executeStatement hs hdry text
      obtain ⟨planned, context, out, plans, he, -, hplans, -⟩ := hs.executeStatement text
      rw [executeEach_cons, exchanges]
      rw [he] at hfirst ⊢
      exact hfirst.trans (ih hplans hdry)

end Session

/-! ## A key that is exchanged -/

/-- An exchange is no download: it has a body. -/
theorem Providers.not_downloads_exchange {ps : Providers} {c : Context} (address assertion : String) :
    ¬ps.Downloads c (Token.exchangeRequest address assertion) := by
  have hbody {r : Request} (h : ps.Downloads c r) : r.body = none := by
    cases h <;> rfl
  intro h
  cases hbody h

theorem AccountKey.read_text {c : Context} {path : String} {k : AccountKey} {time : Nat}
    (h : c.files.read path = .ok ⟨k.text, time⟩) : AccountKey.read (some path) c = (.ok k, c) := by
  simp only [AccountKey.read, get_bind_apply, h, decode?_text]
  rfl

theorem Token.exists_exchange {credentials : Credentials} {c : Context} {path : String} {k : AccountKey}
    {time : Nat} (hpath : credentials.keyFile = some path)
    (hfile : c.files.read path = .ok ⟨k.text, time⟩) (hkey : PrivateKey.isValid k.privateKey = true) :
    ∃ assertion, exchange? credentials c = some (exchangeRequest k.address assertion) := by
  unfold exchange?
  rw [hpath, AccountKey.read_text hfile]
  exact ⟨_, if_pos hkey⟩

theorem Login.exists_exchange {credentials : Credentials} {c : Context} {path : String}
    {k : AccountKey} {time : Nat} (htokens : Dict.find? c.tokens credentials.cacheKey = none)
    (hkind : credentials.usedKind = .serviceAccount) (hpath : credentials.keyFile = some path)
    (hfile : c.files.read path = .ok ⟨k.text, time⟩) (hkey : PrivateKey.isValid k.privateKey = true) :
    ∃ assertion, google.exchange? credentials c =
      some (Token.exchangeRequest k.address assertion) := by
  unfold exchange? Credentials.exchange?
  rw [htokens, hkind]
  exact Token.exists_exchange hpath hfile hkey

namespace Sample

/-- An item of a key: its tag, its length and its content, at most 65535 bytes. -/
def item (tag : Nat) (content : List Nat) : List Nat :=
  let n := content.length
  let length := if n < 128 then [n] else if n < 256 then [129, n] else [130, n / 256, n % 256]
  tag :: length ++ content

/-- A number as an item, the highest byte first. The first byte is below 128, for the number is not
negative. -/
def number (n : Nat) : List Nat :=
  item 2 ((List.range ((n.log2 + 1) / 8 + 1)).reverse.map fun i => n / Nat.pow 256 i % 256)

/-- A key of 2048 bits: two primes, their product, and what follows from them. -/
def keyBytes : List Nat :=
  let p := Nat.pow 2 1024 - 105
  let q := 3 * Nat.pow 2 1022 + 1037
  let e := 65537
  let d := (29717 * ((p - 1) * (q - 1)) + 1) / e
  -- four times the second prime is three times the first one and 4463
  let inverse := 4 * ((3770 * p + 1) / 4463) % p
  item 48 ([0, p * q, e, d, p, q, d % (p - 1), d % (q - 1), inverse].flatMap number)

theorem isValid_keyBytes : PrivateKey.isValid (PrivateKey.text keyBytes) = true :=
  PrivateKey.isValid_text (by decide +kernel) (by decide +kernel)

def accountKey : AccountKey :=
  ⟨"me", PrivateKey.text keyBytes, none⟩

def dryAccount : Session :=
  .start { Config.initial "" with dryRun := true }
    [("google", .google (.loaded [] []) .google false)]
    { Context.initial .unreachable "google" with files := [("key.json", ⟨accountKey.text, 0⟩)] }

def signInText : String :=
  "AUTH google SERVICEACCOUNT KEYFILE \x27key.json\x27"

/-- The credentials with which the service account asks for a token. -/
def requested : Credentials :=
  (dryAccount.context.credentialsOf "google").requested "serviceaccount" (some "key.json")

theorem exists_exchange_requested : ∃ assertion,
    Login.google.exchange? requested dryAccount.context =
      some (Token.exchangeRequest accountKey.address assertion) :=
  Login.exists_exchange rfl (by decide +kernel) rfl rfl isValid_keyBytes

end Sample

namespace Session

open Sample

variable {s : Session} {text : String}

theorem exists_sent_of_exchange (hs : s.PlansMade) {a : Sql.Auth}
    (ht : Sql.Statement.ofText text = .ok (.auth a)) {address assertion : String}
    (hexchange : s.exchange? text = some (Token.exchangeRequest address assertion)) :
    ∃ r ∈ (executeStatement text s).2.context.sent,
      ¬s.providers.Downloads (executeStatement text s).2.context r := by
  have hsent : (executeStatement text s).2.context.sent =
      (s.exchange? text).toList ++ s.context.sent :=
    congrArg Prod.fst (traffic_signIn hs ht)
  rw [hexchange] at hsent
  refine ⟨Token.exchangeRequest address assertion, ?_, Providers.not_downloads_exchange _ _⟩
  rw [hsent]
  exact List.mem_cons_self

end Session
end RestSql
