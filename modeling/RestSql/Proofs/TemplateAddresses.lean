import RestSql.Proofs.Descriptions
import RestSql.Proofs.FailedPlans
import RestSql.Proofs.FilledTemplates

/-!
# What templates address

The template of an INSERT statement names its table by the provider, the service and the resource that the
table was resolved to, without quotes and without the id of the service. If no part of these names needs
quotes, the filled template is an INSERT statement with the columns of the template. Its table means the
same service, resource and method exactly if the resource is not nested, for the dots in its name would cut
it, and the name of the service selects the service (`showInsert_addresses`).
-/

namespace RestSql

/-! ## Providers in memory -/

/-- The service of a document, whose entry is that with its id in the directory, if there is one. -/
def Document.serviceIn (d : Document) (directory : List ServiceEntry) : Service :=
  d.toService (directory.find? (·.id == ServiceId.toSql d.id))

/-- The catalog of a directory and documents. -/
def Catalog.ofDocuments (directory : List ServiceEntry) (documents : List Document) : Catalog :=
  .loaded directory (Dict.ofEntries ((documents.map (·.serviceIn directory)).map fun s => (s.entry.id, s)))

/-- The services of the provider are made of a directory and of documents. -/
def Provider.InMemory (p : Provider) : Prop :=
  ∃ directory documents, p.catalog = .ofDocuments directory documents

/-- All providers are in memory. -/
def Providers.InMemory (ps : Providers) : Prop :=
  ∀ e ∈ ps, e.2.InMemory

theorem Document.exists_of_texts {directory : List ServiceEntry} {texts : List String}
    {services : List Service} (h : (texts.mapM fun text =>
      match Document.ofText? text with
      | none => .error .badDocument
      | some d => .ok (d.toService (directory.find? (·.id == ServiceId.toSql d.id)))) =
        (.ok services : Except DiscoveryError (List Service))) :
    ∃ documents : List Document, services = documents.map (·.serviceIn directory) := by
  rw [mapM_eq_ok] at h
  induction services generalizing texts with
  | nil => exact ⟨[], rfl⟩
  | cons service services ih =>
      obtain ⟨text, texts, rfl, hservice, h⟩ := List.map_eq_cons_iff.1 h
      obtain ⟨documents, rfl⟩ := ih h
      split at hservice
      · cases hservice
      · next d _ =>
        cases hservice
        exact ⟨d :: documents, rfl⟩

/-- A provider whose catalog is read from texts is in memory. -/
theorem Provider.InMemory.of_texts {p : Provider} {directory : String} {texts : List String}
    (h : Catalog.ofTexts directory texts = .ok p.catalog) : p.InMemory := by
  unfold Catalog.ofTexts at h
  split at h
  · cases h
  · next entries _ =>
    obtain ⟨services, hservices, h⟩ := bind_eq_ok.1 h
    obtain ⟨documents, rfl⟩ := Document.exists_of_texts hservices
    exact ⟨entries, documents, (pure_eq_ok.1 h).symm⟩

theorem Providers.InMemory.named {ps : Providers} (h : ps.InMemory) {name : String} {p : Provider}
    (hp : ps.named name = .ok p) : p.InMemory :=
  h _ (Providers.mem_of_named hp)

theorem Providers.InMemory.loaded {ps : Providers} (h : ps.InMemory) : ps.Loaded := by
  intro e he
  obtain ⟨directory, _, hcatalog⟩ := h e he
  exact ⟨directory, _, hcatalog⟩

/-- A resource stands under its name. -/
theorem Document.name_of_resource? {d : Document} {entry : Option ServiceEntry} {key : String}
    {r : Resource} (h : (d.toService entry).resource? key = some r) : r.name = key := by
  have hmem := Dict.mem_ofEntries (Dict.mem_of_find? h)
  obtain ⟨⟨name, methods⟩, -, he⟩ := List.mem_map.1 hmem
  cases he
  rfl

namespace Provider

variable {p : Provider} {directory : List ServiceEntry} {services : Dict Service}

/-- The services stand under their ids, and the resources of each under their names. -/
structure Consistent (services : Dict Service) : Prop where
  id_eq : ∀ {id s}, Dict.find? services id = some s → s.entry.id = id
  name_eq : ∀ {id s key r}, Dict.find? services id = some s → s.resource? key = some r → r.name = key

theorem InMemory.exists_catalog (h : p.InMemory) :
    ∃ directory services, p.catalog = .loaded directory services ∧ Consistent services := by
  obtain ⟨directory, documents, hcatalog⟩ := h
  have hservice {id : String} {s : Service} (hs : Dict.find? (Dict.ofEntries
      ((documents.map (·.serviceIn directory)).map fun s => (s.entry.id, s))) id = some s) :
      ∃ d : Document, s = d.serviceIn directory ∧ s.entry.id = id := by
    obtain ⟨service, hmem, he⟩ := List.mem_map.1 (Dict.mem_ofEntries (Dict.mem_of_find? hs))
    cases he
    obtain ⟨d, -, rfl⟩ := List.mem_map.1 hmem
    exact ⟨d, rfl, rfl⟩
  refine ⟨directory, _, hcatalog, fun hs => ?_, fun hs hr => ?_⟩
  · obtain ⟨_, -, hid⟩ := hservice hs
    exact hid
  · obtain ⟨_, rfl, -⟩ := hservice hs
    exact Document.name_of_resource? hr

theorem service_apply (hc : p.catalog = .loaded directory services) (key : String) (c : Context) :
    p.service key c = (match p.select directory key with
      | .error e => .error (.resolution e)
      | .ok e =>
        match Dict.find? services e.id with
        | some s => .ok s
        | none => .error (.discovery (.notCached (serviceFile e.id))), c) := by
  have hdirectory : p.directory c = (.ok directory, c) := by
    rw [Provider.directory, hc]
    rfl
  rw [service, Run.bind_apply, hdirectory]
  dsimp only
  rw [Run.bind_apply]
  cases p.select directory key with
  | error e => rfl
  | ok e =>
      show p.load e c = _
      rw [load, hc]
      dsimp only
      cases Dict.find? services e.id <;> rfl

/-- A resource is that of the selected service. -/
theorem resource_eq_ok_iff (hc : p.catalog = .loaded directory services) {key name : String} {c : Context}
    {s : Service} {r : Resource} :
    (p.resource key name c).1 = .ok (s, r) ↔ ∃ e, p.select directory key = .ok e ∧
      Dict.find? services e.id = some s ∧ s.resource? name = some r := by
  rw [resource, Run.bind_apply, service_apply hc]
  cases p.select directory key with
  | error e => exact iff_of_false nofun (by simp)
  | ok e =>
      cases hs : Dict.find? services e.id with
      | none => exact iff_of_false (by simp [hs]) (by simp [hs])
      | some found =>
          simp only [hs, Except.ok.injEq, exists_eq_left', Option.some.injEq]
          cases hr : found.resource? name with
          | none =>
              refine iff_of_false nofun ?_
              rintro ⟨rfl, h⟩
              cases hr.symm.trans h
          | some resource =>
              refine ⟨fun h => ?_, ?_⟩
              · cases h
                exact ⟨rfl, hr⟩
              · rintro ⟨rfl, h⟩
                cases hr.symm.trans h
                rfl

end Provider

/-! ## Names that are resolved -/

/-- The name of the service selects an entry of the directory with the id of the service. -/
def Call.namesService (c : Call) : Bool :=
  match c.provider.catalog with
  | .loaded directory _ =>
    (c.provider.select directory c.service.entry.name).toOption.any (·.id == c.service.entry.id)
  | .documents _ => false

theorem Call.namesService_iff {c : Call} {directory : List ServiceEntry} {services : Dict Service}
    (hc : c.provider.catalog = .loaded directory services) : c.namesService = true ↔
      ∃ e, c.provider.select directory c.service.entry.name = .ok e ∧ e.id = c.service.entry.id := by
  simp only [namesService, hc]
  cases c.provider.select directory c.service.entry.name with
  | error e => simp [Except.toOption]
  | ok e => simp [Except.toOption]

/-- The full name of the table, part by part; the name of a nested resource has several parts. -/
def Call.fullName (c : Call) : List String :=
  c.name.provider :: c.service.entry.name :: Text.cutAt '.' c.resource.name

/-- The parts of the full name of the table need no quotes. -/
def Call.HasPlainNames (c : Call) : Prop :=
  ∀ part ∈ c.fullName, Sql.isBareName part = true

theorem Call.tableName_eq (c : Call) : c.tableName = String.intercalate "." c.fullName := by
  have hne : (Text.cutAt '.' c.resource.name).map String.toList ≠ [] :=
    mt List.map_eq_nil_iff.1 (Text.cutAt_ne_nil _ _)
  rw [← String.toList_inj, String.toList_intercalate, fullName, List.map_cons, List.map_cons]
  show _ = List.intercalate ['.'] _
  rw [List.intercalate_cons_cons, List.intercalate_cons_of_ne_nil hne, Text.intercalate_cutAt]
  simp [tableName]

theorem InsertTemplate.table_of_make {table : String} {m : Method} {set : SchemaSet}
    {request : Option Schema} {columns : List String} {extended requiredOnly : Bool}
    {template : InsertTemplate}
    (h : make table m set request columns extended requiredOnly = .ok template) :
    template.table = table := by
  unfold make at h
  split at h
  · obtain ⟨_, -, h⟩ := bind_eq_ok.1 h
    cases h
    rfl
  · obtain ⟨_, -, h⟩ := bind_eq_ok.1 h
    obtain ⟨_, -, h⟩ := bind_eq_ok.1 h
    obtain ⟨_, -, h⟩ := bind_eq_ok.1 h
    cases h
    rfl

/-- A call is resolved if all its parts are. -/
theorem Call.resolve_of_parts {ps : Providers} {c : Call} {action : String} {context : Context}
    (hservice : c.name.service ≠ "") (hresource : c.name.resource ≠ "")
    (hprovider : ps.named c.name.provider = .ok c.provider)
    (hparts : (c.provider.resource c.name.service c.name.resource context).1 =
      .ok (c.service, c.resource))
    (hmethod : methodOf c.resource c.name.method action = .ok c.method) :
    (resolve ps c.name action context).1 = .ok c := by
  rcases hparts' : c.provider.resource c.name.service c.name.resource context with ⟨r, context'⟩
  rw [hparts'] at hparts
  obtain rfl : r = .ok (c.service, c.resource) := hparts
  rw [resolve, if_neg (not_or.2 ⟨hservice, hresource⟩)]
  dsimp only
  rw [Run.bind_apply, Run.ofExcept_apply, hprovider]
  dsimp only [Except.mapError]
  rw [Run.bind_apply, hparts']
  dsimp only
  rw [Run.bind_apply, Run.ofExcept_apply, hmethod]
  rfl

/-- The calls are for the same service, resource and method. -/
structure Call.SameMethod (c d : Call) : Prop where
  service : c.service = d.service
  resource : c.resource = d.resource
  method : c.method = d.method

namespace Session

open Analysis (tableCall)

variable {s : Session} {call : Call}

/-- In this state of the session the table name means the call for an INSERT statement. -/
def Resolves (s : Session) (table : Sql.Name) (call : Call) : Prop :=
  (tableCall s.providers s.context.current table "insert" s.context).1 = .ok call

/-- In this state of the session the text is an INSERT statement into the table that the call is for. -/
def Addresses (s : Session) (text : String) (call : Call) : Prop :=
  ∃ insert call', Sql.Statement.ofText text = .ok (.insert insert) ∧ s.Resolves insert.table call' ∧
    call'.SameMethod call

/-- The full name is read part by part if there is no dot in the name of the resource. -/
theorem ofResource_fullName {call : Call} (hplain : call.HasPlainNames)
    (hdot : '.' ∉ call.resource.name.toList) (current : String) :
    CallName.ofResource ⟨call.fullName⟩ current =
      { provider := call.name.provider, service := call.service.entry.name
        resource := call.resource.name, method := "" } := by
  have hprovider : call.name.provider ≠ "" := Sql.isBareName_ne (hplain _ List.mem_cons_self)
  rw [Call.fullName, Text.cutAt_of_not_mem hdot]
  exact congrArg (fun p => CallName.mk p _ _ _) (if_neg hprovider)

/-- Only the last part of the full name can be the name of a resource. -/
theorem dot_not_mem_of_resolves (hmemory : s.providers.InMemory) {c : Call} (hplain : c.HasPlainNames)
    (h : s.Resolves ⟨c.fullName⟩ call) (hsame : call.resource = c.resource) :
    '.' ∉ c.resource.name.toList := by
  obtain ⟨-, hnamed, hparts, -⟩ := Call.resolve_ok (Prod.ext h rfl)
  obtain ⟨_, _, hc, hconsistent⟩ := (hmemory.named hnamed).exists_catalog
  obtain ⟨_, -, hfind, hresource⟩ := (Provider.resource_eq_ok_iff hc).1 hparts
  have hlast := hconsistent.name_eq hfind hresource
  rw [hsame] at hlast
  have hmem : c.resource.name ∈ c.fullName := by
    rw [hlast]
    exact Sql.Name.last_mem (n := ⟨c.fullName⟩) (List.cons_ne_nil _ _)
  intro hdot
  cases Sql.isNameChar_of_mem (hplain _ hmem) hdot

/-- The full name of a table means the same service, resource and method as the table exactly if the
resource is not nested and the name of the service selects the service. -/
theorem resolves_fullName_iff (hmemory : s.providers.InMemory) {table : Sql.Name}
    (hcall : s.Resolves table call) (hplain : call.HasPlainNames) {t : Session}
    (ht : t.providers = s.providers) :
    (∃ call', t.Resolves ⟨call.fullName⟩ call' ∧ call'.SameMethod call) ↔
      '.' ∉ call.resource.name.toList ∧ call.namesService = true := by
  obtain ⟨hname, hnamed, hparts, hmethod⟩ := Call.resolve_ok (Prod.ext hcall rfl)
  obtain ⟨directory, services, hc, hconsistent⟩ := (hmemory.named hnamed).exists_catalog
  obtain ⟨e, -, hfind, hresource⟩ := (Provider.resource_eq_ok_iff hc).1 hparts
  have hid := hconsistent.id_eq hfind
  have hresourceName := hconsistent.name_eq hfind hresource
  rw [← hname] at hnamed
  constructor
  · rintro ⟨call', hresolves, hservice, hsame, -⟩
    have hdot := dot_not_mem_of_resolves (ht ▸ hmemory) hplain hresolves hsame
    obtain ⟨-, hnamed', hparts', -⟩ := Call.resolve_ok (Prod.ext hresolves rfl)
    rw [ofResource_fullName hplain hdot] at hnamed' hparts'
    rw [ht, hnamed] at hnamed'
    rw [← Except.ok.inj hnamed', hservice, Provider.resource_eq_ok_iff hc] at hparts'
    obtain ⟨e', hselect, hfind', -⟩ := hparts'
    exact ⟨hdot, (Call.namesService_iff hc).2 ⟨e', hselect, (hconsistent.id_eq hfind').symm⟩⟩
  · rintro ⟨hdot, hnames⟩
    obtain ⟨e', hselect, hid'⟩ := (Call.namesService_iff hc).1 hnames
    let call' : Call := { call with
      name := { provider := call.name.provider, service := call.service.entry.name
                resource := call.resource.name, method := "" } }
    have hservice : call.service.entry.name ≠ "" :=
      Sql.isBareName_ne (hplain _ (List.mem_cons_of_mem _ List.mem_cons_self))
    have hresource' : call.resource.name ≠ "" := by
      refine Sql.isBareName_ne (hplain _ (List.mem_cons_of_mem _ (List.mem_cons_of_mem _ ?_)))
      rw [Text.cutAt_of_not_mem hdot]
      exact List.mem_singleton_self _
    have hfound : (call.provider.resource call.service.entry.name call.resource.name t.context).1 =
        .ok (call.service, call.resource) := by
      rw [← hresourceName] at hresource
      rw [← hid, ← hid'] at hfind
      exact (Provider.resource_eq_ok_iff hc).2 ⟨e', hselect, hfind, hresource⟩
    refine ⟨call', ?_, ⟨rfl, rfl, rfl⟩⟩
    rw [Resolves, ht, tableCall, ofResource_fullName hplain hdot]
    exact Call.resolve_of_parts (c := call') hservice hresource' hnamed hfound hmethod

/-! ## Templates that are shown -/

/-- The table that shows a template. -/
def insertTable (t : InsertTemplate) : ResultSet :=
  { columns := ["insert_statement"], rows := [Row.ofTexts [("insert_statement", t.text)]] }

/-- The template for the call that a SHOW INSERT statement resolves to. -/
def templateOf (call : Call) (request : Sql.Show) : Except ValidationError InsertTemplate :=
  InsertTemplate.make call.tableName call.method call.service.schemas call.requestSchema? request.columns
    request.extended (request.directives.isSet Analysis.requiredDirective)

/-- A SHOW INSERT statement that succeeds shows the template for the call of its table. -/
theorem showInsert_shows (hs : s.Sound) {text : String} {request : Sql.Show}
    (hparsed : Sql.Statement.ofText text = .ok (.show request)) (hkind : request.kind = "INSERT")
    (hsucceeds : (executeStatement text s).1.error = none) :
    ∃ call template, s.Resolves (request.target.getD ⟨[]⟩) call ∧
      templateOf call request = .ok template ∧
      (executeStatement text s).1.result = some (insertTable template) := by
  obtain ⟨_, hexecuted, -⟩ := executeStatement_eq_outcome hs text
  rw [hexecuted] at hsucceeds ⊢
  obtain ⟨r, hbuild, hmade⟩ := build_eq_made hs.loaded text 0
  cases r with
  | error e =>
      rw [outcome, hmade] at hsucceeds
      cases hsucceeds
  | ok p =>
      obtain ⟨statement, a, i, hstatement, -, ha, hi, rfl⟩ := build_eq_ok.1 hbuild
      cases hparsed.symm.trans hstatement
      rw [Analysis.analyze, Analysis.analyzeShow, if_pos hkind] at ha
      obtain ⟨call, c, hcall, ha⟩ := Run.bind_eq_ok.1 ha
      obtain ⟨template, htemplate, ha⟩ := bind_eq_ok.1 (Run.ofExcept_ok (congrArg Prod.fst ha))
      cases ha
      cases hi
      refine ⟨call, template, congrArg Prod.fst hcall, htemplate, ?_⟩
      rw [outcome, hmade.1]
      rfl

/-- A template that is filled with literals addresses the table that it was made for exactly if the resource
is not nested and the name of the service selects the service. -/
theorem addresses_filled_iff (hmemory : s.providers.InMemory) {table : Sql.Name}
    (hcall : s.Resolves table call) (hnames : call.HasPlainNames) {template : InsertTemplate}
    (htable : template.table = call.tableName) (hplain : template.HasPlainNames) {filled : String}
    (hfilled : template.Filled TemplateValue.literals filled) {t : Session}
    (ht : t.providers = s.providers) :
    t.Addresses filled call ↔ '.' ∉ call.resource.name.toList ∧ call.namesService = true := by
  rw [Call.tableName_eq] at htable
  obtain ⟨values, e, -, hread⟩ :=
    InsertTemplate.ofText_filled hplain htable (List.cons_ne_nil _ _) hnames hfilled
  rw [← resolves_fullName_iff hmemory hcall hnames ht]
  constructor
  · rintro ⟨insert, call', hinsert, hsame⟩
    rw [hread] at hinsert
    split at hinsert
    · cases hinsert
      exact ⟨call', hsame⟩
    · cases hinsert
  · rintro ⟨call', hsame⟩
    have hdot := ((resolves_fullName_iff hmemory hcall hnames ht).1 ⟨call', hsame⟩).1
    have hlength : call.fullName.length ≤ Sql.Name.maxParts := by
      rw [Call.fullName, Text.cutAt_of_not_mem hdot]
      exact (by decide : 3 ≤ Sql.Name.maxParts)
    rw [if_pos hlength] at hread
    exact ⟨_, call', hread, hsame⟩

end Session

/-! ## Networks and their peerings -/

namespace Sample

open Session

def inserter (path : String) : String × Method :=
  method "insert" path "POST" [parameter "project" .query true] none none

/-- Networks, and peerings below them. -/
def document : Document :=
  { id := "compute", name := "compute", version := "v1", title := "", description := "", baseUrl := ""
    rootUrl := "https://compute.test/", servicePath := "", documentation := ""
    resources := [("networks",
      .node [inserter "networks"] [("peerings", .node [inserter "networks/peerings"] [])])]
    schemas := [] }

def documented : Providers :=
  [("google", .google (.ofDocuments [entry] [document]) (.fixed "token" "me") false)]

theorem inMemory_documented : documented.InMemory := by
  intro e he
  obtain rfl := List.mem_singleton.1 he
  exact ⟨_, _, rfl⟩

def documentedSession : Session :=
  start (.initial "google") documented context

/-- The only column is the project. -/
def projectEntries : List TemplateEntry := [⟨"project", .slot "project" true⟩]

def isProjectEntries : List TemplateEntry → Bool
  | [⟨"project", .slot "project" true⟩] => true
  | _ => false

/-- The statement shows a template for the insertion of a resource into a project. -/
def showsProject (text resource : String) : Bool :=
  match Sql.Statement.ofText text with
  | .ok (.show request) =>
    request.kind == "INSERT" && request.target == some ⟨["google", "compute", resource]⟩ &&
      (executeStatement text documentedSession).1.error.isNone &&
      match (Analysis.tableCall documented "google" ⟨["google", "compute", resource]⟩ "insert" context).1 with
      | .ok call =>
        call.name.provider == "google" && call.service.entry.name == "compute" &&
          call.resource.name == resource && call.namesService &&
          (templateOf call request).toOption.any fun t => isProjectEntries t.entries
      | .error _ => false
  | _ => false

/-- What is known of a statement that shows such a template. -/
structure ShowsProject (text resource : String) (request : Sql.Show) (call : Call)
    (template : InsertTemplate) : Prop where
  parsed : Sql.Statement.ofText text = .ok (.show request)
  kind : request.kind = "INSERT"
  target : request.target = some ⟨["google", "compute", resource]⟩
  succeeds : (executeStatement text documentedSession).1.error = none
  resolves : documentedSession.Resolves ⟨["google", "compute", resource]⟩ call
  provider : call.name.provider = "google"
  service : call.service.entry.name = "compute"
  resource : call.resource.name = resource
  namesService : call.namesService = true
  made : templateOf call request = .ok template
  entries : template.entries = projectEntries

theorem eq_of_isProjectEntries {entries : List TemplateEntry} (h : isProjectEntries entries = true) :
    entries = projectEntries := by
  unfold isProjectEntries at h
  split at h
  · rfl
  · cases h

theorem exists_of_showsProject {text resource : String} (h : showsProject text resource = true) :
    ∃ request call template, ShowsProject text resource request call template := by
  unfold showsProject at h
  split at h
  · next request hparsed =>
    rw [Bool.and_eq_true, Bool.and_eq_true, Bool.and_eq_true] at h
    obtain ⟨⟨⟨hkind, htarget⟩, hsucceeds⟩, h⟩ := h
    split at h
    · next call hresolves =>
      simp only [Bool.and_eq_true, beq_iff_eq] at h
      obtain ⟨⟨⟨⟨hprovider, hservice⟩, hresource⟩, hnames⟩, h⟩ := h
      obtain ⟨template, hmade, hentries⟩ := (Option.any_eq_true _ _).1 h
      exact ⟨request, call, template, hparsed, by simpa using hkind, by simpa using htarget,
        by simpa using hsucceeds, hresolves, hprovider, hservice, hresource, hnames,
        eq_ok_of_toOption hmade, eq_of_isProjectEntries hentries⟩
    · cases h
  · cases h

theorem hasPlainNames_project {template : InsertTemplate} (h : template.entries = projectEntries) :
    template.HasPlainNames := by
  refine ⟨?_, ?_, ?_⟩ <;> rw [h] <;> decide

namespace ShowsProject

variable {text resource : String} {request : Sql.Show} {call : Call} {template : InsertTemplate}

theorem template_eq (h : ShowsProject text resource request call template) :
    template = ⟨"google.compute." ++ resource, projectEntries⟩ := by
  have hprefix : "google" ++ "." ++ "compute" ++ "." = "google.compute." := by decide
  have htable : template.table = "google.compute." ++ resource := by
    rw [InsertTemplate.table_of_make h.made, Call.tableName, h.provider, h.service, h.resource, hprefix]
  cases template
  cases htable
  cases h.entries
  rfl

theorem filled {filled : String} (h : ShowsProject text resource request call template)
    (hfilled : filled =
      InsertTemplate.textWith ⟨"google.compute." ++ resource, projectEntries⟩ ["'p'"]) :
    template.Filled TemplateValue.literals filled := by
  have hquote : '\x27' ∉ "p".toList := by decide
  rw [h.template_eq]
  exact ⟨["'p'"], .cons ⟨"p", hquote, rfl⟩ .nil, hfilled⟩

theorem hasPlainNames (h : ShowsProject text resource request call template)
    (hresource : (Text.cutAt '.' resource).all Sql.isBareName = true) : call.HasPlainNames := by
  rw [Call.HasPlainNames, Call.fullName, h.provider, h.service, h.resource]
  exact List.forall_mem_cons.2 ⟨by decide, List.forall_mem_cons.2 ⟨by decide, List.all_eq_true.1 hresource⟩⟩

end ShowsProject

theorem shows_networks :
    showsProject "SHOW INSERT INTO google.compute.networks" "networks" = true := by
  decide +kernel

theorem shows_peerings :
    showsProject "SHOW INSERT INTO google.compute.\x60networks.peerings\x60" "networks.peerings" =
      true := by
  decide +kernel

end Sample

namespace Session

variable {s : Session} {call : Call}

/-- For every session over providers in memory: a SHOW INSERT statement that succeeds shows the template for
the call that its table means. If no part of a name in it needs quotes, each way to fill it with literals
gives an INSERT statement of the columns of the template with one literal for each, unless the name of the
table has too many parts. The table of that statement means the same service, resource and method exactly if
the resource is not nested and the name of the service selects the service. -/
theorem showInsert_addresses {config : Config} {ps : Providers} {context : Context}
    (hmemory : ps.InMemory) (hs : Reached (start config ps context) s) {text : String}
    {request : Sql.Show} (hparsed : Sql.Statement.ofText text = .ok (.show request))
    (hkind : request.kind = "INSERT") (hsucceeds : (executeStatement text s).1.error = none) :
    ∃ call template, s.Resolves (request.target.getD ⟨[]⟩) call ∧
      templateOf call request = .ok template ∧
      (executeStatement text s).1.result = some (insertTable template) ∧
      (call.HasPlainNames → template.HasPlainNames →
        ∀ filled, template.Filled TemplateValue.literals filled →
          (call.fullName.length ≤ Sql.Name.maxParts →
            ∃ (insert : Sql.Insert) (values : List Sql.Literal),
              Sql.Statement.ofText filled = .ok (.insert insert) ∧
              insert.columns = template.entries.map (·.column) ∧
              insert.rows = [values.map .literal] ∧ values.length = insert.columns.length) ∧
          ∀ later, Reached (start config ps context) later →
            (later.Addresses filled call ↔
              '.' ∉ call.resource.name.toList ∧ call.namesService = true)) := by
  have hloaded : (start config ps context).providers.Loaded := hmemory.loaded
  have hsound : s.Sound := hs.sound (.of_no_plans hloaded rfl)
  have hproviders {t : Session} (ht : Reached (start config ps context) t) : t.providers = ps :=
    (ht.unchanged (.of_no_plans rfl)).1
  obtain ⟨call, template, hresolves, htemplate, hresult⟩ :=
    showInsert_shows hsound hparsed hkind hsucceeds
  have htable : template.table = call.tableName := InsertTemplate.table_of_make htemplate
  refine ⟨call, template, hresolves, htemplate, hresult, fun hnames hplain filled hfilled => ⟨?_, ?_⟩⟩
  · intro hlength
    obtain ⟨values, e, hvalues, hread⟩ := InsertTemplate.ofText_filled hplain
      (htable.trans call.tableName_eq) (List.cons_ne_nil _ _) hnames hfilled
    rw [if_pos hlength] at hread
    exact ⟨_, values, hread, rfl, rfl, by rw [hvalues, List.length_map]⟩
  · intro later hlater
    rw [← hproviders hs] at hmemory
    exact addresses_filled_iff hmemory hresolves hnames htable hplain hfilled
      ((hproviders hlater).trans (hproviders hs).symm)

theorem showInsert_addresses_networks :
    let text := "SHOW INSERT INTO google.compute.networks"
    let filled := "INSERT INTO google.compute.networks(\n  project\n)\nSELECT\n  'p'\n;\n"
    ∃ call template, Sample.documentedSession.Resolves Sample.table call ∧
      template.Filled TemplateValue.literals filled ∧
      (executeStatement text Sample.documentedSession).1.result = some (insertTable template) ∧
      Sample.documentedSession.Addresses filled call := by
  intro text filled
  obtain ⟨request, call, template, h⟩ := Sample.exists_of_showsProject Sample.shows_networks
  obtain ⟨call', template', hresolves, hmade, hresult, haddresses⟩ :=
    showInsert_addresses Sample.inMemory_documented .start h.parsed h.kind h.succeeds
  rw [h.target] at hresolves
  cases h.resolves.symm.trans hresolves
  cases h.made.symm.trans hmade
  have hfilled : template.Filled TemplateValue.literals filled := h.filled (by decide)
  have hnames : call.HasPlainNames := h.hasPlainNames (by decide)
  obtain ⟨-, hiff⟩ := haddresses hnames (Sample.hasPlainNames_project h.entries) filled hfilled
  refine ⟨call, template, h.resolves, hfilled, hresult, (hiff _ .start).2 ⟨?_, h.namesService⟩⟩
  rw [h.resource]
  decide

/-- The filled template for a nested resource is an INSERT statement into another table, if any. -/
theorem not_showInsert_addresses_peerings :
    let text := "SHOW INSERT INTO google.compute.\x60networks.peerings\x60"
    let filled := "INSERT INTO google.compute.networks.peerings(\n  project\n)\nSELECT\n  'p'\n;\n"
    ∃ call template,
      Sample.documentedSession.Resolves ⟨["google", "compute", "networks.peerings"]⟩ call ∧
      template.Filled TemplateValue.literals filled ∧
      (executeStatement text Sample.documentedSession).1.result = some (insertTable template) ∧
      ¬Sample.documentedSession.Addresses filled call := by
  intro text filled
  obtain ⟨request, call, template, h⟩ := Sample.exists_of_showsProject Sample.shows_peerings
  obtain ⟨call', template', hresolves, hmade, hresult⟩ :=
    showInsert_shows (.of_no_plans Sample.inMemory_documented.loaded rfl) h.parsed h.kind h.succeeds
  rw [h.target] at hresolves
  cases h.resolves.symm.trans hresolves
  cases h.made.symm.trans hmade
  have hfilled : template.Filled TemplateValue.literals filled := h.filled (by decide)
  have hnames : call.HasPlainNames := h.hasPlainNames (by decide)
  refine ⟨call, template, h.resolves, hfilled, hresult, fun haddresses => ?_⟩
  have hdot := ((addresses_filled_iff Sample.inMemory_documented h.resolves hnames
    (InsertTemplate.table_of_make h.made) (Sample.hasPlainNames_project h.entries) hfilled rfl).1
      haddresses).1
  rw [h.resource] at hdot
  exact hdot (by decide)

end Session
end RestSql
