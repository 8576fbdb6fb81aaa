import RestSql.Proofs.Accepted

/-!
# What DESCRIBE names

`SELECT *` takes its columns from the rows of the response of `list`, and DESCRIBE from the response of
`get`. Both look for an array that holds the rows, the one in a list and the other one in a single row.
-/

namespace RestSql

/-! ## Names bound to a call -/

theorem Call.resolve_ok {ps : Providers} {name : CallName} {action : String} {c c' : Context}
    {call : Call} (h : resolve ps name action c = (.ok call, c')) :
    call.name = name ∧ ps.named name.provider = .ok call.provider ∧
      (call.provider.resource name.service name.resource c).1 = .ok (call.service, call.resource) ∧
      methodOf call.resource name.method action = .ok call.method := by
  have h : (resolve ps name action c).1 = .ok call := by rw [h]
  unfold resolve at h
  split at h
  · cases h
  · obtain ⟨provider, _, hp, h⟩ := Run.bind_ok h
    obtain ⟨⟨service, resource⟩, _, hr, h⟩ := Run.bind_ok h
    obtain ⟨method, _, hm, h⟩ := Run.bind_ok h
    cases h
    have hnamed := Run.ofExcept_ok (congrArg Prod.fst hp)
    rw [hnamed] at hp
    cases hp
    exact ⟨rfl, hnamed, congrArg Prod.fst hr, Run.ofExcept_ok (congrArg Prod.fst hm)⟩

/-! ## Properties -/

namespace SchemaSet

/-- The schema whose properties a description lists: that of the items, if there are any. -/
def described (set : SchemaSet) (s : Schema) : Schema :=
  if s.isArray then (set.items? s).getD s else s

theorem names_describe (set : SchemaSet) (s : Schema) :
    (set.describe s).map ColumnInfo.name = Dict.keys (set.described s).properties := by
  have hname : ∀ e : String × SchemaHandle, (set.describeProperty e.1 e.2).name = e.1 := by
    intro e
    unfold describeProperty
    split <;> rfl
  unfold describe described Dict.keys
  rw [List.map_map]
  exact List.map_congr_left fun e _ => hname e

/-- The items of the first array in a schema, or of its property `key` if that is one. -/
def innerRow? (set : SchemaSet) (key : String) (s : Schema) : Option Schema :=
  (set.rowArray? s key).bind fun (_, array) => set.items? array

theorem resolve?_of_enter {set rest : SchemaSet} {h : SchemaHandle} {s : Schema}
    (he : set.enter? h = some (s, rest)) : set.resolve? h = some s := by
  cases h with
  | named name outputOnly => exact (find?_of_enter he).1
  | inline t =>
      cases he
      rfl

/-- The columns of a schema are properties of what is described, if it has no arrays of arrays. -/
theorem columns_subset_described {set : SchemaSet} {s : Schema}
    (h : s.isArray → ∀ items, set.items? s = some items → items.isArray = false) :
    ∀ column ∈ set.columns s, column ∈ Dict.keys (set.described s).properties := by
  have hown : ∀ t : Schema, ∀ column ∈ (t.properties.filter fun e => !set.isOutputOnly e.2).map Prod.fst,
      column ∈ Dict.keys t.properties := fun t column hc =>
    (List.filter_sublist.map Prod.fst).mem hc
  intro column hc
  unfold columns at hc
  cases hfuel : set.size + s.size with
  | zero =>
      rw [hfuel] at hc
      cases hc
  | succ fuel =>
      rw [hfuel, columnsWithin] at hc
      unfold described
      split at hc
      · next harray =>
        rw [if_pos harray]
        split at hc
        · cases hc
        · next items rest he =>
          obtain ⟨handle, hhandle, he⟩ := Option.bind_eq_some_iff.1 he
          have hitems : set.items? s = some items :=
            Option.bind_eq_some_iff.2 ⟨handle, hhandle, resolve?_of_enter he⟩
          rw [hitems]
          cases fuel with
          | zero => cases hc
          | succ fuel =>
              rw [columnsWithin, if_neg (by simp [h harray items hitems])] at hc
              exact hown items column hc
      · next harray =>
        rw [if_neg harray]
        exact hown s column hc

end SchemaSet

/-! ## Descriptions -/

namespace Analysis

theorem columnTexts_describe (columns : List String) (extended : Bool)
    (infos : List SchemaSet.ColumnInfo) :
    (ResultSet.mk columns (infos.map (describeRow extended))).columnTexts "name" =
      infos.map SchemaSet.ColumnInfo.name := by
  have hrow : ∀ i : SchemaSet.ColumnInfo,
      ResultSet.cellText (describeRow extended i) "name" = i.name := by
    intro i
    have hcell : (describeRow extended i).cell? "name" = some (.string i.name) :=
      Row.cell?_of_field (by
        cases extended <;> simp [describeRow, Row.ofTexts, Dict.ofEntries, Dict.find?_put])
    rw [ResultSet.cellText, hcell]
    rfl
  rw [ResultSet.columnTexts, List.map_map]
  exact List.map_congr_left fun i _ => hrow i

variable {ps : Providers} {current : String} {pageSize : Nat} {c c' : Context} {s : Sql.Select}
  {d : Sql.Describe} {t : Target} {shape : Shape}

/-- The row schema of a list whose items are of a named type. -/
theorem rowSchema_ok {call : Call} {schema : RowSchema} {key type : String} {flag : Bool}
    {array : Schema} (h : rowSchema call = .ok schema) (hlist : call.rowArray? = some (key, array))
    (hrow : array.items = some (.named type flag)) :
    Dict.find? call.service.schemas type = some schema.row := by
  unfold rowSchema at h
  split at h
  · cases h
  · rw [hlist] at h
    dsimp only at h
    split at h
    · cases h
    · next row hitems =>
      cases h
      rw [SchemaSet.items?, hrow] at hitems
      exact hitems

/-- A selection of the star has the columns of the row schema. -/
theorem projection_star {call : Call} {schema : RowSchema} {columns : Projection}
    (h : projection call schema [.star] = .ok columns) :
    columns.map (·.header) = call.service.schemas.columns schema.row := by
  cases h
  rw [List.map_map]
  exact List.map_id _

/-- A resource is described by its method `get`, where it has one. -/
theorem ofDescribe_get {p : Provider} {service : Service} {r : Resource} {get : Method}
    {type : String} {row : Schema} (hget : r.method? "get" = some get)
    (hresponse : get.response = some type) (hrow : Dict.find? service.schemas type = some row) :
    ∃ columns, ofDescribe p service r d =
      .ok (.query (.rows ⟨columns, (service.schemas.describe
        ((service.schemas.innerRow? p.itemsKey row).getD row)).map (describeRow d.extended)⟩) none) := by
  have hmethod : r.describeMethod = .ok get := by
    simp only [Resource.describeMethod, Resource.describers, List.filterMap_cons, hget,
      List.cons_append]
  have hschema : describedSchema p service get =
      .ok ((service.schemas.innerRow? p.itemsKey row).getD row) := by
    simp only [describedSchema, hresponse, Option.bind_some, hrow]
    rfl
  refine ⟨["name", "type"] ++ if d.extended then ["description"] else [], ?_⟩
  rw [ofDescribe, hmethod]
  show (describedSchema p service get).mapError Error.validation >>= _ = _
  rw [hschema]
  rfl

/-- What DESCRIBE names: the properties of what `get` returns, or of the items of an array in it. -/
theorem describe_ok {p : Provider} {service : Service} {r : Resource} {get : Method} {type : String}
    {row : Schema} (hp : ps.named (CallName.ofResource d.table current).provider = .ok p)
    (hr : (p.resource (CallName.ofResource d.table current).service
      (CallName.ofResource d.table current).resource c').1 = .ok (service, r))
    (hget : r.method? "get" = some get) (hresponse : get.response = some type)
    (hrow : Dict.find? service.schemas type = some row) :
    ∃ result, (analyze ps current pageSize (.describe d) c').1 = .ok (.query (.rows result) none) ∧
      result.columnTexts "name" = Dict.keys (service.schemas.described
        ((service.schemas.innerRow? p.itemsKey row).getD row)).properties := by
  obtain ⟨columns, hdescribed⟩ := ofDescribe_get (p := p) (d := d) hget hresponse hrow
  refine ⟨_, ?_, (columnTexts_describe columns d.extended _).trans (service.schemas.names_describe _)⟩
  show ((Run.ofExcept Error.resolution (ps.named _) >>= _ : Run Analysis) c').1 = _
  rw [hp]
  refine (Run.fst_bind_of_ok hr _).trans ?_
  show (Run.ofExcept id (ofDescribe p service r d) _).1 = _
  rw [hdescribed]
  rfl

/-- Let `get` of a resource return the type of the items that `list` returns. If `SELECT *` is accepted,
so is DESCRIBE, and it names all selected columns, unless the type has an array of known items, whose
properties are named instead. -/
theorem describes_selected (hselect : (analyze ps current pageSize (.select s) c).1 =
      .ok (.select t shape)) {label : Option String}
    (hsource : s.source = some (.table d.table label)) (hstar : s.items = [.star])
    (hsame : (t.call.provider.resource t.call.name.service t.call.name.resource c').1 =
      .ok (t.call.service, t.call.resource))
    {key type : String} {flag : Bool} {array : Schema} {get : Method}
    (hlist : t.call.rowArray? = some (key, array)) (hrow : array.items = some (.named type flag))
    (hget : t.call.resource.method? "get" = some get) (hresponse : get.response = some type) :
    let set := t.call.service.schemas
    ∃ row r, Dict.find? set type = some row ∧
      (analyze ps current pageSize (.describe d) c').1 = .ok (.query (.rows r) none) ∧
      r.columnTexts "name" = Dict.keys (set.described
        ((set.innerRow? t.call.provider.itemsKey row).getD row)).properties ∧
      (set.innerRow? t.call.provider.itemsKey row = none →
        (row.isArray → ∀ items, set.items? row = some items → items.isArray = false) →
        ∀ rows, ∀ column ∈ (shape.apply rows).columns, column ∈ r.columnTexts "name") := by
  intro set
  obtain ⟨_, name, _, _, ha, hname, hcall, hof⟩ := Accepted.table ⟨_, hselect, rfl⟩
  cases hname.symm.trans hsource
  cases ha.symm.trans hselect
  obtain ⟨hcallName, hprovider, -, -⟩ := Call.resolve_ok hcall
  obtain ⟨_, _, schema, _, ⟨⟩, -, -, hschema, hprojection, -⟩ := ofSelect_ok hof
  have htype := rowSchema_ok hschema hlist hrow
  rw [hcallName] at hsame
  obtain ⟨r, hr, hnames⟩ := describe_ok hprovider hsame hget hresponse htype
  refine ⟨schema.row, r, htype, hr, hnames, fun hinner hnested rows column hc => ?_⟩
  rw [hstar] at hprojection
  -- without an array in it, the row itself is described
  rw [hnames, hinner]
  refine SchemaSet.columns_subset_described hnested column ?_
  rw [← projection_star hprojection]
  exact hc

end Analysis

namespace Sample

def text : Handle Schema :=
  .inline (schema "" "string" [] none [])

def network (properties : List (String × Handle Schema)) : Schema :=
  schema "Network" "object" properties none []

def networkArray : Schema :=
  schema "" "array" [] (some (.named "Network" false)) []

def networkList : Schema :=
  schema "NetworkList" "object" [("items", .inline networkArray)] none []

def lister : Method :=
  (method "list" "networks" "GET" [] none (some "NetworkList")).2

def getter : Method :=
  (method "get" "networks/{network}" "GET" [parameter "network" .path true] none (some "Network")).2

def networks : Resource :=
  { id := "networks", name := "networks", title := "", description := ""
    methods := [("get", getter), ("list", lister)] }

/-- A service of networks with the given properties. -/
def serviceOf (properties : List (String × Handle Schema)) : Service :=
  { service with
    resources := [("networks", networks)]
    schemas := [("Network", network properties), ("NetworkList", networkList)] }

def providerOf (properties : List (String × Handle Schema)) : Provider :=
  .google (.loaded [entry] [("compute", serviceOf properties)]) (.fixed "token" "me") false

def listCall (properties : List (String × Handle Schema)) : Call :=
  { name := ⟨"google", "compute", "networks", ""⟩, provider := providerOf properties
    service := serviceOf properties, resource := networks, method := lister }

def select (items : List Sql.SelectItem) : Sql.Select :=
  { directives := ⟨[]⟩, items, source := some (.table table none), condition := none, orderBy := []
    limit := none }

section

variable (properties : List (String × Handle Schema))

theorem select_entry : (providerOf properties).select [entry] "compute" = .ok entry := by
  have hid : ServiceId.toSql "compute" = "compute" := by
    simp [ServiceId.toSql, Text.replace_singleton]
  have hentry : entry.id = "compute" := rfl
  simp [Provider.select, hid, hentry]


theorem resource_networks (c : Context) :
    (providerOf properties).resource "compute" "networks" c =
      (.ok (serviceOf properties, networks), c) := by
  show (((Run.ofExcept Error.resolution
    ((providerOf properties).select [entry] "compute") >>= _) >>= _ : Run _) c) = _
  rw [select_entry]
  rfl

theorem tableCall_listCall (c : Context) :
    Analysis.tableCall [("google", providerOf properties)] "google" table "select" c =
      (.ok (listCall properties), c) := by
  have hname : CallName.ofResource table "google" = ⟨"google", "compute", "networks", ""⟩ := rfl
  have hmethod : Call.methodOf networks "" "select" = .ok lister := by
    have haction : Text.lower "select" = "select" := by decide +kernel
    rw [Call.methodOf, if_pos rfl, Resource.methodForAction, haction]
    rfl
  rw [Analysis.tableCall, hname, Call.resolve, if_neg (by decide)]
  show (((providerOf properties).resource "compute" "networks" >>= _ : Run Call) c) = _
  rw [Run.bind_apply, resource_networks]
  show ((Run.ofExcept Error.resolution (Call.methodOf networks "" "select") >>= _ : Run Call) c) = _
  rw [hmethod]
  rfl

theorem rowArray?_listCall : (listCall properties).rowArray? = some ("items", networkArray) := rfl

theorem find?_network :
    Dict.find? (serviceOf properties).schemas "Network" = some (network properties) := rfl

/-- Networks can be listed whatever their properties are. -/
theorem exists_prepared :
    ∃ prepared, PreparedRequest.make (serviceOf properties) lister [] none = .ok prepared := by
  have haddress : (lister.address service.baseAddress Parameters.empty).isOk = true := by
    decide +kernel
  rw [PreparedRequest.make]
  change ∃ prepared, (lister.address service.baseAddress Parameters.empty >>= _) = Except.ok prepared
  rw [eq_ok_of_isOk haddress ""]
  exact ⟨_, rfl⟩

end

end Sample

namespace Analysis

section

variable (properties : List (String × Handle Schema)) (items : List Sql.SelectItem)

/-- The meaning of a query on networks with the given properties. -/
def selected : Except Error Analysis :=
  (analyze [("google", Sample.providerOf properties)] "google" 0 (.select (Sample.select items))
    Sample.context).1

/-- The meaning of a description of networks with the given properties. -/
def networksDescribed : Except Error Analysis :=
  (analyze [("google", Sample.providerOf properties)] "google" 0
    (.describe { extended := false, full := false, table := Sample.table }) Sample.context).1

/-- The schemas for the rows of a list of networks. -/
def networkRows : RowSchema :=
  { row := Sample.network properties, response := Sample.networkList, itemsKey := some "items" }

theorem rowSchema_listCall : rowSchema (Sample.listCall properties) = .ok (networkRows properties) := rfl

theorem selected_ok {items : List Sql.SelectItem} {columns : Projection}
    (h : projection (Sample.listCall properties) (networkRows properties) items = .ok columns) :
    ∃ prepared, selected properties items =
      .ok (.select ⟨Sample.listCall properties, prepared, some "items"⟩ ⟨columns, none, [], none⟩) := by
  obtain ⟨prepared, hprepared⟩ := Sample.exists_prepared properties
  have hof : ofSelect (Sample.listCall properties) 0 (Sample.select items) =
      .ok (.select ⟨Sample.listCall properties, prepared, some "items"⟩ ⟨columns, none, [], none⟩) := by
    refine bind_eq_ok.2 ⟨_, mapError_eq_ok.2 (rowSchema_listCall properties), ?_⟩
    refine bind_eq_ok.2 ⟨columns, h, bind_eq_ok.2 ⟨(prepared, none), mapError_eq_ok.2 ?_, rfl⟩⟩
    refine bind_eq_ok.2 ⟨([], none), rfl, bind_eq_ok.2 ⟨(), rfl, bind_eq_ok.2 ⟨(), rfl, ?_⟩⟩⟩
    exact bind_eq_ok.2 ⟨prepared, hprepared, rfl⟩
  refine ⟨prepared, ?_⟩
  show ((tableCall _ "google" Sample.table "select" >>= _ : Run Analysis) Sample.context).1 = _
  rw [Run.bind_apply, Sample.tableCall_listCall]
  show (Run.ofExcept id (ofSelect _ 0 (Sample.select items)) _).1 = _
  rw [hof]
  rfl

theorem networksDescribed_ok :
    ∃ r, networksDescribed properties = .ok (.query (.rows r) none) ∧
      r.columnTexts "name" = Dict.keys ((Sample.serviceOf properties).schemas.described
        (((Sample.serviceOf properties).schemas.innerRow? "items" (Sample.network properties)).getD
          (Sample.network properties))).properties := by
  have hp : Providers.named [("google", Sample.providerOf properties)]
      (CallName.ofResource Sample.table "google").provider = .ok (Sample.providerOf properties) := rfl
  have hr : ((Sample.providerOf properties).resource (CallName.ofResource Sample.table "google").service
      (CallName.ofResource Sample.table "google").resource Sample.context).1 =
        .ok (Sample.serviceOf properties, Sample.networks) :=
    congrArg Prod.fst (Sample.resource_networks properties Sample.context)
  have hget : Sample.networks.method? "get" = some Sample.getter := rfl
  obtain ⟨r, hr, hnames⟩ := describe_ok (d := { extended := false, full := false, table := Sample.table })
    hp hr hget rfl (Sample.find?_network properties)
  exact ⟨r, hr, hnames⟩

end

theorem describes_selected_name :
    let properties := [("name", Sample.text)]
    ∃ t shape r, selected properties [.star] = .ok (.select t shape) ∧
      networksDescribed properties = .ok (.query (.rows r) none) ∧
      (shape.apply []).columns = ["name"] ∧ "name" ∈ r.columnTexts "name" := by
  intro properties
  have hprojection : projection (Sample.listCall properties) (networkRows properties) [.star] =
      .ok [.named "name"] := rfl
  obtain ⟨prepared, hs⟩ := selected_ok properties hprojection
  have hget : Sample.networks.method? "get" = some Sample.getter := rfl
  obtain ⟨row, r, hrow, hr, -, hall⟩ := describes_selected
    (d := { extended := false, full := false, table := Sample.table }) hs rfl rfl
    (congrArg Prod.fst (Sample.resource_networks properties Sample.context))
    (Sample.rowArray?_listCall properties) rfl hget rfl
  refine ⟨_, _, r, hs, hr, rfl, ?_⟩
  cases hrow.symm.trans (Sample.find?_network properties)
  have hinner : (Sample.serviceOf properties).schemas.innerRow? "items" (Sample.network properties) =
      none := rfl
  have hkind : (Sample.network properties).isArray = false := by decide
  exact hall hinner (fun h => absurd h (by rw [hkind]; decide)) [] "name" (List.mem_singleton_self _)

/-- Networks have a name and texts. Both are selected by the star, and neither is described, for texts
have no properties. -/
theorem not_describes_selected :
    let texts := .inline (Sample.schema "" "array" [] (some Sample.text) [])
    let properties := [("name", Sample.text), ("subnetworks", texts)]
    ∃ prepared shape r,
      selected properties [.star] =
        .ok (.select ⟨Sample.listCall properties, prepared, some "items"⟩ shape) ∧
      networksDescribed properties = .ok (.query (.rows r) none) ∧
      (Sample.listCall properties).rowArray? = some ("items", Sample.networkArray) ∧
      Sample.networkArray.items = some (.named "Network" false) ∧
      (Sample.networks.method? "get").bind (·.response) = some "Network" ∧
      (shape.apply []).columns = ["name", "subnetworks"] ∧ r.columnTexts "name" = [] := by
  intro texts properties
  have hprojection : projection (Sample.listCall properties) (networkRows properties) [.star] =
      .ok [.named "name", .named "subnetworks"] := rfl
  obtain ⟨prepared, hs⟩ := selected_ok properties hprojection
  obtain ⟨r, hr, hnames⟩ := networksDescribed_ok properties
  have hdescribed : Dict.keys ((Sample.serviceOf properties).schemas.described
      (((Sample.serviceOf properties).schemas.innerRow? "items" (Sample.network properties)).getD
        (Sample.network properties))).properties = [] := rfl
  have hget : (Sample.networks.method? "get").bind (·.response) = some "Network" := rfl
  exact ⟨prepared, _, r, hs, hr, Sample.rowArray?_listCall properties, rfl, hget, rfl,
    hnames.trans hdescribed⟩

end Analysis
end RestSql
