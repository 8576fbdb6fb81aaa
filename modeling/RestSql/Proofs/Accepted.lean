import RestSql.Proofs.Steady
import RestSql.Proofs.Steps

/-!
# What acceptance says

A statement that is accepted has passed each check on the way. The theorems here take an accepted
meaning apart, first for each kind of statement that sends a request and then for all statements: a
request is made of what its statement supplies (`Analysis.Accepted.made`).
-/

namespace RestSql

/-! ## Steps that pass -/

namespace Run

variable {ε α β : Type} {c : Context}

theorem bind_ok {x : Run α} {f : α → Run β} {b : β} (h : ((x >>= f) c).1 = .ok b) :
    ∃ a c', x c = (.ok a, c') ∧ (f a c').1 = .ok b := by
  rw [bind_apply] at h
  rcases hx : x c with ⟨e | a, c'⟩
  · rw [hx] at h
    cases h
  · rw [hx] at h
    exact ⟨a, c', rfl, h⟩

theorem ofExcept_ok {wrap : ε → Error} {x : Except ε α} {a : α}
    (h : (ofExcept wrap x c).1 = .ok a) : x = .ok a := by
  cases x with
  | error e => cases h
  | ok b => cases h; rfl

end Run

/-! ## Prepared requests -/

/-- A prepared request carries the values at their places: its address holds those of the path and the
query, and its body is made of the fields of the body, or else of the payload. -/
theorem PreparedRequest.make_ok {s : Service} {m : Method} {values : Fields} {payload : Option Fields}
    {r : PreparedRequest} (h : make s m values payload = .ok r) :
    r.parameters = Parameters.split values m s.schemas (m.request.bind (Dict.find? s.schemas))
        (m.response.bind (Dict.find? s.schemas)) ∧
      m.address s.baseAddress r.parameters = .ok r.request.url ∧
      r.request.body = (r.parameters.body?.orElse fun _ => payload.map Json.object).map Json.write := by
  simp only [make, bind_eq_ok, pure_eq_ok] at h
  obtain ⟨url, hurl, rfl⟩ := h
  refine ⟨rfl, ?_, ?_⟩
  · dsimp only
    split <;> exact hurl
  · dsimp only
    split
    · next hb => rw [hb]; rfl
    · next hb => rw [hb]; rfl

namespace Analysis

/-! ## The kinds of statements that send a request -/

theorem condition_ok {c : Call} {schema : RowSchema} {e : Sql.Expr} {values : Fields}
    {filter : Option Filter} (h : condition c schema (some e) = .ok (values, filter)) :
    ∃ f, Filter.ofRows (fun name => (c.method.parameter? name).isSome) e = .ok f ∧
      filter = some f ∧ values = Dict.ofEntries (equalities e) := by
  simp only [condition, bind_eq_ok, pure_eq_ok, mapError_eq_ok, Prod.mk.injEq] at h
  obtain ⟨-, -, f, hf, rfl, rfl⟩ := h
  exact ⟨f, hf, rfl, rfl⟩

theorem ofSelect_ok {c : Call} {pageSize : Nat} {s : Sql.Select} {a : Analysis}
    (h : ofSelect c pageSize s = .ok a) :
    ∃ t shape schema values, a = .select t shape ∧ t.call = c ∧
      t.itemsKey = RowSchema.itemsKey schema ∧ rowSchema c = .ok schema ∧
      projection c schema s.items = .ok shape.projection ∧
      condition c schema s.condition = .ok (values, shape.filter) ∧
      checkOrder c schema shape.projection s.orderBy = .ok () ∧
      PreparedRequest.make c.service c.method (withPageSize c.method pageSize values) none =
        .ok t.prepared := by
  simp only [ofSelect, bind_eq_ok, pure_eq_ok, mapError_eq_ok, Prod.exists, Prod.mk.injEq] at h
  obtain ⟨schema, hs, columns, hcolumns, prepared, filter,
    ⟨values, _, hc, -, -, ⟨⟩, ho, _, hp, rfl, rfl⟩, rfl⟩ := h
  exact ⟨_, _, schema, values, rfl, rfl, rfl, hs, hcolumns, hc, ho, hp⟩

theorem ofDelete_ok {c : Call} {s : Sql.Delete} {a : Analysis} (h : ofDelete c s = .ok a) :
    ∃ values prepared, a = mutation? .delete c prepared s.directives ∧
      deletedValues s.condition = .ok values ∧
      PreparedRequest.make c.service c.method values none = .ok prepared := by
  simp only [ofDelete, bind_eq_ok, pure_eq_ok] at h
  obtain ⟨values, hv, -, -, -, -, prepared, hp, rfl⟩ := h
  exact ⟨values, prepared, rfl, hv, hp⟩

theorem ofInsert_eq_ok {c : Call} {s : Sql.Insert} {a : Analysis} :
    ofInsert c s = .ok a ↔ ∃ row values prepared, s.rows = [row] ∧ s.columns.length = row.length ∧
      sentValues c "INSERT" (s.columns.zip row) = .ok values ∧
      checkRequired c.method (Dict.keys (Dict.ofEntries values)) = .ok () ∧
      PreparedRequest.make c.service c.method (Dict.ofEntries values) none = .ok prepared ∧
      checkBody c prepared = .ok () ∧ a = mutation? .insert c prepared s.directives := by
  unfold ofInsert
  constructor
  · intro h
    split at h
    · next row hrow =>
      simp only [guard_eq_ok, bind_eq_ok, pure_eq_ok] at h
      obtain ⟨hlength, values, hv, ⟨⟩, hrequired, prepared, hp, ⟨⟩, hb, rfl⟩ := h
      exact ⟨row, values, prepared, hrow, Decidable.of_not_not hlength, hv, hrequired, hp, hb, rfl⟩
    · cases h
  · rintro ⟨row, values, prepared, hrow, hlength, hv, hrequired, hp, hb, rfl⟩
    rw [hrow]
    simp only [guard_eq_ok, bind_eq_ok, pure_eq_ok]
    exact ⟨(· hlength), values, hv, ⟨⟩, hrequired, prepared, hp, ⟨⟩, hb, rfl⟩

theorem ofInsert_ok {c : Call} {s : Sql.Insert} {a : Analysis} (h : ofInsert c s = .ok a) :
    ∃ row values prepared, s.rows = [row] ∧ a = mutation? .insert c prepared s.directives ∧
      sentValues c "INSERT" (s.columns.zip row) = .ok values ∧
      PreparedRequest.make c.service c.method (Dict.ofEntries values) none = .ok prepared ∧
      checkBody c prepared = .ok () := by
  obtain ⟨row, values, prepared, hrow, -, hv, -, hp, hb, ha⟩ := ofInsert_eq_ok.1 h
  exact ⟨row, values, prepared, hrow, ha, hv, hp, hb⟩

theorem ofExec_ok {c : Call} {s : Sql.Exec} {a : Analysis} (h : ofExec c s = .ok a) :
    ∃ values body prepared, a = mutation? .exec c prepared s.directives ∧
      sentValues c "EXEC" s.bindings = .ok values ∧ payload c s.payload = .ok body ∧
      PreparedRequest.make c.service c.method (Dict.ofEntries values) body = .ok prepared ∧
      (body = none → checkBody c prepared = .ok ()) := by
  simp only [ofExec, bind_eq_ok, pure_eq_ok, mapError_eq_ok] at h
  obtain ⟨_, ⟨values, hv, -, -, rfl⟩, body, hbody, prepared, hp, h⟩ := h
  cases body with
  | none =>
      obtain ⟨⟨⟩, hb, h⟩ := bind_eq_ok.1 h
      cases h
      exact ⟨values, none, prepared, rfl, hv, hbody, hp, fun _ => hb⟩
  | some body =>
      cases h
      exact ⟨values, some body, prepared, rfl, hv, hbody, hp, nofun⟩

/-! ## Statements -/

/-- The call with its request, if the statement means one. -/
def target? : Analysis → Option Target
  | select t _ => some t
  | mutation _ t _ => some t
  | _ => none

/-- The statement is accepted, and it means the call with the request. -/
def Accepted (ps : Providers) (current : String) (pageSize : Nat) (s : Sql.Statement) (c : Context)
    (t : Target) : Prop :=
  ∃ a, (analyze ps current pageSize s c).1 = .ok a ∧ a.target? = some t

/-- The call of an accepted statement. -/
def accepted? (ps : Providers) (current : String) (pageSize : Nat) (s : Sql.Statement)
    (c : Context) : Option Target :=
  (analyze ps current pageSize s c).1.toOption.bind target?

/-- The parts of a condition that are joined by AND, in the order in which they are written. -/
def conjuncts : Sql.Expr → List Sql.Expr
  | .and l r => conjuncts l ++ conjuncts r
  | e => [e]

/-- The column and the literal of an equation. -/
def equation? : Sql.Expr → Option (String × Json)
  | .comparison (.column _ name) .eq (.literal l) => some (name, l.toJson)
  | .comparison (.literal l) .eq (.column _ name) => some (name, l.toJson)
  | _ => none

/-- The equations that are joined by AND. -/
def equations (e : Sql.Expr) : List (String × Json) :=
  (conjuncts e).filterMap equation?

/-- The literals among the values. -/
def literalValues (values : List (String × Sql.Expr)) : List (String × Json) :=
  values.filterMap fun
    | (name, .literal l) => some (name, l.toJson)
    | _ => none

/-- The columns and variables of a statement that are given a literal, in the order in which they are
written. -/
def supplied : Sql.Statement → List (String × Json)
  | .select s => (s.condition.map equations).getD []
  | .insert s => literalValues (s.columns.zip s.rows.flatten)
  | .delete s => (s.condition.map equations).getD []
  | .exec s => literalValues s.bindings
  | _ => []

theorem equalities_eq_equations (e : Sql.Expr) : equalities e = equations e := by
  fun_induction equalities e with
  | case1 l r hl hr =>
      rw [hl, hr, equations, equations, equations, conjuncts, List.filterMap_append]
  | case2 | case3 => rfl
  | case4 e hand hleft hright =>
      have hc : conjuncts e = [e] := by
        unfold conjuncts
        split
        · exact absurd rfl (hand _ _)
        · rfl
      have he : equation? e = none := by
        unfold equation?
        split
        · exact absurd rfl (hleft _ _ _)
        · exact absurd rfl (hright _ _ _)
        · rfl
      rw [equations, hc, List.filterMap_cons, he]
      rfl

theorem sentValues_ok {c : Call} {place : String} {entries : List (String × Sql.Expr)}
    {values : List (String × Json)} (h : sentValues c place entries = .ok values) :
    values = literalValues entries := by
  induction entries generalizing values with
  | nil => cases h; rfl
  | cons entry rest ih =>
      obtain ⟨column, e⟩ := entry
      simp only [sentValues, bind_eq_ok, pure_eq_ok] at h
      obtain ⟨-, -, v, hv, others, ho, rfl⟩ := h
      cases e with
      | literal l =>
          cases hv
          rw [ih ho]
          rfl
      | _ => cases hv

section

variable {ps : Providers} {current : String} {pageSize : Nat} {c : Context} {t : Target}

theorem accepted_of_eq_some {s : Sql.Statement}
    (h : accepted? ps current pageSize s c = some t) : Accepted ps current pageSize s c t := by
  obtain ⟨a, ha, ht⟩ := Option.bind_eq_some_iff.1 h
  refine ⟨a, ?_, ht⟩
  cases hr : (analyze ps current pageSize s c).1 with
  | error e =>
      rw [hr] at ha
      cases ha
  | ok b =>
      rw [hr] at ha
      cases ha
      rfl

/-- An accepted query that means a call fetches the rows of one table. -/
theorem Accepted.table {s : Sql.Select} (h : Accepted ps current pageSize (.select s) c t) :
    ∃ shape name label c',
      (analyze ps current pageSize (.select s) c).1 = .ok (.select t shape) ∧
      s.source = some (.table name label) ∧
      tableCall ps current name "select" c = (.ok t.call, c') ∧
      ofSelect t.call pageSize s = .ok (.select t shape) := by
  obtain ⟨a, ha, ht⟩ := h
  have h := ha
  simp only [analyze, analyzeSelect] at h
  cases hs : s.source with
  | none =>
      rw [hs] at h
      obtain ⟨_, -, h⟩ := bind_eq_ok.1 (Run.ofExcept_ok h)
      cases h
      cases ht
  | some source =>
      rw [hs] at h
      cases source with
      | join l r kind on =>
          cases h
          cases ht
      | table name label =>
          obtain ⟨call, c', hcall, h⟩ := Run.bind_ok h
          have hselect := Run.ofExcept_ok h
          obtain ⟨_, shape, _, _, rfl, rfl, -⟩ := ofSelect_ok hselect
          cases ht
          exact ⟨shape, name, label, c', ha, rfl, hcall, hselect⟩

/-- The request of an accepted query is made of the values of its condition. -/
theorem Accepted.select {s : Sql.Select} (h : Accepted ps current pageSize (.select s) c t) :
    ∃ schema shape values,
      (analyze ps current pageSize (.select s) c).1 = .ok (.select t shape) ∧
      condition t.call schema s.condition = .ok (values, shape.filter) ∧
      PreparedRequest.make t.call.service t.call.method
        (withPageSize t.call.method pageSize values) none = .ok t.prepared := by
  obtain ⟨shape, _, _, _, ha, -, -, h⟩ := h.table
  obtain ⟨_, _, schema, values, ⟨⟩, -, -, -, -, hc, -, hp⟩ := ofSelect_ok h
  exact ⟨schema, shape, values, ha, hc, hp⟩

theorem Accepted.insert {s : Sql.Insert} (h : Accepted ps current pageSize (.insert s) c t) :
    ∃ row values, s.rows = [row] ∧
      sentValues t.call "INSERT" (s.columns.zip row) = .ok values ∧
      PreparedRequest.make t.call.service t.call.method (Dict.ofEntries values) none =
        .ok t.prepared ∧
      checkBody t.call t.prepared = .ok () := by
  obtain ⟨a, ha, ht⟩ := h
  obtain ⟨call, _, -, h⟩ := Run.bind_ok ha
  obtain ⟨row, values, prepared, hrow, rfl, hv, hp, hb⟩ := ofInsert_ok (Run.ofExcept_ok h)
  cases ht
  exact ⟨row, values, hrow, hv, hp, hb⟩

theorem Accepted.delete {s : Sql.Delete} (h : Accepted ps current pageSize (.delete s) c t) :
    ∃ values, deletedValues s.condition = .ok values ∧
      PreparedRequest.make t.call.service t.call.method values none = .ok t.prepared := by
  obtain ⟨a, ha, ht⟩ := h
  obtain ⟨call, _, -, h⟩ := Run.bind_ok ha
  obtain ⟨values, prepared, rfl, hv, hp⟩ := ofDelete_ok (Run.ofExcept_ok h)
  cases ht
  exact ⟨values, hv, hp⟩

theorem Accepted.exec {s : Sql.Exec} (h : Accepted ps current pageSize (.exec s) c t) :
    ∃ values body, sentValues t.call "EXEC" s.bindings = .ok values ∧
      payload t.call s.payload = .ok body ∧
      PreparedRequest.make t.call.service t.call.method (Dict.ofEntries values) body =
        .ok t.prepared ∧
      (body = none → checkBody t.call t.prepared = .ok ()) := by
  obtain ⟨a, ha, ht⟩ := h
  simp only [analyze, analyzeExec] at ha
  split at ha
  · cases ha
  · obtain ⟨call, _, -, h⟩ := Run.bind_ok ha
    obtain ⟨values, body, prepared, rfl, hv, hbody, hp, hb⟩ := ofExec_ok (Run.ofExcept_ok h)
    cases ht
    exact ⟨values, body, hv, hbody, hp, hb⟩

/-- Listings and descriptions send no request. -/
theorem not_accepted_show {s : Sql.Show} : ¬Accepted ps current pageSize (.show s) c t := by
  rintro ⟨a, ha, ht⟩
  simp only [analyze, analyzeShow] at ha
  split at ha
  · obtain ⟨call, _, -, h⟩ := Run.bind_ok ha
    obtain ⟨_, -, h⟩ := bind_eq_ok.1 (Run.ofExcept_ok h)
    cases h
    cases ht
  · obtain ⟨_, -, h⟩ := bind_eq_ok.1 (Run.ofExcept_ok ha)
    obtain ⟨_, -, h⟩ := bind_eq_ok.1 h
    cases h
    cases ht

theorem not_accepted_describe {d : Sql.Describe} :
    ¬Accepted ps current pageSize (.describe d) c t := by
  rintro ⟨a, ha, ht⟩
  obtain ⟨p, _, -, h⟩ := Run.bind_ok ha
  obtain ⟨⟨service, resource⟩, _, -, h⟩ := Run.bind_ok h
  obtain ⟨_, -, h⟩ := bind_eq_ok.1 (Run.ofExcept_ok h)
  obtain ⟨_, -, h⟩ := bind_eq_ok.1 h
  cases h
  cases ht

theorem condition_values {call : Call} {schema : RowSchema} {e : Option Sql.Expr} {values : Fields}
    {filter : Option Filter} (h : condition call schema e = .ok (values, filter)) :
    values = Dict.ofEntries ((e.map equations).getD []) := by
  cases e with
  | none =>
      cases h
      rfl
  | some e =>
      obtain ⟨_, -, -, rfl⟩ := condition_ok h
      rw [equalities_eq_equations]
      rfl

theorem deletedValues_ok {e : Option Sql.Expr} {values : Fields} (h : deletedValues e = .ok values) :
    values = Dict.ofEntries ((e.map equations).getD []) := by
  cases e with
  | none =>
      cases h
      rfl
  | some e =>
      simp only [deletedValues] at h
      split at h
      · cases h
        rw [equalities_eq_equations]
        rfl
      · cases h

/-- The request of an accepted statement is made of what the statement supplies, of the page size where
the statement gives none, and of the payload of an EXEC statement. -/
theorem Accepted.made {s : Sql.Statement} (h : Accepted ps current pageSize s c t) :
    ∃ values body,
      PreparedRequest.make t.call.service t.call.method values body = .ok t.prepared ∧
      (values = Dict.ofEntries (supplied s) ∨
        values = withPageSize t.call.method pageSize (Dict.ofEntries (supplied s))) ∧
      (body = none ∨ ∃ e, s = .exec e ∧ payload t.call e.payload = .ok body) := by
  cases s with
  | select s =>
      obtain ⟨_, _, values, -, hc, hp⟩ := h.select
      cases condition_values hc
      exact ⟨_, none, hp, .inr rfl, .inl rfl⟩
  | insert s =>
      obtain ⟨row, values, hrow, hv, hp, -⟩ := h.insert
      cases sentValues_ok hv
      refine ⟨_, none, hp, .inl ?_, .inl rfl⟩
      rw [supplied, hrow, List.flatten_singleton]
  | delete s =>
      obtain ⟨values, hv, hp⟩ := h.delete
      cases deletedValues_ok hv
      exact ⟨_, none, hp, .inl rfl, .inl rfl⟩
  | exec s =>
      obtain ⟨values, body, hv, hbody, hp, -⟩ := h.exec
      cases sentValues_ok hv
      exact ⟨_, body, hp, .inl rfl, .inr ⟨s, rfl, hbody⟩⟩
  | «show» s => exact absurd h not_accepted_show
  | describe d => exact absurd h not_accepted_describe
  | auth | revoke | use =>
      obtain ⟨a, ha, ht⟩ := h
      obtain ⟨_, _, -, h⟩ := Run.bind_ok ha
      cases h
      cases ht
  | sleep e =>
      obtain ⟨a, ha, ht⟩ := h
      have h := Run.ofExcept_ok ha
      unfold ofSleep at h
      split at h
      · split at h
        · cases h
        · cases h
          cases ht
      · cases h
  | unsupported kind =>
      obtain ⟨a, ha, ht⟩ := h
      cases ha

end

end Analysis

/-! ## A provider with one resource -/

namespace Sample

def parameter (name : String) (place : ParameterPlace) (required : Bool) : String × Parameter :=
  (name, { name, kind := "string", format := "", place, required, description := "" })

def method (name path verb : String) (parameters : Dict Parameter)
    (request response : Option String) : String × Method :=
  (name, { id := "compute.networks." ++ name, name, path, verb, description := "", parameters
           parameterOrder := [], request, response })

/-- The methods on networks. -/
def methods : Dict Method :=
  [method "delete" "projects/{project}/networks" "DELETE"
      [parameter "network" .query true, parameter "project" .path true] none none,
    method "insert" "projects/{project}/networks" "POST"
      [parameter "project" .path true] (some "Network") none,
    method "list" "projects/{project}/networks" "GET"
      [parameter "maxResults" .query false, parameter "project" .path true] none
      (some "NetworkList")]

def schema (id kind : String) (properties : List (String × Handle Schema))
    (items : Option (Handle Schema)) (required : List String) : Schema :=
  { id, kind, format := "", description := "", properties, items, additional := none
    outputOnly := false, required }

/-- Networks, whose name is needed to insert one, and lists of them. -/
def schemas : SchemaSet :=
  [("Network", schema "Network" "object"
      [("mtu", .inline (schema "" "integer" [] none [])),
        ("name", .inline (schema "" "string" [] none ["compute.networks.insert"]))] none []),
    ("NetworkList", schema "NetworkList" "object"
      [("items", .inline (schema "" "array" [] (some (.named "Network" false)) []))] none [])]

def entry : ServiceEntry :=
  { id := "compute", name := "compute", title := "", description := "", version := "v1"
    preferred := true, documentAddress := "", documentation := "" }

def service : Service :=
  { entry, baseAddress := "https://compute.test/"
    resources := [("networks", { id := "networks", name := "networks", title := ""
                                 description := "", methods })]
    schemas }

def providers : Providers :=
  [("google", .google (.loaded [entry] [("compute", service)]) (.fixed "token" "me") false)]

def context : Context := .initial .unreachable "google"

def table : Sql.Name := ⟨["google", "compute", "networks"]⟩

/-- The column equals the text. -/
def equals (column value : String) : Sql.Expr :=
  .comparison (.column none column) .eq (.literal (.string value))

end Sample
end RestSql
