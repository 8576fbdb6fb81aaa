import RestSql.Proofs.Conformance
import RestSql.Proofs.Descriptions

/-!
# Columns that are accepted and columns that are read

A column of a query is accepted if a search finds it below the schema of the rows or of the response. The
search enters arrays and looks below every property. What is read of a row is only what its own keys lead
to.
-/

namespace RestSql

/-! ## What a search finds -/

namespace SchemaSet

/-- Where a path may lead from a schema: into the items of an array, to a property, along a property that
the path starts with, and with the whole path below any property. -/
inductive Reaches (set : SchemaSet) : Schema → String → Schema → Prop
  | here (s : Schema) : Reaches set s "" s
  | items {s items found : Schema} {path : String} (harray : s.isArray = true)
      (hitems : set.items? s = some items) (h : Reaches set items (itemPath path) found) :
      Reaches set s path found
  | property {s found : Schema} {path : String} (h : set.property? s path = some found) :
      Reaches set s path found
  | along {s child found : Schema} {key path rest : String} {handle : SchemaHandle}
      (hkey : (key, handle) ∈ s.properties) (hpath : below? key path = some rest)
      (hchild : set.resolve? handle = some child) (h : Reaches set child rest found) :
      Reaches set s path found
  | deeper {s child found : Schema} {key path : String} {handle : SchemaHandle}
      (hkey : (key, handle) ∈ s.properties) (hchild : set.resolve? handle = some child)
      (h : Reaches set child path found) : Reaches set s path found

/-- The schemas that are left open are schemas of the set. -/
def Within (open_ set : SchemaSet) : Prop :=
  ∀ name s, Dict.find? open_ name = some s → Dict.find? set name = some s

variable {set : SchemaSet}

theorem Within.drop {open_ : SchemaSet} (h : open_.Within set) (name : String) :
    Within (Dict.drop open_ name) set := by
  intro other s hs
  rw [Dict.find?_drop] at hs
  split at hs
  · cases hs
  · exact h other s hs

theorem Within.enter {open_ rest : SchemaSet} (hopen : open_.Within set) {h : SchemaHandle}
    {s : Schema} (he : open_.enter? h = some (s, rest)) :
    set.resolve? h = some s ∧ rest.Within set := by
  cases h with
  | named name outputOnly =>
      obtain ⟨hfind, rfl⟩ := find?_of_enter he
      exact ⟨hopen name s hfind, hopen.drop name⟩
  | inline t =>
      cases he
      exact ⟨rfl, hopen⟩

theorem within_openFrom (set : SchemaSet) (root : Schema) : (set.openFrom root).Within set := by
  unfold openFrom
  have hset : set.Within set := fun _ _ h => h
  split
  · exact hset
  · exact hset.drop root.id

/-- The search finds only what `found` allows, and leaves only schemas of the set open. -/
def Sound (set : SchemaSet) (found : Schema → Prop) (result : Option Field × SchemaSet) : Prop :=
  result.2.Within set ∧ ∀ f, result.1 = some f → found f.schema

theorem sound_firstOf {search : SchemaSet → Schema → String → Option Field × SchemaSet}
    (hsearch : ∀ open_ s path, open_.Within set →
      set.Sound (set.Reaches s path) (search open_ s path)) {found : Schema → Prop}
    {branches : List (SchemaHandle × String)}
    (hbranches : ∀ b ∈ branches, ∀ child f, set.resolve? b.1 = some child →
      set.Reaches child b.2 f → found f)
    {open_ : SchemaSet} (hopen : open_.Within set) :
    set.Sound found (firstOf search open_ branches) := by
  induction branches generalizing open_ with
  | nil => exact ⟨hopen, nofun⟩
  | cons b more ih =>
      obtain ⟨h, path⟩ := b
      have hmore := fun b hb => hbranches b (List.mem_cons_of_mem _ hb)
      rw [firstOf]
      split
      · exact ih hmore hopen
      · next s rest he =>
        obtain ⟨hs, hrest⟩ := hopen.enter he
        obtain ⟨hafter, hreaches⟩ := hsearch rest s path hrest
        split
        · next f after hf =>
          rw [hf] at hafter hreaches
          refine ⟨hafter, fun f' hf' => ?_⟩
          cases hf'
          exact hbranches _ List.mem_cons_self s _ hs (hreaches f rfl)
        · next after hf =>
          rw [hf] at hafter
          exact ih hmore hafter

theorem reaches_of_mem_branches {s child found : Schema} {path : String}
    {b : SchemaHandle × String} (hb : b ∈ branches s path) (hchild : set.resolve? b.1 = some child)
    (h : set.Reaches child b.2 found) : set.Reaches s path found := by
  rcases List.mem_append.1 hb with hb | hb
  · obtain ⟨⟨key, handle⟩, hkey, hb⟩ := List.mem_filterMap.1 hb
    obtain ⟨rest, hrest, rfl⟩ := Option.map_eq_some_iff.1 hb
    exact .along hkey hrest hchild h
  · obtain ⟨⟨key, handle⟩, hkey, rfl⟩ := List.mem_map.1 hb
    exact .deeper hkey hchild h

theorem sound_findWithin (fuel : Nat) {open_ : SchemaSet} (hopen : open_.Within set) (s : Schema)
    (path : String) : set.Sound (set.Reaches s path) (findWithin set fuel open_ s path) := by
  -- what one branch leaves open is all that the next one may enter, so it is part of what is shown
  induction fuel generalizing open_ s path with
  | zero => exact ⟨hopen, nofun⟩
  | succ fuel ih =>
      rw [findWithin]
      split
      · next hpath =>
        subst hpath
        refine ⟨hopen, fun f hf => ?_⟩
        cases hf
        exact .here s
      · split
        · next harray =>
          split
          · exact ⟨hopen, nofun⟩
          · next items rest he =>
            obtain ⟨handle, hhandle, he⟩ := Option.bind_eq_some_iff.1 he
            obtain ⟨hitems, hrest⟩ := hopen.enter he
            have hitems : set.items? s = some items :=
              Option.bind_eq_some_iff.2 ⟨handle, hhandle, hitems⟩
            obtain ⟨hafter, hreaches⟩ := ih hrest items (itemPath path)
            exact ⟨hafter, fun f hf => .items harray hitems (hreaches f hf)⟩
        · split
          · next handle hhandle =>
            refine ⟨hopen, fun f hf => ?_⟩
            obtain ⟨t, ht, rfl⟩ := Option.map_eq_some_iff.1 hf
            exact .property (Option.bind_eq_some_iff.2 ⟨handle, hhandle, ht⟩)
          · exact sound_firstOf (fun open_ s path hopen => ih hopen s path)
              (fun b hb child f hchild h => reaches_of_mem_branches hb hchild h) hopen

theorem reaches_of_find? {root : Schema} {path : String} {f : Field}
    (h : set.find? root path = some f) : set.Reaches root path f.schema :=
  (sound_findWithin _ (within_openFrom set root) root path).2 f h

/-- A key is found below a property that the path does not name. -/
example :
    let inner := .inline (Sample.schema "" "object" [("b", Sample.text)] none [])
    (find? [] (Sample.schema "" "object" [("a", inner)] none []) "b").isSome = true := by
  decide +kernel

end SchemaSet

/-! ## Columns that a query names -/

namespace Analysis

/-- The column is named in the select list, in the condition, or to sort by if it is no header. -/
inductive Names (s : Sql.Select) (p : Projection) : String → Prop
  | item {qualifier label : Option String} {column : String}
      (h : .expr (.column qualifier column) label ∈ s.items) : Names s p column
  | condition {e : Sql.Expr} {column : String} (he : s.condition = some e)
      (h : column ∈ e.columnNames) : Names s p column
  | order {o : Sql.OrderBy} (ho : o ∈ s.orderBy) (h : p.any (·.header == o.column) = false) :
      Names s p o.column

variable {call : Call} {schema : RowSchema}

theorem reaches_of_checkResponseColumn {row response : Schema} {column : String}
    (h : checkResponseColumn call row response column = .ok ())
    (hparameter : call.method.parameter? column = none) :
    ∃ found, call.service.schemas.Reaches row column found ∨
      call.service.schemas.Reaches response column found := by
  unfold checkResponseColumn at h
  rw [hparameter] at h
  dsimp only at h
  cases hrow : call.service.schemas.find? row column with
  | some f => exact ⟨f.schema, .inl (SchemaSet.reaches_of_find? hrow)⟩
  | none =>
      cases hresponse : call.service.schemas.find? response column with
      | some f => exact ⟨f.schema, .inr (SchemaSet.reaches_of_find? hresponse)⟩
      | none =>
          rw [hrow, hresponse] at h
          cases h

theorem checked_of_outputColumns {items : List (Sql.SelectItem × Nat)} {columns : List OutputColumn}
    (h : outputColumns call schema items = .ok columns) {qualifier label : Option String}
    {column : String} {i : Nat} (hi : (.expr (.column qualifier column) label, i) ∈ items) :
    checkResponseColumn call schema.row schema.response column = .ok () := by
  fun_induction outputColumns call schema items generalizing columns with
  | case1 => cases hi
  | case2 index rest ih =>
      rcases List.mem_cons.1 hi with hi | hi
      · cases hi
      · exact ih h hi
  | case3 qualifier' name label' index rest ih =>
      obtain ⟨⟨⟩, hchecked, h⟩ := bind_eq_ok.1 h
      obtain ⟨others, hothers, -⟩ := bind_eq_ok.1 h
      rcases List.mem_cons.1 hi with hi | hi
      · cases hi
        exact mapError_eq_ok.1 hchecked
      · exact ih hothers hi
  | case4 l label' index rest ih =>
      obtain ⟨others, hothers, -⟩ := bind_eq_ok.1 h
      rcases List.mem_cons.1 hi with hi | hi
      · cases hi
      · exact ih hothers hi
  | case5 => cases h

/-- Every column that an accepted query names is checked. -/
theorem Names.checked {s : Sql.Select} {p : Projection} {values : Fields} {filter : Option Filter}
    {column : String} (h : Names s p column) (hprojection : projection call schema s.items = .ok p)
    (hcondition : Analysis.condition call schema s.condition = .ok (values, filter))
    (horder : checkOrder call schema p s.orderBy = .ok ()) :
    checkResponseColumn call schema.row schema.response column = .ok () := by
  cases h with
  | item h =>
      obtain ⟨columns, hcolumns, -⟩ := bind_eq_ok.1 hprojection
      obtain ⟨i, hi⟩ := List.getElem?_of_mem h
      exact checked_of_outputColumns hcolumns (List.mk_mem_zipIdx_iff_getElem?.2 hi)
  | condition he h =>
      rw [he] at hcondition
      obtain ⟨⟨⟩, hnames, -⟩ := bind_eq_ok.1 hcondition
      exact forM_eq_ok.1 hnames column h
  | order ho hheader =>
      have hchecked := forM_eq_ok.1 horder _ ho
      rw [hheader] at hchecked
      exact hchecked

variable {ps : Providers} {current : String} {pageSize : Nat} {c : Context} {s : Sql.Select}
  {t : Target} {shape : Shape}

/-- Every column that an accepted query names and that is no parameter is found below the schema of the
rows or of the response. Some row that conforms has a value in it exactly if the row schema knows the
column as a key, or its parts as keys of nested objects. -/
theorem accepted_readable_iff
    (h : (analyze ps current pageSize (.select s) c).1 = .ok (.select t shape)) {column : String}
    (hcolumn : Names s shape.projection column)
    (hparameter : t.call.method.parameter? column = none) :
    let set := t.call.service.schemas
    ∃ schema, rowSchema t.call = .ok schema ∧ schema.itemsKey = t.itemsKey ∧
      (∃ found, set.Reaches schema.row column found ∨ set.Reaches schema.response column found) ∧
      (schema.Readable set column ↔ schema.reads set column = true) := by
  intro set
  obtain ⟨_, _, _, _, ha, -, -, hof⟩ := Accepted.table ⟨_, h, rfl⟩
  cases ha.symm.trans h
  obtain ⟨_, _, schema, _, ⟨⟩, -, hkey, hschema, hprojection, hcondition, horder, -⟩ :=
    ofSelect_ok hof
  have hchecked := hcolumn.checked hprojection hcondition horder
  exact ⟨schema, hschema, hkey.symm, reaches_of_checkResponseColumn hchecked hparameter,
    schema.readable_iff_reads set⟩

theorem accepted_readable_name :
    let properties := [("name", Sample.text)]
    ∃ t shape, selected properties [.expr (.column none "name") none] = .ok (.select t shape) ∧
      t.call.method.parameter? "name" = none ∧
      (networkRows properties).Readable t.call.service.schemas "name" := by
  intro properties
  have hprojection : projection (Sample.listCall properties) (networkRows properties)
      [.expr (.column none "name") none] = .ok [.named "name"] := rfl
  obtain ⟨prepared, hs⟩ := selected_ok properties hprojection
  have hparameter : (Sample.listCall properties).method.parameter? "name" = none := rfl
  have hreads : (networkRows properties).reads (Sample.serviceOf properties).schemas "name" = true :=
    rfl
  refine ⟨_, _, hs, hparameter, ?_⟩
  obtain ⟨schema, hschema, -, -, hreadable⟩ :=
    accepted_readable_iff hs (.item List.mem_cons_self) hparameter
  cases hschema.symm.trans (rowSchema_listCall properties)
  exact hreadable.2 hreads

/-- A column that only a property of a row has is accepted, and it is null in every row that conforms. -/
theorem not_accepted_readable :
    let inner := .inline (Sample.schema "" "object" [("b", Sample.text)] none [])
    let properties := [("a", inner)]
    (∃ t shape, selected properties [.expr (.column none "b") none] = .ok (.select t shape) ∧
      t.call = Sample.listCall properties) ∧
      (Sample.listCall properties).method.parameter? "b" = none ∧
      rowSchema (Sample.listCall properties) = .ok (networkRows properties) ∧
      ¬(networkRows properties).Readable (Sample.serviceOf properties).schemas "b" := by
  intro inner properties
  have hprojection : projection (Sample.listCall properties) (networkRows properties)
      [.expr (.column none "b") none] = .ok [.named "b"] := rfl
  have hreads : (networkRows properties).reads (Sample.serviceOf properties).schemas "b" = false :=
    rfl
  obtain ⟨prepared, hs⟩ := selected_ok properties hprojection
  refine ⟨⟨_, _, hs, rfl⟩, rfl, rowSchema_listCall properties, ?_⟩
  rw [RowSchema.readable_iff_reads, hreads]
  exact Bool.false_ne_true

end Analysis
end RestSql
