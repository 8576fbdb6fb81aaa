import RestSql.Analysis.Query
import RestSql.Proofs.Steps

/-!
# Rows that conform to a schema

Which values a schema describes, and which columns rows of such values can have: those that lead through
the keys that the schema knows (`RowSchema.readable_iff`).
-/

namespace RestSql

/-! ## Cells -/

namespace Row

theorem reach?_cons_singleton (key : String) (v : Json) (path : List String) :
    reach? (.object [(key, v)]) (key :: path) = reach? v path := by
  simp [reach?, Json.field?, Json.fields?, Dict.find?]

theorem reach?_singleton (row : Row) (column : String) :
    reach? (.object row) [column] = Dict.find? row column := by
  rw [reach?]
  cases h : (Json.object row).field? column with
  | none => exact h.symm
  | some inner => exact h.symm

/-- A column is reached at once, or by its parts. -/
theorem reach?_of_cell? {row : Row} {column : String} {v : Json} (h : row.cell? column = some v) :
    reach? (.object row) [column] = some v ∨
      reach? (.object row) (Text.cutAt '.' column) = some v := by
  unfold cell? at h
  split at h
  · next w hw =>
    cases h
    exact .inl ((reach?_singleton row column).trans hw)
  · exact .inr h

/-- The cell of a row with one key, at whose parts the column is reached. -/
theorem cell?_singleton {key column : String} {path : List String} {v w : Json}
    (hcolumn : Text.cutAt '.' column = key :: path) (h : reach? v path = some w) :
    Row.cell? [(key, v)] column = some w := by
  rw [cell?]
  by_cases hkey : key = column
  · have hpath : path = [] := (Text.cutAt_head_eq_iff hcolumn).1 hkey
    subst hpath
    simpa [Dict.find?, hkey, reach?] using h
  · rw [hcolumn, reach?_cons_singleton]
    simpa [Dict.find?, hkey] using h

theorem ofItem_of_plain {v : Json} (hplain : v.fields? = none) : ofItem v = [("value", v)] := by
  cases v with
  | object fields => cases hplain
  | _ => rfl

theorem reach?_cons_of_plain {v : Json} (hplain : v.fields? = none) (key : String)
    (path : List String) : reach? v (key :: path) = none := by
  rw [reach?, Json.field?, hplain]
  rfl

/-- An item that is no object has a cell in the column `value` alone. -/
theorem cell?_plain {item v : Json} {column : String} (hplain : item.fields? = none)
    (h : Row.cell? [("value", item)] column = some v) : column = "value" ∧ v = item := by
  by_cases hvalue : "value" = column
  · subst hvalue
    exact ⟨rfl, (Option.some.inj ((cell?_of_field (by simp [Dict.find?])).symm.trans h)).symm⟩
  · exfalso
    rw [cell?] at h
    have hfind : Dict.find? [("value", item)] column = none := by simp [Dict.find?, hvalue]
    rw [hfind] at h
    dsimp only at h
    cases hcolumn : Text.cutAt '.' column with
    | nil => exact Text.cutAt_ne_nil _ _ hcolumn
    | cons key path =>
        rw [hcolumn] at h
        by_cases hkey : "value" = key
        · have hpath : path ≠ [] := fun hpath =>
            hvalue (hkey.trans ((Text.cutAt_head_eq_iff hcolumn).2 hpath))
          obtain ⟨next, more, rfl⟩ := List.exists_cons_of_ne_nil hpath
          rw [← hkey, reach?_cons_singleton, reach?_cons_of_plain hplain] at h
          cases h
        · have hfield : (Json.object [("value", item)]).field? key = none := by
            simp [Json.field?, Json.fields?, Dict.find?, hkey]
          rw [reach?, hfield] at h
          cases h

end Row

/-! ## Values that conform -/

namespace Schema

/-- The schema says nothing about its values. -/
def isOpen (s : Schema) : Bool :=
  !(s.isObject || s.additional.isSome || s.isArray || s.isText || s.isIntegral || s.isFloat ||
    s.isBoolean)

/-- The handle to the schema of a key: that of the property, or that of the values of a map. -/
def keyHandle? (s : Schema) (key : String) : Option SchemaHandle :=
  (Dict.find? s.properties key).orElse fun _ => s.additional

/-- Values that are neither objects nor null may conform. -/
def allowsPlain (s : Schema) : Bool :=
  s.isOpen || s.isArray || s.isText || s.isIntegral || s.isFloat || s.isBoolean

end Schema

namespace SchemaSet

variable (set : SchemaSet)

/-- The kind of a value is allowed. Where no schema is known, any is. -/
def allows (s : Option Schema) (kind : Schema → Bool) : Bool :=
  match s with
  | none => true
  | some s => s.isOpen || kind s

/-- What is known of the value of a key, if an object may have the key. -/
def known? (s : Option Schema) (key : String) : Option (Option Schema) :=
  match s with
  | none => some none
  | some s => if s.isOpen then some none else (s.keyHandle? key).map set.resolve?

mutual

/-- The value is one that the schema describes. Anything is where no schema is known, and so is null. -/
def conforms (s : Option Schema) : Json → Bool
  | .null => true
  | .bool _ => allows s Schema.isBoolean
  | .string _ => allows s Schema.isText
  | .number (.integer _) => allows s fun s => s.isIntegral || s.isFloat
  | .number (.float _) => allows s Schema.isFloat
  | .array items => allows s Schema.isArray && conformsEach (s.bind set.items?) items
  | .object fields =>
    allows s (fun s => s.isObject || s.additional.isSome) && conformsFields s fields

def conformsEach (s : Option Schema) : List Json → Bool
  | [] => true
  | item :: rest => conforms s item && conformsEach s rest

def conformsFields (s : Option Schema) : List (String × Json) → Bool
  | [] => true
  | (key, v) :: rest =>
    (match set.known? s key with
    | none => false
    | some t => conforms t v) && conformsFields s rest

end

/-- Every key of the path is known in the schema that the keys before it lead to. -/
def leads (s : Option Schema) : List String → Bool
  | [] => true
  | key :: path =>
    match set.known? s key with
    | none => false
    | some t => leads t path

variable {set : SchemaSet} {s : Option Schema}

theorem known?_of_mem {fields : List (String × Json)} (h : set.conformsFields s fields = true)
    {key : String} {v : Json} (hv : (key, v) ∈ fields) :
    ∃ t, set.known? s key = some t ∧ set.conforms t v = true := by
  induction fields with
  | nil => cases hv
  | cons e rest ih =>
      rw [conformsFields, Bool.and_eq_true] at h
      rcases List.mem_cons.1 hv with rfl | hv
      · cases hk : set.known? s key with
        | none => simp [hk] at h
        | some t => exact ⟨t, rfl, by simpa [hk] using h.1⟩
      · exact ih h.2 hv

theorem conforms_object_singleton {key : String} {t : Option Schema} {v : Json}
    (hk : set.known? s key = some t) (hv : set.conforms t v = true) :
    set.conforms s (.object [(key, v)]) = true := by
  have hfields : set.conformsFields s [(key, v)] = true := by
    simp [conformsFields, hk, hv]
  rw [conforms, hfields, Bool.and_true]
  cases s with
  | none => rfl
  | some s =>
      by_cases hopen : s.isOpen
      · simp [allows, hopen]
      · obtain ⟨h, hh, -⟩ := Option.map_eq_some_iff.1 (by simpa [known?, hopen] using hk)
        cases hp : Dict.find? s.properties key with
        | none =>
            rw [Schema.keyHandle?, hp] at hh
            have hadditional : s.additional = some h := hh
            simp [allows, hadditional]
        | some h' =>
            have hne : s.properties ≠ [] := List.ne_nil_of_mem (Dict.mem_of_find? hp)
            simp [allows, Schema.isObject, hne]

theorem exists_plain_iff (set : SchemaSet) (s : Schema) :
    (∃ v, set.conforms (some s) v = true ∧ v ≠ .null ∧ v.fields? = none) ↔
      s.allowsPlain = true := by
  constructor
  · rintro ⟨v, hv, hne, hplain⟩
    cases v with
    | null => exact absurd rfl hne
    | object fields => cases hplain
    | number n => cases n <;> simp_all [conforms, allows, Schema.allowsPlain] <;> grind
    | _ => simp_all [conforms, allows, Schema.allowsPlain] <;> grind
  · intro h
    simp only [Schema.allowsPlain, Bool.or_eq_true] at h
    rcases h with ((((hopen | harray) | htext) | hintegral) | hfloat) | hboolean
    · exact ⟨.bool true, by simp [conforms, allows, hopen], nofun, rfl⟩
    · exact ⟨.array [], by simp [conforms, conformsEach, allows, harray], nofun, rfl⟩
    · exact ⟨.string "", by simp [conforms, allows, htext], nofun, rfl⟩
    · exact ⟨.number (.integer 0), by simp [conforms, allows, hintegral], nofun, rfl⟩
    · exact ⟨.number (.integer 0), by simp [conforms, allows, hfloat], nofun, rfl⟩
    · exact ⟨.bool true, by simp [conforms, allows, hboolean], nofun, rfl⟩

theorem exists_conforms (set : SchemaSet) (s : Option Schema) :
    ∃ v, set.conforms s v = true ∧ v ≠ .null := by
  cases s with
  | none => exact ⟨.bool true, rfl, nofun⟩
  | some s =>
      by_cases hplain : s.allowsPlain = true
      · obtain ⟨v, hv, hne, -⟩ := (exists_plain_iff set s).2 hplain
        exact ⟨v, hv, hne⟩
      · have hobject : (s.isObject || s.additional.isSome) = true := by
          simp only [Schema.allowsPlain, Schema.isOpen] at hplain
          grind
        exact ⟨.object [], by simp [conforms, conformsFields, allows, hobject], nofun⟩

/-- What a path reaches in a value that conforms, its schema knows. -/
theorem leads_of_reach? {v w : Json} {path : List String} (hv : set.conforms s v = true)
    (h : Row.reach? v path = some w) : set.leads s path = true := by
  induction path generalizing s v with
  | nil => rfl
  | cons key path ih =>
      rw [Row.reach?] at h
      split at h
      · next inner hinner =>
        obtain ⟨fields, hfields, hfind⟩ := Option.bind_eq_some_iff.1 hinner
        cases v with
        | object fields' =>
            cases hfields
            rw [conforms, Bool.and_eq_true] at hv
            obtain ⟨t, ht, hconforms⟩ := known?_of_mem hv.2 (Dict.mem_of_find? hfind)
            rw [leads, ht]
            exact ih hconforms h
        | _ => cases hfields
      · cases h

/-- Along a path that its schema knows, some object that conforms has a value other than null. -/
theorem exists_object_of_leads {key : String} {path : List String}
    (h : set.leads s (key :: path) = true) :
    ∃ v w, set.conforms s (.object [(key, v)]) = true ∧ Row.reach? v path = some w ∧ w ≠ .null := by
  -- the object is built from its innermost value, one key for each part
  induction path generalizing s key with
  | nil =>
      rw [leads] at h
      split at h
      · cases h
      · next t ht =>
        obtain ⟨v, hv, hne⟩ := exists_conforms set t
        exact ⟨v, v, conforms_object_singleton ht hv, rfl, hne⟩
  | cons next path ih =>
      rw [leads] at h
      split at h
      · cases h
      · next t ht =>
        obtain ⟨v, w, hv, hw, hne⟩ := ih h
        exact ⟨_, w, conforms_object_singleton ht hv, (Row.reach?_cons_singleton next v path).trans hw,
          hne⟩

end SchemaSet

/-! ## Columns of rows -/

/-- Some object that conforms has a cell that is not null exactly if the column is a key that the
schema knows or its parts lead through such keys. -/
theorem SchemaSet.exists_cell?_iff {set : SchemaSet} {s : Option Schema} {column : String} :
    (∃ row v, set.conforms s (.object row) = true ∧ Row.cell? row column = some v ∧ v ≠ .null) ↔
      set.leads s [column] = true ∨ set.leads s (Text.cutAt '.' column) = true := by
  constructor
  · rintro ⟨row, v, hrow, hv, -⟩
    exact (Row.reach?_of_cell? hv).imp (leads_of_reach? hrow) (leads_of_reach? hrow)
  · rintro (h | h)
    · obtain ⟨v, w, hv, hw, hne⟩ := exists_object_of_leads h
      cases hw
      exact ⟨_, v, hv, Row.cell?_of_field (by simp [Dict.find?]), hne⟩
    · cases hcolumn : Text.cutAt '.' column with
      | nil => exact absurd hcolumn (Text.cutAt_ne_nil _ _)
      | cons key path =>
          rw [hcolumn] at h
          obtain ⟨v, w, hv, hw, hne⟩ := exists_object_of_leads h
          exact ⟨_, w, hv, Row.cell?_singleton hcolumn hw, hne⟩

namespace Analysis.RowSchema

variable (set : SchemaSet) (s : RowSchema)

/-- The rows of a response conform to the row schema. -/
def Conforms (body : Json) : Prop :=
  match s.itemsKey with
  | some key => ∃ items, body.field? key = some (.array items) ∧
      ∀ item ∈ items, set.conforms (some s.row) item = true
  | none => set.conforms (some s.row) body = true

/-- Some response whose rows conform has a row with a value other than null in the column. -/
def Readable (column : String) : Prop :=
  ∃ body, s.Conforms set body ∧ ∃ row ∈ Row.ofResponse body s.itemsKey,
    ∃ v, row.cell? column = some v ∧ v ≠ .null

/-- The column is a key that the row schema knows, or its parts lead through such keys. Where rows are
items, also those that are no objects have the column `value`. -/
def reads (column : String) : Bool :=
  set.leads (some s.row) [column] || set.leads (some s.row) (Text.cutAt '.' column) ||
    (s.itemsKey.isSome && column == "value" && s.row.allowsPlain)

/-- A row is an object that conforms, or stands for an item that is none. -/
theorem readable_iff {column : String} :
    s.Readable set column ↔
      (∃ row v, set.conforms (some s.row) (.object row) = true ∧ Row.cell? row column = some v ∧
        v ≠ .null) ∨
      s.itemsKey.isSome ∧ column = "value" ∧
        ∃ v, set.conforms (some s.row) v = true ∧ v ≠ .null ∧ v.fields? = none := by
  unfold Readable Conforms
  cases s.itemsKey with
  | none =>
      simp only [Option.isSome_none, Bool.false_eq_true, false_and, or_false]
      constructor
      · rintro ⟨body, hbody, row, hrow, v, hv, hne⟩
        cases body with
        | object fields =>
            cases List.mem_singleton.1 hrow
            exact ⟨row, v, hbody, hv, hne⟩
        | _ => cases hrow
      · rintro ⟨row, v, hrow, hv, hne⟩
        exact ⟨.object row, hrow, row, List.mem_singleton_self row, v, hv, hne⟩
  | some key =>
      simp only [Option.isSome_some, true_and]
      have hbody : ∀ item : Json, (Json.object [(key, .array [item])]).field? key =
          some (.array [item]) := fun item => by simp [Json.field?, Json.fields?, Dict.find?]
      have hrows : ∀ item : Json, Row.ofItem item ∈
          Row.ofResponse (.object [(key, .array [item])]) (some key) := fun item => by
        simp [Row.ofResponse, hbody]
      constructor
      · rintro ⟨body, ⟨items, hitems, hconforms⟩, row, hrow, v, hv, hne⟩
        rw [Row.ofResponse, hitems] at hrow
        obtain ⟨item, hitem, rfl⟩ := List.mem_map.1 hrow
        have hitem := hconforms item hitem
        cases hplain : item.fields? with
        | some fields =>
            cases item with
            | object fields' => exact .inl ⟨fields', v, hitem, hv, hne⟩
            | _ => cases hplain
        | none =>
            rw [Row.ofItem_of_plain hplain] at hv
            obtain ⟨hcolumn, rfl⟩ := Row.cell?_plain hplain hv
            exact .inr ⟨hcolumn, v, hitem, hne, hplain⟩
      · rintro (⟨row, v, hrow, hv, hne⟩ | ⟨rfl, v, hv, hne, hplain⟩)
        · refine ⟨_, ⟨_, hbody (.object row), ?_⟩, row, hrows (.object row), v, hv, hne⟩
          simpa using hrow
        · refine ⟨_, ⟨_, hbody v, by simpa using hv⟩, _, hrows v, v, ?_, hne⟩
          rw [Row.ofItem_of_plain hplain]
          exact Row.cell?_of_field (by simp [Dict.find?])

theorem readable_iff_reads {column : String} :
    s.Readable set column ↔ s.reads set column = true := by
  rw [readable_iff, SchemaSet.exists_cell?_iff, SchemaSet.exists_plain_iff, reads]
  simp only [Bool.or_eq_true, Bool.and_eq_true, beq_iff_eq, and_assoc]

end Analysis.RowSchema
end RestSql
