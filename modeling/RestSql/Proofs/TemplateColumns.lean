import RestSql.InsertTemplate
import RestSql.Proofs.DeclaredResources
import RestSql.Proofs.FieldSearch
import RestSql.Proofs.RequiredFields

/-!
# Columns of a template

A template of an INSERT statement has a column for each required parameter of the method. It has one for a
required field of the body if there is something to fill in below it: a way through the schemas to a plain
value (`SchemaSet.HasSlot`). Objects without known properties, schemas within themselves and objects that
are nested too deep have none, and the template leaves such a field out although the method needs it
(`InsertTemplate.has_required_columns`).
-/

namespace RestSql

/-! ## Ways through the schemas -/

namespace SchemaSet

/-- The name of the schema that a handle refers to. -/
def handleName? : SchemaHandle → Option String
  | .named name _ => some name
  | .inline _ => none

/-- A way from a handle down to a plain value: through properties that the caller may set and through the
items of arrays. -/
inductive Way (set : SchemaSet) : SchemaHandle → List SchemaHandle → Prop
  | plain {h : SchemaHandle} {s : Schema} (hs : set.resolve? h = some s) (hobject : s.isObject = false)
      (harray : s.isArray = false) : Way set h [h]
  | item {h i : SchemaHandle} {s : Schema} {way : List SchemaHandle} (hs : set.resolve? h = some s)
      (hobject : s.isObject = false) (harray : s.isArray = true) (hitems : s.items = some i)
      (hway : Way set i way) : Way set h (h :: way)
  | property {h p : SchemaHandle} {s : Schema} {key : String} {way : List SchemaHandle}
      (hs : set.resolve? h = some s) (hobject : s.isObject = true) (hkey : (key, p) ∈ s.properties)
      (hsettable : set.isOutputOnly p = false) (hway : Way set p way) : Way set h (h :: way)

/-- The way enters no named schema twice, and none of the closed ones. -/
def Enters (closed : List String) (way : List SchemaHandle) : Prop :=
  (way.filterMap handleName?).Nodup ∧ ∀ name ∈ way.filterMap handleName?, name ∉ closed

/-- Number of the objects on a way. -/
def objects (set : SchemaSet) (way : List SchemaHandle) : Nat :=
  way.countP fun h => (set.resolve? h).any Schema.isObject

/-- The value behind a property of the root has something to fill in: it is plain, or a way leads to a plain
value that enters no named schema twice, nor the root again, and on which at most two objects are nested. -/
def HasSlot (set : SchemaSet) (root : Schema) (h : SchemaHandle) : Prop :=
  ∃ way, set.Way h way ∧ (way = [h] ∨
    Enters (if root.id = "" then [] else [root.id]) way ∧ set.objects way ≤ TemplateValue.maxObjects)

variable {set open_ rest : SchemaSet} {closed : List String} {h : SchemaHandle} {s t : Schema}
  {way : List SchemaHandle}

theorem enters_cons : Enters closed (h :: way) ↔
    (∀ name ∈ handleName? h, name ∉ closed) ∧ Enters ((handleName? h).toList ++ closed) way := by
  cases hname : handleName? h with
  | none => simp [Enters, hname]
  | some name =>
      rw [Enters, List.filterMap_cons_some hname, List.nodup_cons, List.forall_mem_cons]
      simp only [Enters, Option.mem_some_iff, forall_eq', Option.toList_some, List.singleton_append,
        List.mem_cons, not_or]
      constructor
      · rintro ⟨⟨hnot, hnodup⟩, hclosed, hrest⟩
        exact ⟨hclosed, hnodup, fun n hn => ⟨fun heq => hnot (heq ▸ hn), hrest n hn⟩⟩
      · rintro ⟨hclosed, hnodup, hrest⟩
        exact ⟨⟨fun hn => (hrest name hn).1 rfl, hnodup⟩, hclosed, fun n hn => (hrest n hn).2⟩

theorem objects_cons (hs : set.resolve? h = some s) :
    set.objects (h :: way) = (if s.isObject then 1 else 0) + set.objects way := by
  rw [objects, List.countP_cons, hs, Option.any_some, Nat.add_comm]
  rfl

/-- The schemas of the set that may be entered are those that are not closed. -/
def Opens (set : SchemaSet) (closed : List String) (open_ : SchemaSet) : Prop :=
  ∀ name, Dict.find? open_ name = if name ∈ closed then none else Dict.find? set name

theorem opens_openFrom (set : SchemaSet) (root : Schema) :
    set.Opens (if root.id = "" then [] else [root.id]) (set.openFrom root) := by
  intro name
  rw [openFrom]
  split
  · simp
  · simp [Dict.find?_drop, eq_comm]

theorem Opens.enter (hopen : set.Opens closed open_) (he : open_.enter? h = some (s, rest)) :
    set.resolve? h = some s ∧ (∀ name ∈ handleName? h, name ∉ closed) ∧
      set.Opens ((handleName? h).toList ++ closed) rest := by
  cases h with
  | inline u =>
      cases he
      exact ⟨rfl, nofun, hopen⟩
  | named name outputOnly =>
      obtain ⟨hfind, rfl⟩ := find?_of_enter he
      rw [hopen name] at hfind
      split at hfind
      · cases hfind
      · next hnot =>
        refine ⟨hfind, by simpa [handleName?] using hnot, fun n => ?_⟩
        rw [Dict.find?_drop, hopen n]
        by_cases hn : name = n
        · simp [handleName?, hn]
        · simp [handleName?, hn, Ne.symm hn]

theorem Opens.exists_enter (hopen : set.Opens closed open_) (hs : set.resolve? h = some s)
    (hname : ∀ name ∈ handleName? h, name ∉ closed) : ∃ rest, open_.enter? h = some (s, rest) := by
  cases h with
  | inline u =>
      cases hs
      exact ⟨open_, rfl⟩
  | named name outputOnly =>
      refine ⟨Dict.drop open_ name, ?_⟩
      have hfind : Dict.find? open_ name = some s := by
        rw [hopen name, if_neg (hname name rfl)]
        exact hs
      rw [enter?, hfind]
      rfl


/-- A way to a plain value for which the closed schemas are not entered, if `level` objects are nested with
its first object. -/
def Leads (set : SchemaSet) (closed : List String) (level : Nat) (h : SchemaHandle) : Prop :=
  ∃ way, set.Way h way ∧ Enters closed way ∧ level + set.objects way ≤ TemplateValue.maxObjects + 1

variable {level : Nat}

theorem Leads.exists_resolve (hleads : set.Leads closed level h) :
    (∃ s, set.resolve? h = some s) ∧ ∀ name ∈ handleName? h, name ∉ closed := by
  obtain ⟨way, hway, henters, -⟩ := hleads
  cases hway with
  | plain hs => exact ⟨⟨_, hs⟩, (enters_cons.1 henters).1⟩
  | item hs => exact ⟨⟨_, hs⟩, (enters_cons.1 henters).1⟩
  | property hs => exact ⟨⟨_, hs⟩, (enters_cons.1 henters).1⟩

section

variable (hs : set.resolve? h = some s) (hname : ∀ name ∈ handleName? h, name ∉ closed)

include hs hname

theorem leads_plain (hobject : s.isObject = false) (harray : s.isArray = false)
    (hlevel : level ≤ TemplateValue.maxObjects + 1) : set.Leads closed level h := by
  refine ⟨[h], .plain hs hobject harray, enters_cons.2 ⟨hname, List.nodup_nil, nofun⟩, ?_⟩
  rw [objects_cons hs, hobject]
  exact hlevel

theorem leads_item_iff (hobject : s.isObject = false) (harray : s.isArray = true) :
    set.Leads closed level h ↔
      ∃ i, s.items = some i ∧ set.Leads ((handleName? h).toList ++ closed) level i := by
  constructor
  · rintro ⟨_, hway, henters, hlevel⟩
    cases hway with
    | plain hs' _ hplain =>
        cases hs.symm.trans hs'
        cases harray.symm.trans hplain
    | @item _ i _ way hs' _ _ hitems hway =>
        cases hs.symm.trans hs'
        rw [objects_cons hs, hobject] at hlevel
        exact ⟨i, hitems, way, hway, (enters_cons.1 henters).2, by simpa using hlevel⟩
    | property hs' hobject' =>
        cases hs.symm.trans hs'
        cases hobject.symm.trans hobject'
  · rintro ⟨i, hitems, way, hway, henters, hlevel⟩
    refine ⟨h :: way, .item hs hobject harray hitems hway, enters_cons.2 ⟨hname, henters⟩, ?_⟩
    rw [objects_cons hs, hobject]
    simpa using hlevel

theorem leads_object_iff (hobject : s.isObject = true) :
    set.Leads closed level h ↔ ∃ e ∈ s.properties, set.isOutputOnly e.2 = false ∧
      set.Leads ((handleName? h).toList ++ closed) (level + 1) e.2 := by
  constructor
  · rintro ⟨_, hway, henters, hlevel⟩
    cases hway with
    | plain hs' hobject' =>
        cases hs.symm.trans hs'
        cases hobject.symm.trans hobject'
    | item hs' hobject' =>
        cases hs.symm.trans hs'
        cases hobject.symm.trans hobject'
    | @property _ p _ key way hs' _ hkey hsettable hway =>
        cases hs.symm.trans hs'
        rw [objects_cons hs, hobject, ← Nat.add_assoc] at hlevel
        exact ⟨(key, p), hkey, hsettable, way, hway, (enters_cons.1 henters).2, hlevel⟩
  · rintro ⟨⟨key, p⟩, hkey, hsettable, way, hway, henters, hlevel⟩
    refine ⟨h :: way, .property hs hobject hkey hsettable hway, enters_cons.2 ⟨hname, henters⟩, ?_⟩
    rw [objects_cons hs, hobject, ← Nat.add_assoc]
    exact hlevel

end

end SchemaSet

namespace Schema

/-- The handle stands in the schema: it refers to another one by its name, or is smaller. -/
def Holds (t : Schema) (h : SchemaHandle) : Prop :=
  ∀ u, h = .inline u → u.size < t.size

theorem holds_of_property {s : Schema} {key : String} {h : SchemaHandle} (hkey : (key, h) ∈ s.properties) :
    s.Holds h := by
  rintro u rfl
  obtain ⟨id, kind, format, description, properties, items, additional, outputOnly, required⟩ := s
  have hsize := size_le_sizeEach hkey
  simp only [size]
  dsimp only at hsize
  omega

theorem holds_of_items {s : Schema} {h : SchemaHandle} (hitems : s.items = some h) : s.Holds h := by
  rintro u rfl
  obtain ⟨id, kind, format, description, properties, items, additional, outputOnly, required⟩ := s
  obtain rfl : items = some (.inline u) := hitems
  simp only [size, sizeOf?]
  omega

end Schema

namespace TemplateValue

open SchemaSet

variable {set open_ : SchemaSet} {closed : List String} {h : SchemaHandle} {t : Schema}

theorem isSome_object?_filterMap {α : Type} {entries : List α}
    {field : α → Option (String × TemplateValue)} :
    (object? (entries.filterMap field)).isSome ↔ ∃ e ∈ entries, (field e).isSome := by
  constructor
  · intro h
    cases hfields : entries.filterMap field with
    | nil =>
        rw [hfields] at h
        cases h
    | cons e fields =>
        have hmem : e ∈ entries.filterMap field := hfields ▸ List.mem_cons_self
        obtain ⟨entry, hentry, he⟩ := List.mem_filterMap.1 hmem
        exact ⟨entry, hentry, he ▸ rfl⟩
  · rintro ⟨entry, hentry, h⟩
    obtain ⟨e, he⟩ := Option.isSome_iff_exists.1 h
    have hmem : e ∈ entries.filterMap field := List.mem_filterMap.2 ⟨entry, hentry, he⟩
    cases hfields : entries.filterMap field with
    | nil =>
        rw [hfields] at hmem
        cases hmem
    | cons _ _ => rfl

/-- Something is written for a handle exactly if a way leads to a plain value. -/
theorem isSome_ofHandle_iff {fuel level : Nat} {path : String} (hopen : set.Opens closed open_)
    (hinside : t.Holds h) (hfuel : open_.size + t.size ≤ fuel) (hlevel : level ≤ maxObjects + 1) :
    (ofHandle set fuel open_ level path h).isSome ↔ set.Leads closed level h := by
  induction fuel generalizing open_ closed level path h t with
  | zero =>
      have hpos := t.size_pos
      omega
  | succ fuel ih =>
      rw [ofHandle]
      cases he : open_.enter? h with
      | none =>
          refine iff_of_false nofun fun hleads => ?_
          obtain ⟨⟨s, hs⟩, hname⟩ := hleads.exists_resolve
          obtain ⟨rest, hrest⟩ := hopen.exists_enter hs hname
          cases he.symm.trans hrest
      | some found =>
          obtain ⟨s, rest⟩ := found
          obtain ⟨hs, hname, hrest⟩ := hopen.enter he
          have hsize := size_enter_lt_of_inline hinside he
          dsimp only
          cases hobject : s.isObject with
          | true =>
              rw [if_pos rfl, leads_object_iff hs hname hobject]
              by_cases hdeep : maxObjects < level
              · rw [if_pos hdeep]
                refine iff_of_false nofun ?_
                rintro ⟨e, -, -, way, -, -, hle⟩
                omega
              · rw [if_neg hdeep, isSome_object?_filterMap]
                simp only [List.mem_filter, Option.isSome_map, Bool.not_eq_true', and_assoc]
                refine exists_congr fun e => and_congr_right fun hmem => and_congr_right fun _ => ?_
                exact ih hrest (Schema.holds_of_property hmem) (by omega) (by omega)
          | false =>
              cases harray : s.isArray with
              | false => exact iff_of_true rfl (leads_plain hs hname hobject harray hlevel)
              | true =>
                  rw [if_neg Bool.false_ne_true, if_pos rfl, leads_item_iff hs hname hobject harray]
                  cases hitems : s.items with
                  | none => exact iff_of_false nofun fun ⟨_, h, _⟩ => nomatch h
                  | some i =>
                      have hinner : (ofHandle set fuel rest level (path ++ "[0]") i).isSome ↔ _ :=
                        ih hrest (Schema.holds_of_items hitems) (by omega) hlevel
                      simpa using hinner

/-! ## Slots -/

mutual

/-- The paths of the slots in a value. -/
def slots : TemplateValue → List String
  | slot path _ => [path]
  | array item => slots item
  | object fields => fieldSlots fields

def fieldSlots : List (String × TemplateValue) → List String
  | [] => []
  | (_, v) :: rest => slots v ++ fieldSlots rest

end

theorem fieldSlots_eq (fields : List (String × TemplateValue)) :
    fieldSlots fields = fields.flatMap fun e => e.2.slots := by
  induction fields with
  | nil => rfl
  | cons e rest ih =>
      obtain ⟨key, v⟩ := e
      rw [fieldSlots, ih, List.flatMap_cons]

/-- The path is that of the column, or of a part of its value. -/
def IsWithin (column path : String) : Prop :=
  path = column ∨ ∃ rest, path = column ++ "." ++ rest ∨ path = column ++ "[0]" ++ rest

theorem IsWithin.of_append {column path inner : String} (h : IsWithin (column ++ inner) path)
    (hinner : ∃ rest, inner = "." ++ rest ∨ inner = "[0]" ++ rest) : IsWithin column path := by
  have hpath : ∃ more, path = column ++ inner ++ more := by
    rcases h with rfl | ⟨rest, rfl | rfl⟩
    · exact ⟨"", by simp⟩
    · exact ⟨"." ++ rest, by simp only [String.append_assoc]⟩
    · exact ⟨"[0]" ++ rest, by simp only [String.append_assoc]⟩
  obtain ⟨more, rfl⟩ := hpath
  obtain ⟨rest, rfl | rfl⟩ := hinner
  · exact .inr ⟨rest ++ more, .inl (by simp only [String.append_assoc])⟩
  · exact .inr ⟨rest ++ more, .inr (by simp only [String.append_assoc])⟩

/-- The value has slots, and all of them are of the column. -/
def BelongsTo (column : String) (v : TemplateValue) : Prop :=
  v.slots ≠ [] ∧ ∀ path ∈ v.slots, IsWithin column path

theorem belongsTo_slot (path : String) (quoted : Bool) : (slot path quoted).BelongsTo path := by
  simp [BelongsTo, slots, IsWithin]

theorem BelongsTo.array {column : String} {v : TemplateValue} (h : v.BelongsTo (column ++ "[0]")) :
    (array v).BelongsTo column :=
  ⟨h.1, fun path hpath => (h.2 path hpath).of_append ⟨"", .inr (by simp)⟩⟩

theorem belongsTo_object {column : String} {fields : List (String × TemplateValue)} (hne : fields ≠ [])
    (h : ∀ e ∈ fields, e.2.BelongsTo (column ++ "." ++ e.1)) : (object fields).BelongsTo column := by
  rw [BelongsTo, slots, fieldSlots_eq]
  constructor
  · obtain ⟨e, he⟩ := List.exists_mem_of_ne_nil _ hne
    exact fun hnil => (h e he).1 (List.flatMap_eq_nil_iff.1 hnil e he)
  · intro path hpath
    obtain ⟨e, he, hpath⟩ := List.mem_flatMap.1 hpath
    have hwithin := (h e he).2 path hpath
    rw [String.append_assoc] at hwithin
    exact hwithin.of_append ⟨e.1, .inl rfl⟩

/-- The slots of what is written for a handle are within its path. -/
theorem belongsTo_ofHandle {fuel level : Nat} {path : String} {v : TemplateValue}
    (hv : ofHandle set fuel open_ level path h = some v) : v.BelongsTo path := by
  induction fuel generalizing open_ level path h v with
  | zero => cases hv
  | succ fuel ih =>
      rw [ofHandle] at hv
      split at hv
      · cases hv
      · split at hv
        · split at hv
          · cases hv
          · next s rest _ _ _ =>
            rw [object?] at hv
            split at hv
            · cases hv
            · next hne =>
              obtain rfl := Option.some.inj hv
              refine belongsTo_object (by simpa using hne) fun e he => ?_
              obtain ⟨⟨key, p⟩, -, he⟩ := List.mem_filterMap.1 he
              obtain ⟨w, hw, rfl⟩ := Option.map_eq_some_iff.1 he
              exact ih hw
        · split at hv
          · split at hv
            · cases hv
            · obtain ⟨w, hw, rfl⟩ := Option.map_eq_some_iff.1 hv
              exact (ih hw).array
          · obtain rfl := Option.some.inj hv
            exact belongsTo_slot _ _

end TemplateValue

/-! ## Columns -/

namespace InsertTemplate

open TemplateValue

variable {set : SchemaSet} {m : Method} {root : Schema} {requiredOnly extended : Bool} {t : InsertTemplate}
  {table : String}

def columns (t : InsertTemplate) : List String :=
  t.entries.map (·.column)

/-- The columns of the parameters in a template without a column list. -/
def parameterColumns (m : Method) (extended requiredOnly : Bool) : List String :=
  (parameters m (extended && !requiredOnly)).map (·.name)

/-- The columns of the fields in it. -/
def fieldColumns (set : SchemaSet) (m : Method) (requiredOnly : Bool) (root : Schema) : List String :=
  (bodyEntries set m requiredOnly root).map (·.column)

theorem make_ok (h : make table m set (some root) [] extended requiredOnly = .ok t) :
    t.entries = (parameters m (extended && !requiredOnly)).map parameterEntry ++
      bodyEntries set m requiredOnly root := by
  obtain ⟨entries, hbody, h⟩ := bind_eq_ok.1 h
  rw [body] at hbody
  split at hbody
  · cases hbody
    cases h
    rfl
  · cases hbody

theorem columns_of_make (h : make table m set (some root) [] extended requiredOnly = .ok t) :
    t.columns = parameterColumns m extended requiredOnly ++ fieldColumns set m requiredOnly root := by
  simp only [columns, make_ok h, List.map_append, List.map_map, fieldColumns, parameterColumns]
  rfl

/-- A field has a value exactly if it has something to fill in. -/
theorem isSome_fieldValue_iff {key column : String} {h : SchemaHandle} {s : Schema}
    (hkey : (key, h) ∈ root.properties) (hs : set.resolve? h = some s) :
    (fieldValue set root s column h).isSome ↔ set.HasSlot root h := by
  rw [fieldValue]
  split
  · next hvalue =>
    have hplain : ¬set.Way h [h] := by
      intro hway
      cases hway with
      | plain hs' hobject harray =>
          cases hs.symm.trans hs'
          simp [hobject, harray] at hvalue
      | item _ _ _ _ hway => cases hway
      | property _ _ _ _ hway => cases hway
    rw [isSome_ofHandle_iff (SchemaSet.opens_openFrom set root) (Schema.holds_of_property hkey)
      (Nat.add_le_add_right (SchemaSet.size_openFrom_le set root) root.size) (by decide)]
    simp only [SchemaSet.Leads, SchemaSet.HasSlot, Nat.add_comm 1, Nat.add_le_add_iff_right]
    refine exists_congr fun way => and_congr_right fun hway => ?_
    rw [or_iff_right]
    rintro rfl
    exact hplain hway
  · next hvalue =>
    have hkinds : s.isObject = false ∧ s.isArray = false := by simpa using hvalue
    exact iff_of_true rfl ⟨[h], .plain hs hkinds.1 hkinds.2, .inl rfl⟩

/-- What a template has for one property of the body. -/
def entryOf (set : SchemaSet) (m : Method) (requiredOnly : Bool) (root : Schema)
    (e : String × SchemaHandle) : Option TemplateEntry :=
  if set.isOutputOnly e.2 then none
  else match set.resolve? e.2 with
    | none => none
    | some s =>
      if requiredOnly && !s.isRequired m.id then none
      else (fieldValue set root s (bodyMark ++ e.1) e.2).map fun v => ⟨bodyMark ++ e.1, v⟩

theorem bodyEntries_eq : bodyEntries set m requiredOnly root =
    root.properties.filterMap (entryOf set m requiredOnly root) := rfl

theorem entryOf_eq_some {key : String} {h : SchemaHandle} {e : TemplateEntry} :
    entryOf set m requiredOnly root (key, h) = some e ↔
      ∃ s, set.isOutputOnly h = false ∧ set.resolve? h = some s ∧
        (requiredOnly = true → m.id ∈ s.required) ∧ e.column = bodyMark ++ key ∧
        fieldValue set root s e.column h = some e.value := by
  rw [entryOf]
  constructor
  · intro he
    dsimp only at he
    split at he
    · cases he
    · next hsettable =>
      split at he
      · cases he
      · next s hs =>
        split at he
        · cases he
        · next hneeded =>
          obtain ⟨v, hv, rfl⟩ := Option.map_eq_some_iff.1 he
          refine ⟨s, by simpa using hsettable, hs, ?_, rfl, hv⟩
          simpa [Schema.isRequired] using hneeded
  · rintro ⟨s, hsettable, hs, hneeded, hcolumn, hv⟩
    obtain ⟨column, v⟩ := e
    obtain rfl : column = bodyMark ++ key := hcolumn
    have hkept : ¬(requiredOnly && !s.isRequired m.id) = true := by
      simpa [Schema.isRequired] using hneeded
    simp only [hsettable, Bool.false_eq_true, if_false, hs, if_neg hkept, hv, Option.map_some]

theorem mem_fieldColumns {column : String} : column ∈ fieldColumns set m requiredOnly root ↔
    ∃ key h s, (key, h) ∈ root.properties ∧ set.isOutputOnly h = false ∧ set.resolve? h = some s ∧
      (requiredOnly = true → m.id ∈ s.required) ∧ column = bodyMark ++ key ∧ set.HasSlot root h := by
  rw [fieldColumns, bodyEntries_eq, List.mem_map]
  constructor
  · rintro ⟨e, he, rfl⟩
    obtain ⟨⟨key, h⟩, hkey, he⟩ := List.mem_filterMap.1 he
    obtain ⟨s, hsettable, hs, hneeded, hcolumn, hv⟩ := entryOf_eq_some.1 he
    exact ⟨key, h, s, hkey, hsettable, hs, hneeded, hcolumn,
      (isSome_fieldValue_iff hkey hs).1 (Option.isSome_of_eq_some hv)⟩
  · rintro ⟨key, h, s, hkey, hsettable, hs, hneeded, rfl, hslot⟩
    obtain ⟨v, hv⟩ := Option.isSome_iff_exists.1 ((isSome_fieldValue_iff hkey hs).2 hslot)
    exact ⟨⟨bodyMark ++ key, v⟩, List.mem_filterMap.2
      ⟨(key, h), hkey, entryOf_eq_some.2 ⟨s, hsettable, hs, hneeded, rfl, hv⟩⟩, rfl⟩

theorem belongsTo_fieldValue {h : SchemaHandle} {s : Schema} {column : String} {v : TemplateValue}
    (hv : fieldValue set root s column h = some v) : v.BelongsTo column := by
  rw [fieldValue] at hv
  split at hv
  · exact belongsTo_ofHandle hv
  · obtain rfl := Option.some.inj hv
    exact belongsTo_slot _ _

/-- Each value is for its column. -/
theorem belongsTo_of_make (h : make table m set (some root) [] extended requiredOnly = .ok t)
    {e : TemplateEntry} (he : e ∈ t.entries) : e.value.BelongsTo e.column := by
  rw [make_ok h, List.mem_append] at he
  rcases he with he | he
  · obtain ⟨p, -, rfl⟩ := List.mem_map.1 he
    exact belongsTo_slot _ _
  · obtain ⟨_, -, he⟩ := List.mem_filterMap.1 he
    obtain ⟨s, -, -, -, -, hv⟩ := entryOf_eq_some.1 he
    exact belongsTo_fieldValue hv

theorem nodup_fieldColumns (hsorted : Dict.Sorted root.properties) :
    (fieldColumns set m requiredOnly root).Nodup := by
  rw [fieldColumns, bodyEntries_eq, List.Nodup, List.pairwise_map, List.pairwise_filterMap]
  refine List.Pairwise.imp (fun hlt x hx y hy heq => ?_) hsorted
  obtain ⟨-, -, -, -, hx, -⟩ := entryOf_eq_some.1 hx
  obtain ⟨-, -, -, -, hy, -⟩ := entryOf_eq_some.1 hy
  rw [hx, hy] at heq
  rw [String.append_right_inj] at heq
  exact String.lt_irrefl _ (heq ▸ hlt)

end InsertTemplate

/-! ## Parameters under their names -/

theorem Dict.Sorted.nodup_keys {α : Type} {d : Dict α} (h : Sorted d) : (keys d).Nodup :=
  List.pairwise_map.2 (List.Pairwise.imp String.ne_of_lt h)

/-- The parameters stand under their names, in order. -/
structure Method.KeepsNames (m : Method) : Prop where
  sorted : Dict.Sorted m.parameters
  name_eq : ∀ e ∈ m.parameters, e.2.name = e.1

/-- Those of a method in a document do. -/
theorem Document.keepsNames_of_decoder {depth : Nat} {t : Json.Tree} {m : Method}
    (h : methodDecoder depth t = some m) : m.KeepsNames := by
  obtain ⟨r, -, h⟩ := Option.bind_eq_some_iff.1 h
  obtain ⟨id, -, h⟩ := Option.bind_eq_some_iff.1 h
  obtain ⟨path, -, h⟩ := Option.bind_eq_some_iff.1 h
  obtain ⟨verb, -, h⟩ := Option.bind_eq_some_iff.1 h
  obtain ⟨description, -, h⟩ := Option.bind_eq_some_iff.1 h
  obtain ⟨parameters, hparameters, h⟩ := Option.bind_eq_some_iff.1 h
  obtain ⟨order, -, h⟩ := Option.bind_eq_some_iff.1 h
  obtain ⟨request, -, h⟩ := Option.bind_eq_some_iff.1 h
  obtain ⟨response, -, h⟩ := Option.bind_eq_some_iff.1 h
  cases h
  obtain ⟨hsorted, -⟩ := Json.Record.of_field?_dict hparameters
  refine ⟨List.pairwise_map.2 hsorted, fun e he => ?_⟩
  obtain ⟨_, -, rfl⟩ := List.mem_map.1 he
  rfl

namespace InsertTemplate

variable {set : SchemaSet} {m : Method} {root : Schema} {requiredOnly extended : Bool} {t : InsertTemplate}
  {table : String}

theorem nodup_parameterColumns (hm : m.KeepsNames) : (parameterColumns m extended requiredOnly).Nodup := by
  have hkeys : (Dict.values m.parameters).map (·.name) = Dict.keys m.parameters := by
    rw [Dict.values, Dict.keys, List.map_map]
    exact List.map_congr_left hm.name_eq
  refine List.Nodup.sublist (List.Sublist.map _ List.filter_sublist) ?_
  rw [hkeys]
  exact hm.sorted.nodup_keys

theorem requiredNames_subset (hm : m.KeepsNames) {name : String} (h : name ∈ m.requiredNames) :
    name ∈ parameterColumns m extended requiredOnly := by
  obtain ⟨e, he, rfl⟩ := List.mem_map.1 h
  obtain ⟨he, hrequired⟩ := List.mem_filter.1 he
  refine List.mem_map.2 ⟨e.2, List.mem_filter.2 ⟨List.mem_map_of_mem he, ?_⟩, hm.name_eq e he⟩
  rw [hrequired, Bool.or_true]

/-- **A template has a column for what the method needs.** It has one for each required parameter, and for
each required field that the caller may set it has one exactly if the field has something to fill in, or a
parameter in the template is named like the column of the field. No column stands twice, unless it is that of
a parameter and of a field, and each value has slots of its own column only. -/
theorem has_required_columns (hm : m.KeepsNames) (hroot : Dict.Sorted root.properties)
    (h : make table m set (some root) [] extended requiredOnly = .ok t) :
    (∀ name ∈ m.requiredNames, name ∈ t.columns) ∧
    (∀ key handle, (key, handle) ∈ root.properties → set.isOutputOnly handle = false →
      key ∈ set.requiredKeys root m.id →
      (bodyMark ++ key ∈ t.columns ↔
        set.HasSlot root handle ∨ bodyMark ++ key ∈ parameterColumns m extended requiredOnly)) ∧
    (t.columns.Nodup ↔ ∀ column ∈ parameterColumns m extended requiredOnly,
      column ∉ fieldColumns set m requiredOnly root) ∧
    ∀ e ∈ t.entries, e.value.BelongsTo e.column := by
  rw [columns_of_make h]
  refine ⟨fun name hname => List.mem_append_left _ (requiredNames_subset hm hname), ?_, ?_,
    fun e => belongsTo_of_make h⟩
  · intro key handle hkey hsettable hneeded
    obtain ⟨handle', s, hkey', hs, hmethod⟩ := SchemaSet.mem_requiredKeys.1 hneeded
    obtain rfl : handle' = handle :=
      Option.some.inj ((hroot.find?_of_mem hkey').symm.trans (hroot.find?_of_mem hkey))
    rw [List.mem_append, or_comm]
    refine or_congr_left ?_
    rw [mem_fieldColumns]
    constructor
    · rintro ⟨key', h', _, hmem, -, -, -, hcolumn, hslot⟩
      obtain rfl : key = key' := (String.append_right_inj bodyMark).1 hcolumn
      obtain rfl : handle' = h' :=
        Option.some.inj ((hroot.find?_of_mem hkey).symm.trans (hroot.find?_of_mem hmem))
      exact hslot
    · exact fun hslot => ⟨key, handle', s, hkey, hsettable, hs, fun _ => hmethod, rfl, hslot⟩
  · rw [List.nodup_append, and_iff_right (nodup_parameterColumns hm),
      and_iff_right (nodup_fieldColumns hroot)]
    exact ⟨fun hne column hp hf => hne column hp column hf rfl,
      fun hnot column hp other hf heq => hnot column hp (heq ▸ hf)⟩

end InsertTemplate

namespace Sample

/-- Inserts a network. -/
def networkInsert : Method :=
  (method "insert" "projects/{project}/networks" "POST"
    [parameter "dryRun" .query false, parameter "project" .path true] (some "Network") none).2

/-- Inserts a network with a parameter that is named like the column of a field. -/
def routedInsert : Method :=
  { networkInsert with parameters := [parameter "data__routing" .query true] }

/-- A field that `networkInsert` needs. -/
def neededField (kind : String) (properties : List (String × SchemaHandle)) : SchemaHandle :=
  .inline (schema "" kind properties none ["compute.networks.insert"])

/-- A network with labels, whose keys are not known, and with its routing. -/
def labelledNetwork : Schema :=
  schema "Network" "object"
    [("labels", neededField "object" []), ("routing", neededField "object" [("mode", text)])] none []

theorem sorted_labelledNetwork : Dict.Sorted labelledNetwork.properties :=
  List.pairwise_pair.2 (by decide)

theorem keepsNames_networkInsert : networkInsert.KeepsNames :=
  ⟨List.pairwise_pair.2 (by decide), by decide⟩

end Sample

namespace InsertTemplate

open Sample

example : fieldColumns [] networkInsert true labelledNetwork = ["data__routing"] := by
  decide +kernel

/-- There are columns for the project and the routing. -/
theorem has_required_columns_routing :
    ∃ t, make "networks" networkInsert [] (some labelledNetwork) [] true true = .ok t ∧
      "project" ∈ t.columns ∧ bodyMark ++ "routing" ∈ t.columns ∧ t.columns.Nodup ∧
      ∀ e ∈ t.entries, e.value.BelongsTo e.column := by
  obtain ⟨t, h⟩ : ∃ t, make "networks" networkInsert [] (some labelledNetwork) [] true true = .ok t :=
    ⟨_, rfl⟩
  obtain ⟨hparameters, hfields, hnodup, hvalues⟩ :=
    has_required_columns keepsNames_networkInsert sorted_labelledNetwork h
  have hslot : SchemaSet.HasSlot [] labelledNetwork (neededField "object" [("mode", Sample.text)]) := by
    refine ⟨[_, Sample.text], .property rfl rfl List.mem_cons_self rfl (.plain rfl rfl rfl), .inr ⟨?_, ?_⟩⟩
    · exact ⟨List.nodup_nil, nofun⟩
    · decide
  refine ⟨t, h, hparameters _ ?_, (hfields _ _ ?_ rfl ?_).2 (.inl hslot), hnodup.2 ?_, hvalues⟩
  · decide
  · exact List.mem_cons_of_mem _ List.mem_cons_self
  · decide
  · decide

/-- The method needs the labels, and the template has no column for them. A parameter with the column of a
field as its name stands twice. -/
theorem not_has_required_columns_labels :
    (∃ t, make "networks" networkInsert [] (some labelledNetwork) [] true true = .ok t ∧
      ("labels", neededField "object" []) ∈ labelledNetwork.properties ∧
      SchemaSet.isOutputOnly [] (neededField "object" []) = false ∧
      "labels" ∈ SchemaSet.requiredKeys [] labelledNetwork networkInsert.id ∧
      bodyMark ++ "labels" ∉ t.columns) ∧
    ∃ t, make "networks" routedInsert [] (some labelledNetwork) [] true true = .ok t ∧
      ¬t.columns.Nodup :=
  ⟨⟨_, rfl, List.mem_cons_self, rfl, by decide, by decide⟩, _, rfl, by decide⟩

end InsertTemplate
end RestSql
