import RestSql.Proofs.JsonValues
import RestSql.Proofs.SentBody

/-!
# Fields that a method needs

A property is enforced if no body without it passes the check against the schema. The document says by
annotations which properties a method needs. Those of a property that is described in place are found
again by the check. A property that refers to a named schema is enforced by the annotations of that
schema, and what its own description says is lost.
-/

namespace RestSql

/-! ## Keys that a check needs -/

namespace SchemaSet

variable {set : SchemaSet} {s : Schema} {method key : String}

theorem mem_requiredKeys : key ∈ set.requiredKeys s method ↔
    ∃ h t, (key, h) ∈ s.properties ∧ set.resolve? h = some t ∧ method ∈ t.required := by
  have hneeds {h : SchemaHandle} :
      ((set.resolve? h).map fun t => t.isRequired method).getD false = true ↔
        ∃ t, set.resolve? h = some t ∧ method ∈ t.required := by
    cases set.resolve? h <;> simp [Schema.isRequired]
  simp only [requiredKeys, List.mem_map, List.mem_filter, Prod.exists, hneeds]
  constructor
  · rintro ⟨_, h, ⟨hmem, t, ht, hmethod⟩, rfl⟩
    exact ⟨h, t, hmem, ht, hmethod⟩
  · rintro ⟨h, t, hmem, ht, hmethod⟩
    exact ⟨key, h, ⟨hmem, t, ht, hmethod⟩, rfl⟩

theorem requiredKeys_of_checkPayload {payload : Fields}
    (h : set.checkPayload s method payload = .ok ()) :
    ∀ key ∈ set.requiredKeys s method, key ∈ Dict.keys payload := by
  obtain ⟨-, -, hkeys⟩ := bind_eq_ok.1 h
  exact checkKeys_ok.1 hkeys

/-- Null passes for every known key. -/
theorem checkFields_nulls {keys : List String} (h : ∀ key ∈ keys, (set.keySchema? s key).isSome) :
    set.checkFields method s (keys.map (·, Json.null)) = .ok () := by
  induction keys with
  | nil => rfl
  | cons key keys ih =>
      obtain ⟨sub, hsub⟩ := Option.isSome_iff_exists.1 (h key List.mem_cons_self)
      simp only [List.map_cons, checkFields, hsub]
      exact ih fun key hkey => h key (List.mem_cons_of_mem _ hkey)

/-- A key is needed exactly if every body without it is refused: the body that has the needed keys and
no others is not. -/
theorem refused_without_iff (hs : Dict.Sorted s.properties) :
    (∀ payload : Fields, key ∉ Dict.keys payload → set.checkPayload s method payload ≠ .ok ()) ↔
      key ∈ set.requiredKeys s method := by
  constructor
  · intro hrefused
    refine Decidable.by_contra fun hkey => ?_
    let payload : Fields := (set.requiredKeys s method).map (·, Json.null)
    have hkeys : Dict.keys payload = set.requiredKeys s method := by
      simp only [Dict.keys, payload, List.map_map]
      exact List.map_id _
    refine hrefused payload (by rwa [hkeys]) (bind_eq_ok.2 ⟨(), ?_, ?_⟩)
    · refine checkFields_nulls fun key hkey => ?_
      obtain ⟨h, t, hmem, ht, -⟩ := mem_requiredKeys.1 hkey
      have hproperty : set.property? s key = some t := by
        rw [property?, hs.find?_of_mem hmem, Option.bind_some, ht]
      rw [keySchema?, hproperty]
      rfl
    · rw [checkKeys_ok, hkeys]
      exact fun _ => id
  · intro hkey payload hmissing hok
    exact hmissing (requiredKeys_of_checkPayload hok key hkey)

end SchemaSet

/-! ## Properties in their description -/

namespace Schema

/-- The handle that a description becomes. -/
def handleOf (v : Json) : SchemaHandle :=
  (ref? v).getD (.inline (ofJson "" v))

theorem handlesIn_eq (properties : List (String × Json)) :
    handlesIn properties = properties.map fun e => (e.1, handleOf e.2) := by
  induction properties with
  | nil => rfl
  | cons e properties ih =>
      obtain ⟨key, v⟩ := e
      rw [handlesIn, ih]
      rfl

theorem propertiesIn_eq {fields : Fields} {properties : Fields}
    (h : Dict.find? fields "properties" = some (.object properties)) :
    propertiesIn fields = handlesIn properties := by
  induction fields with
  | nil => cases h
  | cons e fields ih =>
      obtain ⟨key, v⟩ := e
      rw [Dict.find?] at h
      by_cases hkey : key = "properties"
      · rw [if_pos hkey] at h
        cases h
        simp only [propertiesIn, if_pos hkey]
      · rw [if_neg hkey] at h
        rw [← ih h]
        cases v <;> exact if_neg hkey

/-- The description of a property. -/
def described? (S : Json) (key : String) : Option Json :=
  (S.field? "properties").bind (·.field? key)

theorem required_ofJson (id : String) (v : Json) : (ofJson id v).required = requiredBy v := by
  cases v <;> rfl

theorem properties_of_described {S v : Json} {key : String} (h : described? S key = some v) :
    ∃ fields properties : Fields, S = .object fields ∧
      Dict.find? fields "properties" = some (.object properties) ∧
      Dict.find? properties key = some v ∧
      ∀ id, (ofJson id S).properties = properties.map fun e => (e.1, handleOf e.2) := by
  obtain ⟨w, hw, hv⟩ := Option.bind_eq_some_iff.1 h
  cases S with
  | object fields =>
      cases w with
      | object properties =>
          refine ⟨fields, properties, rfl, hw, hv, fun id => ?_⟩
          rw [← handlesIn_eq, ← propertiesIn_eq hw]
          rfl
      | _ => cases hv
  | _ => cases hw

end Schema

/-! ## Documents -/

namespace Json

/-- The value is the other one, or stands somewhere in it. -/
inductive PartOf (v : Json) : Json → Prop
  | self : PartOf v v
  | item {w : Json} {items : List Json} (hw : w ∈ items) (h : PartOf v w) : PartOf v (.array items)
  | field {w : Json} {key : String} {fields : Fields} (hw : (key, w) ∈ fields) (h : PartOf v w) :
    PartOf v (.object fields)

theorem areWellFormed_iff {items : List Json} :
    areWellFormed items = true ↔ ∀ v ∈ items, v.isWellFormed = true := by
  induction items with
  | nil => simp [areWellFormed]
  | cons v items ih => simp [areWellFormed, ih]

theorem PartOf.isWellFormed {v w : Json} (h : PartOf v w) (hw : w.isWellFormed = true) :
    v.isWellFormed = true := by
  induction h with
  | self => exact hw
  | item hmem _ ih => exact ih (areWellFormed_iff.1 hw _ hmem)
  | field hmem _ ih => exact ih ((isWellFormed_object.1 hw).2 _ hmem)

end Json

namespace Document

variable {d : Document}

theorem isWellFormed_of_dict? {depth : Nat} {t : Json.Tree} {fields : Fields}
    (h : Json.Decoder.dict Json.Decoder.value depth t = some fields) :
    ∀ e ∈ fields, e.2.isWellFormed = true := by
  unfold Json.Decoder.dict at h
  split at h
  · cases h
  · next depth members =>
    obtain ⟨entries, hentries, hfields⟩ := Option.bind_eq_some_iff.1 h
    cases hfields
    clear h
    intro e he
    replace he := Dict.mem_ofEntries he
    induction members generalizing entries with
    | nil =>
        cases hentries
        cases he
    | cons m members ih =>
        rw [List.mapM_cons] at hentries
        simp only [Option.bind_eq_bind, Option.bind_eq_some_iff, Option.pure_def,
          Option.some.injEq] at hentries
        obtain ⟨_, ⟨key, -, v, hvalue, rfl⟩, rest, hrest, rfl⟩ := hentries
        rcases List.mem_cons.1 he with rfl | he
        · exact Json.isWellFormed_of_value? hvalue
        · exact ih rest hrest he
  · cases h

/-- The schemas of a document are read from its text. -/
theorem isWellFormed_of_ofText? {text : String} (h : ofText? text = some d) :
    ∀ e ∈ d.schemas, e.2.isWellFormed = true := by
  obtain ⟨t, -, hd⟩ := Option.bind_eq_some_iff.1 h
  simp only [decoder, Option.bind_eq_bind, Option.bind_eq_some_iff, Option.pure_def,
    Option.some.injEq] at hd
  obtain ⟨r, -, _, -, _, -, _, -, _, -, _, -, _, -, _, -, _, -, _, -, _, -, schemas, hs, rfl⟩ := hd
  unfold Json.Record.field? at hs
  split at hs
  · exact isWellFormed_of_dict? hs
  · cases hs
    exact List.forall_mem_nil _

theorem find?_schemaSet (d : Document) (name : String) :
    Dict.find? d.schemaSet name = (Dict.find? d.schemas name).map (Schema.ofJson name) := by
  unfold schemaSet
  induction d.schemas with
  | nil => rfl
  | cons e rest ih =>
      obtain ⟨key, v⟩ := e
      rw [List.map_cons, Dict.find?, Dict.find?]
      by_cases hkey : key = name
      · rw [if_pos hkey, if_pos hkey, hkey]
        rfl
      · rw [if_neg hkey, if_neg hkey]
        exact ih

/-- The description whose annotations count for a property: its own, or that of the schema that it refers
to. -/
def counted (d : Document) (v : Json) : Json :=
  match v.textField? "$ref" with
  | none => v
  | some name => (Dict.find? d.schemas name).getD .null

theorem resolve?_handleOf {v : Json} {method : String} :
    (∃ t, d.schemaSet.resolve? (Schema.handleOf v) = some t ∧ method ∈ t.required) ↔
      method ∈ Schema.requiredBy (d.counted v) := by
  unfold counted Schema.handleOf Schema.ref?
  cases v.textField? "$ref" with
  | none =>
      simp only [Option.map_none, Option.getD_none, SchemaSet.resolve?, Option.some.injEq,
        exists_eq_left', Schema.required_ofJson]
  | some name =>
      simp only [Option.map_some, Option.getD_some, SchemaSet.resolve?, find?_schemaSet]
      cases Dict.find? d.schemas name with
      | none => simp [Schema.requiredBy, Json.field?, Json.fields?]
      | some w => simp [Schema.required_ofJson]

/-- A property is enforced exactly by the annotations that count for it, in every schema of a document and
for every method. -/
theorem enforces_iff {text : String} (hd : ofText? text = some d) {name : String} {w S v : Json}
    (hw : (name, w) ∈ d.schemas) (hS : S.PartOf w) {key : String}
    (hv : Schema.described? S key = some v) (id method : String) :
    (∀ payload : Fields, key ∉ Dict.keys payload →
      d.schemaSet.checkPayload (Schema.ofJson id S) method payload ≠ .ok ()) ↔
      method ∈ Schema.requiredBy (d.counted v) := by
  obtain ⟨fields, properties, rfl, hproperties, hkey, heq⟩ := Schema.properties_of_described hv
  have hsorted : Dict.Sorted properties := by
    have hfields := hS.isWellFormed (isWellFormed_of_ofText? hd _ hw)
    have hmem := Dict.mem_of_find? hproperties
    exact (Json.isWellFormed_object.1 ((Json.isWellFormed_object.1 hfields).2 _ hmem)).1
  have hsortedHandles : Dict.Sorted (Schema.ofJson id (.object fields)).properties := by
    rw [heq]
    exact List.pairwise_map.2 hsorted
  rw [SchemaSet.refused_without_iff hsortedHandles, SchemaSet.mem_requiredKeys, heq,
    ← resolve?_handleOf]
  constructor
  · rintro ⟨h, t, hmem, ht, hmethod⟩
    obtain ⟨e, he, ⟨⟩⟩ := List.mem_map.1 hmem
    obtain rfl : v = e.2 := Option.some.inj (hkey.symm.trans (hsorted.find?_of_mem he))
    exact ⟨t, ht, hmethod⟩
  · rintro ⟨t, ht, hmethod⟩
    exact ⟨_, t, List.mem_map.2 ⟨(key, v), Dict.mem_of_find? hkey, rfl⟩, ht, hmethod⟩

end Document

namespace Sample

/-- A document with a schema two properties of which are needed, one of them by reference. -/
def needsText : String :=
  "\x7b\"schemas\":\x7b\"S\":\x7b\"properties\":\x7b" ++
    "\"p\":\x7b\"$ref\":\"T\",\"annotations\":\x7b\"required\":[\"m\"]\x7d\x7d," ++
    "\"q\":\x7b\"annotations\":\x7b\"required\":[\"m\"]\x7d\x7d\x7d\x7d," ++
    "\"T\":\x7b\x7d\x7d\x7d"

theorem isSome_needs : (Document.ofText? needsText).isSome = true := by decide +kernel

def needs : Document := (Document.ofText? needsText).get isSome_needs

def needsSchema : Json := (Dict.find? needs.schemas "S").getD .null

def needsProperty (key : String) : Json := (Schema.described? needsSchema key).getD .null

theorem needs_read :
    ((Dict.find? needs.schemas "S").isSome ∧ (Schema.described? needsSchema "p").isSome ∧
      (Schema.described? needsSchema "q").isSome) ∧
    "m" ∈ Schema.requiredBy (needsProperty "p") ∧
    "m" ∈ Schema.requiredBy (needs.counted (needsProperty "q")) ∧
    (needs.schemaSet.checkPayload (Schema.ofJson "S" needsSchema) "m"
      [("q", .null)]).toOption = some () := by
  decide +kernel

theorem ofText?_needs : Document.ofText? needsText = some needs :=
  (Option.some_get isSome_needs).symm

theorem mem_needs : ("S", needsSchema) ∈ needs.schemas := by
  obtain ⟨w, hw⟩ := Option.isSome_iff_exists.1 needs_read.1.1
  have hschema : needsSchema = w := by rw [needsSchema, hw, Option.getD_some]
  rw [hschema]
  exact Dict.mem_of_find? hw

theorem described_needs {key : String} (h : (Schema.described? needsSchema key).isSome = true) :
    Schema.described? needsSchema key = some (needsProperty key) := by
  obtain ⟨v, hv⟩ := Option.isSome_iff_exists.1 h
  rw [needsProperty, hv, Option.getD_some]

end Sample

namespace Document

open Sample

/-- The property that is described in place is enforced. -/
theorem enforces_iff_needs :
    ofText? needsText = some needs ∧ ("S", needsSchema) ∈ needs.schemas ∧
      Schema.described? needsSchema "q" = some (needsProperty "q") ∧
      ∀ payload : Fields, "q" ∉ Dict.keys payload →
        needs.schemaSet.checkPayload (Schema.ofJson "S" needsSchema) "m" payload ≠ .ok () := by
  have hq := described_needs needs_read.1.2.2
  refine ⟨ofText?_needs, mem_needs, hq, ?_⟩
  exact (enforces_iff ofText?_needs mem_needs .self hq "S" "m").2 needs_read.2.2.1

/-- The property that refers to another schema is annotated, too, and not enforced. -/
theorem not_enforces_annotated : ¬∀ (text : String) (d : Document) (name : String) (S v : Json)
    (key method : String) (payload : Fields), ofText? text = some d → (name, S) ∈ d.schemas →
    Schema.described? S key = some v → method ∈ Schema.requiredBy v → key ∉ Dict.keys payload →
    d.schemaSet.checkPayload (Schema.ofJson name S) method payload ≠ .ok () := by
  intro h
  obtain ⟨⟨-, hp, -⟩, hannotated, -, haccepted⟩ := needs_read
  exact h needsText needs "S" needsSchema (needsProperty "p") "p" "m" [("q", .null)] ofText?_needs
    mem_needs (described_needs hp) hannotated (by decide) (eq_ok_of_toOption haccepted)

end Document
end RestSql
