import RestSql.Proofs.Conformance
import RestSql.Proofs.RequiredFields

/-!
# What the check of a body comes to

A body is in order if every value in it, however deep, is one that the schema at its place admits. The
check goes into all fields of an object, and of an array into the first item at most. It passes exactly if
each value that it comes to passes (`SchemaSet.checkPayload_ok`). So a body that it accepts is in order
exactly if the items that it passes over are, and if no empty object stands where none is described.
-/

namespace RestSql

/-! ## Places in a value -/

namespace Json

/-- The items of an array that the check goes into: the first one, if it is an object or a text. -/
def lookedAt : List Json → List Json
  | .object fields :: _ => [.object fields]
  | .string s :: _ => [.string s]
  | _ => []

/-- The items of an array that the check passes over. -/
def passedOver : List Json → List Json
  | .object _ :: rest => rest
  | .string _ :: rest => rest
  | items => items

theorem lookedAt_append_passedOver (items : List Json) :
    lookedAt items ++ passedOver items = items := by
  unfold lookedAt passedOver
  split <;> rfl

theorem mem_of_lookedAt {items : List Json} {v : Json} (h : v ∈ lookedAt items) : v ∈ items :=
  lookedAt_append_passedOver items ▸ List.mem_append_left _ h

theorem mem_of_passedOver {items : List Json} {v : Json} (h : v ∈ passedOver items) : v ∈ items :=
  lookedAt_append_passedOver items ▸ List.mem_append_right _ h

end Json

/-- Objects may stand at the schema: it has properties or says what the values of a map are. -/
def Schema.describesObject (s : Schema) : Bool :=
  s.isObject || s.additional.isSome

namespace SchemaSet

variable (set : SchemaSet)

/-- The schema for the value of a key: that of the property, and where there is none that of the values
of a map. -/
inductive KeySchema (s : Schema) (key : String) : Schema → Prop
  | property {t : Schema} (h : set.property? s key = some t) : KeySchema s key t
  | additional {t : Schema} (hnone : set.property? s key = none)
      (h : s.additional.bind set.resolve? = some t) : KeySchema s key t

/-- The method needs the property. -/
def Needs (method : String) (s : Schema) (key : String) : Prop :=
  ∃ h t, (key, h) ∈ s.properties ∧ set.resolve? h = some t ∧ method ∈ t.required

/-- The value `w` stands at the schema `u` somewhere in the value `v` at the schema `t`. Only schemas that
ask something of their values are gone into, and of arrays only the items that are chosen. -/
inductive Stands (asks : Schema → Prop) (chosen : List Json → List Json) :
    Schema → Json → Schema → Json → Prop
  | self (t : Schema) (v : Json) : Stands asks chosen t v t v
  | field {t sub u : Schema} {key : String} {v w : Json} {fields : Fields} (hasks : asks t)
      (hv : (key, v) ∈ fields) (hsub : set.KeySchema t key sub) (h : Stands asks chosen sub v u w) :
      Stands asks chosen t (.object fields) u w
  | item {t sub u : Schema} {v w : Json} {items : List Json} (hasks : asks t)
      (hv : v ∈ chosen items) (hsub : set.items? t = some sub) (h : Stands asks chosen sub v u w) :
      Stands asks chosen t (.array items) u w

/-- What a schema asks of a value, apart from the values in it. -/
def Admits (method : String) (s : Schema) : Json → Prop
  | .null => True
  | .bool _ => s.kind = "boolean"
  | .string _ => s.kind = "string"
  | .number (.integer _) => s.kind = "integer" ∨ s.kind = "number"
  | .number (.float _) => s.kind = "number"
  | .array _ => s.items.isSome
  | .object fields => s.describesObject ∧ (∀ key ∈ Dict.keys fields, (s.keyHandle? key).isSome) ∧
      ∀ key, set.Needs method s key → key ∈ Dict.keys fields

/-- Every value that stands anywhere in `v` is admitted by the schema at its place, if that asks
anything. -/
def AdmitsAll (asks : Schema → Prop) (method : String) (s : Schema) (v : Json) : Prop :=
  ∀ u w, set.Stands asks id s v u w → asks u → set.Admits method u w

/-- What the check asks of a value, apart from the values in it: as `Admits`, but of an object not that
objects are described, and of keys and items that their schemas are there. -/
def Passes (method : String) (s : Schema) : Json → Prop
  | .array _ => (set.items? s).isSome
  | .object fields => (∀ key ∈ Dict.keys fields, ∃ t, set.KeySchema s key t) ∧
      ∀ key, set.Needs method s key → key ∈ Dict.keys fields
  | v => set.Admits method s v

/-- The check comes to the value `w` at the schema `u`. -/
abbrev Visits : Schema → Json → Schema → Json → Prop :=
  set.Stands (fun _ => True) Json.lookedAt

/-- Every value passes that the check comes to. -/
def PassesAll (method : String) (s : Schema) (v : Json) : Prop :=
  ∀ u w, set.Visits s v u w → set.Passes method u w

/-- The value `w` is an item for the schema `u` that the check passes over. -/
def Misses (asks : Schema → Prop) (s : Schema) (v : Json) (u : Schema) (w : Json) : Prop :=
  ∃ t items, set.Stands asks Json.lookedAt s v t (.array items) ∧ asks t ∧ set.items? t = some u ∧
    w ∈ Json.passedOver items

variable {set} {asks : Schema → Prop} {chosen : List Json → List Json} {method key : String}
  {s t u : Schema} {v w : Json}

theorem keySchema?_eq_some : set.keySchema? s key = some t ↔ set.KeySchema s key t := by
  unfold keySchema?
  constructor
  · intro h
    split at h
    · next hproperty =>
      cases h
      exact .property hproperty
    · next hnone => exact .additional hnone h
  · rintro (h | ⟨hnone, h⟩)
    · rw [h]
    · rw [hnone]
      exact h

theorem KeySchema.unique (h : set.KeySchema s key t) (h' : set.KeySchema s key u) : t = u :=
  Option.some.inj ((keySchema?_eq_some.2 h).symm.trans (keySchema?_eq_some.2 h'))

theorem KeySchema.keyHandle? (h : set.KeySchema s key t) : (s.keyHandle? key).isSome := by
  unfold Schema.keyHandle?
  cases h with
  | property h =>
      obtain ⟨handle, hfind, -⟩ := Option.bind_eq_some_iff.1 h
      rw [hfind]
      rfl
  | additional hnone h =>
      obtain ⟨handle, hadditional, -⟩ := Option.bind_eq_some_iff.1 h
      rw [hadditional]
      cases Dict.find? s.properties key <;> rfl

theorem KeySchema.describesObject (h : set.KeySchema s key t) : s.describesObject = true := by
  unfold Schema.describesObject Schema.isObject
  cases h with
  | property h =>
      obtain ⟨handle, hfind, -⟩ := Option.bind_eq_some_iff.1 h
      have hne : s.properties ≠ [] := List.ne_nil_of_mem (Dict.mem_of_find? hfind)
      simp [hne]
  | additional hnone h =>
      obtain ⟨handle, hadditional, -⟩ := Option.bind_eq_some_iff.1 h
      simp [hadditional]

/-! ## Values and the values in them -/

theorem Stands.trans {r : Schema} {x : Json} (h : set.Stands asks chosen s v t w)
    (h' : set.Stands asks chosen t w r x) : set.Stands asks chosen s v r x := by
  induction h with
  | self => exact h'
  | field hasks hv hsub _ ih => exact .field hasks hv hsub (ih h')
  | item hasks hv hsub _ ih => exact .item hasks hv hsub (ih h')

theorem Stands.of_lookedAt (h : set.Stands asks Json.lookedAt s v t w) :
    set.Stands asks id s v t w := by
  induction h with
  | self => exact .self _ _
  | field hasks hv hsub _ ih => exact .field hasks hv hsub ih
  | item hasks hv hsub _ ih => exact .item hasks (Json.mem_of_lookedAt hv) hsub ih

theorem Stands.visits (h : set.Stands asks Json.lookedAt s v t w) : set.Visits s v t w := by
  induction h with
  | self => exact .self _ _
  | field _ hv hsub _ ih => exact .field trivial hv hsub ih
  | item _ hv hsub _ ih => exact .item trivial hv hsub ih

theorem forall_stands_object {fields : Fields} {P : Schema → Json → Prop} :
    (∀ u w, set.Stands asks chosen s (.object fields) u w → P u w) ↔
      P s (.object fields) ∧ (asks s → ∀ key v sub, (key, v) ∈ fields → set.KeySchema s key sub →
        ∀ u w, set.Stands asks chosen sub v u w → P u w) := by
  constructor
  · intro h
    refine ⟨h _ _ (.self _ _), fun hasks key v sub hv hsub u w hw => ?_⟩
    exact h u w (.field hasks hv hsub hw)
  · rintro ⟨hself, hfields⟩ u w (_ | ⟨hasks, hv, hsub, hw⟩)
    · exact hself
    · exact hfields hasks _ _ _ hv hsub u w hw

theorem forall_stands_array {items : List Json} {P : Schema → Json → Prop} :
    (∀ u w, set.Stands asks chosen s (.array items) u w → P u w) ↔
      P s (.array items) ∧ (asks s → ∀ v sub, v ∈ chosen items → set.items? s = some sub →
        ∀ u w, set.Stands asks chosen sub v u w → P u w) := by
  constructor
  · intro h
    refine ⟨h _ _ (.self _ _), fun hasks v sub hv hsub u w hw => ?_⟩
    exact h u w (.item hasks hv hsub hw)
  · rintro ⟨hself, hitems⟩ u w (_ | _ | ⟨hasks, hv, hsub, hw⟩)
    · exact hself
    · exact hitems hasks _ _ hv hsub u w hw

theorem forall_stands_plain {P : Schema → Json → Prop} (hfields : v.fields? = none)
    (hitems : v.items? = none) :
    (∀ u w, set.Stands asks chosen s v u w → P u w) ↔ P s v := by
  constructor
  · exact fun h => h _ _ (.self _ _)
  · rintro hself u w (_ | _ | _)
    · exact hself
    · cases hfields
    · cases hitems

theorem Stands.visits_or_misses (h : set.Stands asks id s v u w) :
    set.Stands asks Json.lookedAt s v u w ∨
      ∃ t x, set.Misses asks s v t x ∧ set.Stands asks id t x u w := by
  induction h with
  | self => exact .inl (.self _ _)
  | field hasks hv hsub _ ih =>
      refine ih.imp (.field hasks hv hsub) ?_
      rintro ⟨t, x, ⟨r, items, hr, hmiss⟩, hx⟩
      exact ⟨t, x, ⟨r, items, .field hasks hv hsub hr, hmiss⟩, hx⟩
  | @item t sub u v w items hasks hv hsub h ih =>
      rw [← Json.lookedAt_append_passedOver items, id, List.mem_append] at hv
      rcases hv with hv | hv
      · refine ih.imp (.item hasks hv hsub) ?_
        rintro ⟨t, x, ⟨r, items, hr, hmiss⟩, hx⟩
        exact ⟨t, x, ⟨r, items, .item hasks hv hsub hr, hmiss⟩, hx⟩
      -- the item is passed over, with all that stands in it
      · exact .inr ⟨sub, v, ⟨t, items, .self _ _, hasks, hsub, hv⟩, h⟩

/-! ## What passes -/

theorem ok_or_error_eq_ok {ε : Type} {ok : Bool} {e : ε} :
    (if ok then .ok () else .error e) = (.ok () : Except ε Unit) ↔ ok = true := by
  cases ok
  · exact iff_of_false nofun nofun
  · exact iff_of_true rfl rfl

theorem checkKind_ok {kind : String} {ok : Bool} : checkKind key kind ok = .ok () ↔ ok = true :=
  ok_or_error_eq_ok

theorem passesAll_object {fields : Fields} :
    set.PassesAll method s (.object fields) ↔
      (∀ e ∈ fields, ∃ t, set.KeySchema s e.1 t ∧ set.PassesAll method t e.2) ∧
        ∀ key, set.Needs method s key → key ∈ Dict.keys fields := by
  unfold PassesAll
  rw [forall_stands_object]
  constructor
  · rintro ⟨⟨hkeys, hneeds⟩, hfields⟩
    refine ⟨fun e he => ?_, hneeds⟩
    obtain ⟨t, ht⟩ := hkeys e.1 (List.mem_map_of_mem he)
    exact ⟨t, ht, hfields trivial e.1 e.2 t he ht⟩
  · rintro ⟨hfields, hneeds⟩
    refine ⟨⟨fun key hkey => ?_, hneeds⟩, fun _ key v sub hv hsub => ?_⟩
    · obtain ⟨e, he, rfl⟩ := List.mem_map.1 hkey
      obtain ⟨t, ht, -⟩ := hfields e he
      exact ⟨t, ht⟩
    · obtain ⟨t, ht, hpasses⟩ := hfields _ hv
      cases hsub.unique ht
      exact hpasses

theorem passesAll_array {items : List Json} :
    set.PassesAll method s (.array items) ↔
      ∃ t, set.items? s = some t ∧ ∀ v ∈ Json.lookedAt items, set.PassesAll method t v := by
  unfold PassesAll
  rw [forall_stands_array]
  constructor
  · rintro ⟨hitems, hlooked⟩
    obtain ⟨t, ht⟩ := Option.isSome_iff_exists.1 hitems
    exact ⟨t, ht, fun v hv => hlooked trivial v t hv ht⟩
  · rintro ⟨t, ht, hlooked⟩
    refine ⟨Option.isSome_of_eq_some ht, fun _ v sub hv hsub => ?_⟩
    cases ht.symm.trans hsub
    exact hlooked v hv

theorem passesAll_plain (hfields : v.fields? = none) (hitems : v.items? = none) :
    set.PassesAll method s v ↔ set.Admits method s v := by
  unfold PassesAll
  rw [forall_stands_plain hfields hitems]
  cases v with
  | object => cases hfields
  | array => cases hitems
  | _ => exact Iff.rfl

theorem checkKeys_ok_iff_needs {fields : Fields} :
    set.checkKeys s method (Dict.keys fields) = .ok () ↔
      ∀ key, set.Needs method s key → key ∈ Dict.keys fields := by
  rw [checkKeys_ok]
  simp only [mem_requiredKeys]
  exact Iff.rfl

theorem exists_keySchema_and {P : Schema → Prop} :
    (∃ t, set.KeySchema s key t ∧ P t) ↔ ∃ t, set.keySchema? s key = some t ∧ P t := by
  simp only [keySchema?_eq_some]

theorem exists_some_eq_and {α : Type} {a : α} {P : α → Prop} : (∃ b, some a = some b ∧ P b) ↔ P a := by
  simp

theorem not_exists_none_eq_and {α : Type} {P : α → Prop} : ¬∃ b, (none : Option α) = some b ∧ P b := by
  simp

theorem checkFields_bind_ok {fields : Fields}
    (h : set.checkFields method s fields = .ok () ↔
      ∀ e ∈ fields, ∃ t, set.KeySchema s e.1 t ∧ set.PassesAll method t e.2) :
    (set.checkFields method s fields >>= fun _ => set.checkKeys s method (Dict.keys fields)) = .ok () ↔
      set.PassesAll method s (.object fields) := by
  rw [passesAll_object, ← h, ← checkKeys_ok_iff_needs, bind_eq_ok]
  constructor
  · rintro ⟨_, hfields, hkeys⟩
    exact ⟨hfields, hkeys⟩
  · rintro ⟨hfields, hkeys⟩
    exact ⟨(), hfields, hkeys⟩

mutual

theorem checkValue_ok (key : String) (s : Schema) (v : Json) :
    set.checkValue method key s v = .ok () ↔ set.PassesAll method s v := by
  cases v with
  | null => exact iff_of_true rfl ((passesAll_plain rfl rfl).2 trivial)
  | bool b =>
      rw [passesAll_plain rfl rfl, checkValue, checkKind_ok]
      exact beq_iff_eq
  | string text =>
      rw [passesAll_plain rfl rfl, checkValue, checkKind_ok]
      exact beq_iff_eq
  | number n =>
      cases n with
      | float x =>
          rw [passesAll_plain rfl rfl, checkValue, checkKind_ok]
          exact beq_iff_eq
      | integer n =>
          rw [passesAll_plain rfl rfl, checkValue, checkKind_ok, Bool.or_eq_true]
          exact or_congr beq_iff_eq beq_iff_eq
  | object fields =>
      rw [checkValue]
      exact checkFields_bind_ok (checkFields_ok s fields)
  | array items =>
      rw [passesAll_array]
      cases hitems : set.items? s with
      | none =>
          refine iff_of_false (fun h => ?_) not_exists_none_eq_and
          cases items <;> rw [checkValue, hitems] at h <;> cases h
      | some t =>
          rw [exists_some_eq_and]
          -- what the array passes by is its first item, if that is an object or a text
          cases items with
          | nil =>
              rw [checkValue, hitems]
              exact iff_of_true rfl (List.forall_mem_nil _)
          | cons first rest =>
              rw [checkValue, hitems]
              cases first with
              | object fields =>
                  rw [Json.lookedAt, List.forall_mem_singleton]
                  exact checkFields_bind_ok (checkFields_ok t fields)
              | string text =>
                  rw [Json.lookedAt, List.forall_mem_singleton, passesAll_plain rfl rfl]
                  exact ok_or_error_eq_ok.trans beq_iff_eq
              | _ => exact iff_of_true rfl (List.forall_mem_nil _)

theorem checkFields_ok (s : Schema) (fields : List (String × Json)) :
    set.checkFields method s fields = .ok () ↔
      ∀ e ∈ fields, ∃ t, set.KeySchema s e.1 t ∧ set.PassesAll method t e.2 := by
  cases fields with
  | nil => exact iff_of_true rfl (List.forall_mem_nil _)
  | cons e rest =>
      obtain ⟨key, v⟩ := e
      rw [List.forall_mem_cons, ← checkFields_ok s rest, checkFields, exists_keySchema_and]
      cases hkey : set.keySchema? s key with
      | none => exact iff_of_false nofun fun h => not_exists_none_eq_and h.1
      | some t =>
          rw [exists_some_eq_and, ← checkValue_ok key t v, bind_eq_ok]
          constructor
          · rintro ⟨_, hvalue, hrest⟩
            exact ⟨hvalue, hrest⟩
          · rintro ⟨hvalue, hrest⟩
            exact ⟨(), hvalue, hrest⟩

end

/-- The check of a body passes exactly if all values pass that it comes to. -/
theorem checkPayload_ok {payload : Fields} :
    set.checkPayload s method payload = .ok () ↔ set.PassesAll method s (.object payload) :=
  checkFields_bind_ok (checkFields_ok s payload)

/-! ## What is accepted -/

/-- A value that passes is admitted, unless it is an empty object and no objects are described. -/
theorem Passes.admits (h : set.Passes method s v) (hempty : v = .object [] → s.describesObject = true) :
    set.Admits method s v := by
  cases v with
  | array items =>
      obtain ⟨t, ht⟩ := Option.isSome_iff_exists.1 h
      obtain ⟨handle, hitems, -⟩ := Option.bind_eq_some_iff.1 ht
      exact Option.isSome_of_eq_some hitems
  | object fields =>
      obtain ⟨hkeys, hneeds⟩ := h
      refine ⟨?_, fun key hkey => ?_, hneeds⟩
      · cases fields with
        | nil => exact hempty rfl
        | cons e rest =>
            obtain ⟨t, ht⟩ := hkeys e.1 List.mem_cons_self
            exact ht.describesObject
      · obtain ⟨t, ht⟩ := hkeys key hkey
        exact ht.keyHandle?
  | _ => exact h

/-- A body is accepted exactly if every value passes that the check comes to. An accepted body is in order
exactly if objects are described wherever an empty one stands and every item is in order that the check
passes over. That holds whichever schemas ask anything of their values: all of them, or all but those of
some kind. -/
theorem accepted_levels (set : SchemaSet) (method : String) (s : Schema) (payload : Fields) :
    (set.checkPayload s method payload = .ok () ↔
      ∀ u w, set.Visits s (.object payload) u w → set.Passes method u w) ∧
    (set.checkPayload s method payload = .ok () → ∀ asks : Schema → Prop,
      (set.AdmitsAll asks method s (.object payload) ↔
        (∀ u, set.Stands asks id s (.object payload) u (.object []) → asks u →
          u.describesObject = true) ∧
        ∀ u w, set.Misses asks s (.object payload) u w → set.AdmitsAll asks method u w)) := by
  refine ⟨checkPayload_ok, fun haccepted asks => ⟨fun hall => ⟨?_, ?_⟩, ?_⟩⟩
  · exact fun u hu hasks => (hall u _ hu hasks).1
  · rintro u w ⟨t, items, hitems, hasks, hu, hw⟩ r x hx
    exact hall r x (hitems.of_lookedAt.trans (.item hasks (Json.mem_of_passedOver hw) hu hx))
  · rintro ⟨hempty, hmissed⟩ u w hw hasks
    rcases hw.visits_or_misses with hvisits | ⟨t, x, hmiss, hx⟩
    · refine (checkPayload_ok.1 haccepted u w hvisits.visits).admits ?_
      rintro rfl
      exact hempty u hw hasks
    · exact hmissed t x hmiss u w hx hasks

end SchemaSet

namespace Sample

def textSchema : Schema := schema "" "string" [] none []

def labelled : Schema :=
  schema "Network" "object"
    [("labels", .inline { schema "" "object" [] none [] with additional := some (.inline textSchema) }),
      ("name", .inline textSchema),
      ("tags", .inline (schema "" "array" [] (some (.inline textSchema)) []))] none []

def labelledBody : Fields :=
  [("labels", .object [("env", .string "dev")]), ("tags", .array [.string "web"])]

end Sample

namespace SchemaSet

open Sample

theorem stands_labelledBody {set : SchemaSet} {asks : Schema → Prop} {s u : Schema} {w : Json}
    (h : set.Stands asks id s (.object labelledBody) u w) :
    w ∈ [.object labelledBody, .object [("env", .string "dev")], .array [.string "web"],
      .string "dev", .string "web"] := by
  rcases h with _ | ⟨-, hv, -, h⟩
  · simp
  · simp only [labelledBody, List.mem_cons, Prod.mk.injEq, List.not_mem_nil, or_false] at hv
    rcases hv with ⟨rfl, rfl⟩ | ⟨rfl, rfl⟩
    · rcases h with _ | ⟨-, hv, -, h⟩
      · simp
      · cases List.mem_singleton.1 hv
        rcases h with _ | _
        simp
    · rcases h with _ | _ | ⟨-, hv, -, h⟩
      · simp
      · cases List.mem_singleton.1 hv
        rcases h with _ | _
        simp

theorem accepted_levels_labelled :
    checkPayload [] labelled "insert" labelledBody = .ok () ∧
      AdmitsAll [] (fun _ => True) "insert" labelled (.object labelledBody) := by
  have haccepted : checkPayload [] labelled "insert" labelledBody = .ok () := rfl
  refine ⟨haccepted, ((accepted_levels [] "insert" labelled labelledBody).2 haccepted _).2 ⟨?_, ?_⟩⟩
  · intro u hu
    have hmem := stands_labelledBody hu
    simp [labelledBody] at hmem
  · rintro u w ⟨t, items, hitems, -, -, hw⟩
    have hmem := stands_labelledBody hitems.of_lookedAt
    simp [labelledBody] at hmem
    subst hmem
    cases hw

/-- A number among texts is accepted, and so is an empty object in place of a text. -/
theorem not_admitsAll_of_accepted :
    (checkPayload [] labelled "insert" [("tags", .array [.string "web", .ofInt 7])] = .ok () ∧
      ¬AdmitsAll [] (fun _ => True) "insert" labelled
        (.object [("tags", .array [.string "web", .ofInt 7])])) ∧
    checkPayload [] labelled "insert" [("name", .object [])] = .ok () ∧
      ¬AdmitsAll [] (fun _ => True) "insert" labelled (.object [("name", .object [])]) := by
  refine ⟨⟨rfl, fun h => ?_⟩, rfl, fun h => ?_⟩
  · have hadmits := h textSchema (.ofInt 7) (.field trivial List.mem_cons_self (.property rfl)
      (.item trivial (List.mem_cons_of_mem _ List.mem_cons_self) rfl (.self _ _))) trivial
    rcases hadmits with hkind | hkind
    · exact absurd hkind (by decide)
    · exact absurd hkind (by decide)
  · have hadmits := h textSchema (.object [])
      (.field trivial List.mem_cons_self (.property rfl) (.self _ _)) trivial
    exact absurd hadmits.1 (by decide)

end SchemaSet
end RestSql
