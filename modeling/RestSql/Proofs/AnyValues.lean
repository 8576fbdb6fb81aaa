import RestSql.Proofs.BodyLevels

/-!
# Bodies that are in order and refused

If every schema that is named exists, the check refuses a body that is in order only for what stands at a
schema of the kind `any`: it asks of that value what it would ask at a schema of an unknown kind
(`SchemaSet.accepted_iff_any`).
-/

namespace RestSql

namespace Schema

def handles (s : Schema) : List SchemaHandle :=
  s.properties.map Prod.snd ++ s.items.toList ++ s.additional.toList

/-- The schema asks something of its values: any value may stand at one of the kind `any`. -/
def Asks (s : Schema) : Prop :=
  s.kind ≠ "any"

variable {s : Schema} {h : SchemaHandle}

theorem mem_handles_of_property {key : String} (hmem : (key, h) ∈ s.properties) : h ∈ s.handles :=
  List.mem_append_left _ (List.mem_append_left _ (List.mem_map_of_mem hmem))

theorem mem_handles_of_items (hitems : s.items = some h) : h ∈ s.handles :=
  List.mem_append_left _ (List.mem_append_right _ (by simp [hitems]))

theorem mem_handles_of_additional (hadditional : s.additional = some h) : h ∈ s.handles :=
  List.mem_append_right _ (by simp [hadditional])

end Schema

namespace SchemaSet

/-! ## Names that exist -/

/-- Every schema that is named in the schema, or in one in place in it, is one of the set. -/
inductive NamesExist (set : SchemaSet) : Schema → Prop
  | intro {s : Schema}
      (hnamed : ∀ name outputOnly, .named name outputOnly ∈ s.handles → Dict.has set name = true)
      (hinline : ∀ t, .inline t ∈ s.handles → NamesExist set t) : NamesExist set s

/-- Every schema exists that one of the set names. -/
def Closed (set : SchemaSet) : Prop :=
  ∀ e ∈ set, set.NamesExist e.2

variable {set : SchemaSet} {asks : Schema → Prop} {chosen : List Json → List Json}
  {method key : String} {s t u : Schema} {v w : Json}

theorem NamesExist.exists_resolve (hset : set.Closed) (hs : set.NamesExist s) {h : SchemaHandle}
    (hmem : h ∈ s.handles) : ∃ t, set.resolve? h = some t ∧ set.NamesExist t := by
  obtain ⟨hnamed, hinline⟩ := hs
  cases h with
  | named name outputOnly =>
      obtain ⟨t, ht⟩ := Option.isSome_iff_exists.1 (hnamed name outputOnly hmem)
      exact ⟨t, ht, hset _ (Dict.mem_of_find? ht)⟩
  | inline t => exact ⟨t, rfl, hinline t hmem⟩

theorem NamesExist.of_resolve (hset : set.Closed) (hs : set.NamesExist s) {h : SchemaHandle}
    (hmem : h ∈ s.handles) (ht : set.resolve? h = some t) : set.NamesExist t := by
  obtain ⟨t', ht', hnames⟩ := hs.exists_resolve hset hmem
  cases ht.symm.trans ht'
  exact hnames

theorem NamesExist.exists_keySchema (hset : set.Closed) (hs : set.NamesExist s)
    (hkey : (s.keyHandle? key).isSome) : ∃ t, set.KeySchema s key t := by
  unfold Schema.keyHandle? at hkey
  cases hfind : Dict.find? s.properties key with
  | some h =>
      obtain ⟨t, ht, -⟩ := hs.exists_resolve hset
        (Schema.mem_handles_of_property (Dict.mem_of_find? hfind))
      exact ⟨t, .property (Option.bind_eq_some_iff.2 ⟨h, hfind, ht⟩)⟩
  | none =>
      rw [hfind] at hkey
      obtain ⟨h, hadditional⟩ := Option.isSome_iff_exists.1 hkey
      obtain ⟨t, ht, -⟩ := hs.exists_resolve hset (Schema.mem_handles_of_additional hadditional)
      refine ⟨t, .additional ?_ (Option.bind_eq_some_iff.2 ⟨h, hadditional, ht⟩)⟩
      rw [property?, hfind]
      rfl

theorem NamesExist.of_keySchema (hset : set.Closed) (hs : set.NamesExist s)
    (h : set.KeySchema s key t) : set.NamesExist t := by
  cases h with
  | property h =>
      obtain ⟨handle, hfind, ht⟩ := Option.bind_eq_some_iff.1 h
      exact hs.of_resolve hset (Schema.mem_handles_of_property (Dict.mem_of_find? hfind)) ht
  | additional _ h =>
      obtain ⟨handle, hadditional, ht⟩ := Option.bind_eq_some_iff.1 h
      exact hs.of_resolve hset (Schema.mem_handles_of_additional hadditional) ht

theorem NamesExist.of_items (hset : set.Closed) (hs : set.NamesExist s)
    (h : set.items? s = some t) : set.NamesExist t := by
  obtain ⟨handle, hitems, ht⟩ := Option.bind_eq_some_iff.1 h
  exact hs.of_resolve hset (Schema.mem_handles_of_items hitems) ht

theorem NamesExist.of_stands (hset : set.Closed) (hs : set.NamesExist s)
    (h : set.Stands asks chosen s v u w) : set.NamesExist u := by
  induction h with
  | self => exact hs
  | field _ _ hsub _ ih => exact ih (hs.of_keySchema hset hsub)
  | item _ _ hsub _ ih => exact ih (hs.of_items hset hsub)

/-! ## What is refused -/

theorem Admits.passes (hset : set.Closed) (hs : set.NamesExist s) (h : set.Admits method s v) :
    set.Passes method s v := by
  cases v with
  | array items =>
      obtain ⟨handle, hitems⟩ := Option.isSome_iff_exists.1 h
      obtain ⟨t, ht, -⟩ := hs.exists_resolve hset (Schema.mem_handles_of_items hitems)
      exact Option.isSome_of_eq_some (Option.bind_eq_some_iff.2 ⟨handle, hitems, ht⟩)
  | object fields =>
      obtain ⟨-, hkeys, hneeds⟩ := h
      exact ⟨fun key hkey => hs.exists_keySchema hset (hkeys key hkey), hneeds⟩
  | _ => exact h

/-- What the check comes to is gone into by schemas that ask something, or it comes to it at or below a
schema of the kind `any`. -/
theorem Stands.asks_or_any (h : set.Visits s v u w) :
    set.Stands Schema.Asks Json.lookedAt s v u w ∨
      ∃ t x, set.Visits s v t x ∧ t.kind = "any" ∧ set.Visits t x u w := by
  induction h with
  | self => exact .inl (.self _ _)
  | @field t _ _ _ _ _ _ hasks hv hsub h ih =>
      by_cases hany : t.kind = "any"
      · exact .inr ⟨t, _, .self _ _, hany, .field hasks hv hsub h⟩
      · refine ih.imp (.field hany hv hsub) ?_
        rintro ⟨r, x, hr, hkind, hx⟩
        exact ⟨r, x, .field hasks hv hsub hr, hkind, hx⟩
  | @item t _ _ _ _ _ hasks hv hsub h ih =>
      by_cases hany : t.kind = "any"
      · exact .inr ⟨t, _, .self _ _, hany, .item hasks hv hsub h⟩
      · refine ih.imp (.item hany hv hsub) ?_
        rintro ⟨r, x, hr, hkind, hx⟩
        exact ⟨r, x, .item hasks hv hsub hr, hkind, hx⟩

/-- A body that is in order, where any value may stand at a schema of the kind `any`, is accepted exactly
if the check lets each value pass that it comes to at such a schema. -/
theorem accepted_iff_any (hset : set.Closed) (hs : set.NamesExist s) {payload : Fields}
    (hall : set.AdmitsAll Schema.Asks method s (.object payload)) :
    set.checkPayload s method payload = .ok () ↔
      ∀ u w, set.Visits s (.object payload) u w → u.kind = "any" → set.PassesAll method u w := by
  rw [checkPayload_ok]
  constructor
  · intro hpasses u w hw _ r x hx
    exact hpasses r x (hw.trans hx)
  · intro hany u w hw
    rcases hw.asks_or_any with hstands | ⟨t, x, ht, hkind, hx⟩
    · by_cases hkind : u.kind = "any"
      · exact hany u w hw hkind u w (.self _ _)
      · exact (hall u w hstands.of_lookedAt hkind).passes hset (hs.of_stands hset hstands)
    · exact hany t x ht hkind u w hx

end SchemaSet

namespace Sample

def sizeSchema : Schema := schema "" "integer" [] none ["insert"]

def diskSchema : Schema := schema "Disk" "object" [("size", .inline sizeSchema)] none []

def disksSchema : Schema := schema "" "array" [] (some (.named "Disk" false)) []

def anySchema : Schema := schema "" "any" [] none []

def diskSet : SchemaSet := [("Disk", diskSchema)]

def noted : Schema :=
  schema "Instance" "object" [("disks", .inline disksSchema), ("note", .inline anySchema)] none []

def notedBody (note : Json) : Fields :=
  [("disks", .array [.object [("size", .ofInt 10)]]), ("note", note)]

end Sample

namespace SchemaSet

open Sample

theorem closed_diskSet : diskSet.Closed ∧ diskSet.NamesExist noted := by
  have hplain : ∀ s : Schema, s.handles = [] → diskSet.NamesExist s := fun s hs =>
    ⟨by simp [hs], by simp [hs]⟩
  have hdisk : diskSet.NamesExist diskSchema := by
    refine ⟨fun name flag h => ?_, fun t h => ?_⟩
    · cases List.mem_singleton.1 h
    · cases List.mem_singleton.1 h
      exact hplain _ rfl
  have hdisks : diskSet.NamesExist disksSchema := by
    refine ⟨fun name flag h => ?_, fun t h => ?_⟩
    · cases List.mem_singleton.1 h
      rfl
    · cases List.mem_singleton.1 h
  refine ⟨fun e he => ?_, fun name flag h => ?_, fun t h => ?_⟩
  · cases List.mem_singleton.1 he
    exact hdisk
  · simp [noted, Schema.handles, schema] at h
  · simp only [noted, Schema.handles, schema, List.map_cons, List.map_nil, Option.toList_none,
      List.append_nil, List.mem_cons, Handle.inline.injEq, List.not_mem_nil, or_false] at h
    rcases h with rfl | rfl
    · exact hdisks
    · exact hplain _ rfl

/-- A value in an instance with one disk is admitted, or it stands in the note. -/
theorem stands_notedBody {asks : Schema → Prop} {note : Json} {u : Schema} {w : Json}
    (h : diskSet.Stands asks id noted (.object (notedBody note)) u w) :
    diskSet.Stands asks id anySchema note u w ∨ u.kind ≠ "any" ∧ diskSet.Admits "insert" u w := by
  have hneeds : ∀ {s : Schema} {fields : Fields},
      (∀ key ∈ diskSet.requiredKeys s "insert", key ∈ Dict.keys fields) →
      ∀ key, diskSet.Needs "insert" s key → key ∈ Dict.keys fields := fun h key hkey =>
    h key (mem_requiredKeys.2 hkey)
  rcases h with _ | ⟨-, hv, hsub, h⟩
  · exact .inr ⟨by decide, by decide, by simp [notedBody, Dict.keys]; decide, hneeds nofun⟩
  · simp only [notedBody, List.mem_cons, Prod.mk.injEq, List.not_mem_nil, or_false] at hv
    rcases hv with ⟨rfl, rfl⟩ | ⟨rfl, rfl⟩
    · obtain rfl : _ = disksSchema := hsub.unique (.property rfl)
      rcases h with _ | _ | ⟨-, hv, hitem, h⟩
      · exact .inr ⟨by decide, rfl⟩
      · cases List.mem_singleton.1 hv
        cases hitem
        rcases h with _ | ⟨-, hv, hsub, h⟩
        · exact .inr ⟨by decide, by decide, by decide, hneeds (by decide)⟩
        · cases List.mem_singleton.1 hv
          obtain rfl : _ = sizeSchema := hsub.unique (.property rfl)
          rcases h with _ | _
          exact .inr ⟨by decide, .inl rfl⟩
    · obtain rfl : _ = anySchema := hsub.unique (.property rfl)
      exact .inl h

theorem admitsAll_notedBody (note : Json) :
    diskSet.AdmitsAll Schema.Asks "insert" noted (.object (notedBody note)) := by
  intro u w h hasks
  rcases stands_notedBody h with hnote | ⟨-, hadmits⟩
  · rcases hnote with _ | ⟨hany, _⟩ | ⟨hany, _⟩
    · exact absurd rfl hasks
    · exact absurd rfl hany
    · exact absurd rfl hany
  · exact hadmits

theorem accepted_iff_any_null :
    diskSet.Closed ∧ diskSet.NamesExist noted ∧
      diskSet.AdmitsAll Schema.Asks "insert" noted (.object (notedBody .null)) ∧
      diskSet.checkPayload noted "insert" (notedBody .null) = .ok () := by
  obtain ⟨hset, hs⟩ := closed_diskSet
  have hall := admitsAll_notedBody .null
  refine ⟨hset, hs, hall, (accepted_iff_any hset hs hall).2 fun u w hw hkind => ?_⟩
  rcases stands_notedBody hw.of_lookedAt with hnote | ⟨hne, -⟩
  · cases hnote
    exact (passesAll_plain rfl rfl).2 trivial
  · exact absurd hkind hne

/-- An instance with a note is in order whatever the note is, and a text, a number or a list is refused. -/
theorem not_accepted_any :
    (diskSet.Closed ∧ diskSet.NamesExist noted) ∧
      ∀ note ∈ [Json.string "x", .ofInt 1, .array [.null]],
        diskSet.AdmitsAll Schema.Asks "insert" noted (.object (notedBody note)) ∧
        diskSet.checkPayload noted "insert" (notedBody note) ≠ .ok () := by
  refine ⟨closed_diskSet, fun note hnote => ⟨admitsAll_notedBody note, fun h => ?_⟩⟩
  simp only [List.mem_cons, List.not_mem_nil, or_false] at hnote
  rcases hnote with rfl | rfl | rfl <;> cases h

end SchemaSet
end RestSql
