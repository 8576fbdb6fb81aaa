import Mathlib.Logic.Relation
import RestSql.Proofs.ReadableColumns

/-!
# Searching the schema graph for a field

A search follows links: the properties of a schema, or the items of an array. It enters a named schema at
most once, and one that finds nothing has exhausted all that it entered (`Exhausted`). So a name without a
path in it is found exactly if a schema that can be reached offers it (`find?_isSome_iff_reachable`), however
the schemas refer to each other.
-/

namespace RestSql

/-! ## Links between schemas -/

namespace Schema

/-- The handles that a search follows: to the items of an array, else to the properties. -/
def links (s : Schema) : List SchemaHandle :=
  if s.isArray then s.items.toList else s.properties.map Prod.snd

theorem links_of_array {s : Schema} (h : s.isArray = true) : s.links = s.items.toList :=
  if_pos h

theorem links_of_not_array {s : Schema} (h : s.isArray = false) :
    s.links = s.properties.map Prod.snd :=
  if_neg (by simp [h])

/-- The schema is no array and has a property of the given name. -/
def Offers (s : Schema) (name : String) : Prop :=
  s.isArray = false ∧ (Dict.find? s.properties name).isSome

theorem size_le_sizeEach {s : Schema} {properties : List (String × SchemaHandle)} {key : String}
    (h : (key, .inline s) ∈ properties) : s.size ≤ sizeEach properties := by
  induction properties with
  | nil => cases h
  | cons e rest ih =>
    rcases List.mem_cons.1 h with rfl | hrest
    · exact Nat.le_add_right _ _
    · obtain ⟨k, _ | t⟩ := e
      · exact ih hrest
      · exact Nat.le_trans (ih hrest) (Nat.le_add_left _ _)

/-- What stands in place in a schema is smaller. -/
theorem size_lt_of_link {s t : Schema} (h : .inline t ∈ s.links) : t.size < s.size := by
  obtain ⟨id, kind, format, description, properties, items, additional, outputOnly, required⟩ := s
  rw [links] at h
  dsimp only at h
  simp only [size]
  split at h
  · have hitems : items = some (.inline t) := Option.mem_toList.1 h
    have hsize : sizeOf? items = t.size := by rw [hitems]; rfl
    omega
  · obtain ⟨⟨key, handle⟩, hkey, rfl⟩ := List.mem_map.1 h
    have hproperties := size_le_sizeEach hkey
    omega

end Schema

namespace SchemaSet

/-- A link leads from a schema to another one. -/
def Linked (set : SchemaSet) (s t : Schema) : Prop :=
  ∃ h ∈ s.links, set.resolve? h = some t

/-- Links lead from a schema to another one: through properties of schemas that are no arrays, and through
items of arrays. -/
def Reachable (set : SchemaSet) : Schema → Schema → Prop :=
  Relation.ReflTransGen set.Linked

/-- Every reference that can be met from a schema exists. -/
def Complete (set : SchemaSet) (root : Schema) : Prop :=
  ∀ s, set.Reachable root s → ∀ h ∈ s.links, (set.resolve? h).isSome

variable {set : SchemaSet} {s t : Schema}

theorem Complete.of_linked (h : set.Complete s) (hst : set.Linked s t) :
    set.Complete t :=
  fun u hu => h u (.head hst hu)

/-- What the links of a schema pass on to the schemas behind them is passed on to all that can be reached. -/
theorem of_reachable {P : Schema → Prop} {root : Schema} (hroot : P root)
    (hlinks : ∀ s, P s → ∀ h ∈ s.links, ∃ t, set.resolve? h = some t ∧ P t) (hs : set.Reachable root s) :
    P s := by
  induction hs with
  | refl => exact hroot
  | tail _ hlinked ih =>
    obtain ⟨h, hlink, ht⟩ := hlinked
    obtain ⟨t, ht', hP⟩ := hlinks _ ih h hlink
    cases ht.symm.trans ht'
    exact hP

theorem complete_of_forall {P : Schema → Prop} {root : Schema} (hroot : P root)
    (hlinks : ∀ s, P s → ∀ h ∈ s.links, ∃ t, set.resolve? h = some t ∧ P t) : set.Complete root := by
  intro s hs h hlink
  obtain ⟨t, ht, -⟩ := hlinks s (of_reachable hroot hlinks hs) h hlink
  exact Option.isSome_iff_exists.2 ⟨t, ht⟩

theorem Complete.exists_property (h : set.Complete s) {name : String}
    (hs : s.Offers name) : ∃ t, set.property? s name = some t := by
  obtain ⟨handle, hhandle⟩ := Option.isSome_iff_exists.1 hs.2
  have hlink : handle ∈ s.links := by
    rw [Schema.links_of_not_array hs.1]
    exact List.mem_map.2 ⟨_, Dict.mem_of_find? hhandle, rfl⟩
  obtain ⟨t, ht⟩ := Option.isSome_iff_exists.1 (h s .refl handle hlink)
  exact ⟨t, Option.bind_eq_some_iff.2 ⟨handle, hhandle, ht⟩⟩

/-! ## What a search leaves open -/

theorem size_cons (e : String × Schema) (set : SchemaSet) :
    size (e :: set) = e.2.size + size set := by
  have hfold (l : SchemaSet) (n : Nat) : l.foldl (fun n e => n + e.2.size) n = n + size l := by
    induction l generalizing n with
    | nil => rfl
    | cons a l ih =>
      have hl : size (a :: l) = l.foldl (fun n e => n + e.2.size) (0 + a.2.size) := rfl
      rw [List.foldl_cons, ih, hl, ih]
      omega
  rw [size, List.foldl_cons, hfold, Nat.zero_add]

theorem size_drop_le (set : SchemaSet) (name : String) : size (Dict.drop set name) ≤ set.size := by
  induction set with
  | nil => exact Nat.le_refl _
  | cons e set ih =>
    unfold Dict.drop at ih ⊢
    rw [List.filter_cons]
    split <;> simp only [size_cons] <;> omega

theorem size_openFrom_le (set : SchemaSet) (root : Schema) : (set.openFrom root).size ≤ set.size := by
  rw [openFrom]
  split
  · exact Nat.le_refl _
  · exact size_drop_le set root.id

theorem size_drop_add_le {name : String} {s : Schema} (h : Dict.find? set name = some s) :
    size (Dict.drop set name) + s.size ≤ set.size := by
  induction set with
  | nil => cases h
  | cons e set ih =>
    obtain ⟨key, t⟩ := e
    rw [Dict.find?] at h
    rw [size_cons, Dict.drop]
    split at h
    · next hkey =>
      cases h
      have hrest := size_drop_le set name
      rw [List.filter_cons_of_neg (by simp [hkey]), ← Dict.drop]
      dsimp only
      omega
    · next hkey =>
      have hrest := ih h
      rw [List.filter_cons_of_pos (by simp [hkey]), size_cons, ← Dict.drop]
      omega

/-- Nothing is open but what was open before. -/
structure Narrows (rest open_ : SchemaSet) : Prop where
  within : rest.Within open_
  size_le : rest.size ≤ open_.size

theorem Narrows.refl (open_ : SchemaSet) : Narrows open_ open_ :=
  ⟨fun _ _ h => h, Nat.le_refl _⟩

theorem Narrows.trans {a b c : SchemaSet} (hab : Narrows a b) (hbc : Narrows b c) : Narrows a c :=
  ⟨fun name s h => hbc.within name s (hab.within name s h), Nat.le_trans hab.size_le hbc.size_le⟩

theorem Narrows.closed {rest open_ : SchemaSet} (h : Narrows rest open_) {name : String}
    (hname : Dict.find? open_ name = none) : Dict.find? rest name = none := by
  cases hrest : Dict.find? rest name with
  | none => rfl
  | some s => rw [h.within name s hrest] at hname; cases hname

variable {open_ rest : SchemaSet} {h : SchemaHandle}

theorem narrows_drop (open_ : SchemaSet) (name : String) : Narrows (Dict.drop open_ name) open_ :=
  ⟨Within.drop (fun _ _ h => h) name, size_drop_le open_ name⟩

theorem narrows_enter (he : open_.enter? h = some (s, rest)) : Narrows rest open_ := by
  cases h with
  | named name outputOnly =>
    obtain ⟨-, rfl⟩ := find?_of_enter he
    exact narrows_drop open_ name
  | inline t =>
    cases he
    exact .refl open_

theorem size_enter_lt_of_inline (hinline : ∀ u, h = .inline u → u.size < t.size)
    (he : open_.enter? h = some (s, rest)) : rest.size + s.size < open_.size + t.size := by
  cases h with
  | named name outputOnly =>
    obtain ⟨hfind, rfl⟩ := find?_of_enter he
    have hdrop := size_drop_add_le hfind
    have hpos := t.size_pos
    omega
  | inline u =>
    cases he
    have hsize := hinline _ rfl
    omega

/-- Each link that is followed leaves less to search. -/
theorem size_enter_lt (hlink : h ∈ t.links) (he : open_.enter? h = some (s, rest)) :
    rest.size + s.size < open_.size + t.size :=
  size_enter_lt_of_inline (fun _ hu => Schema.size_lt_of_link (hu ▸ hlink)) he

theorem narrows_firstOf {search : SchemaSet → Schema → String → Option Field × SchemaSet}
    (hsearch : ∀ open_ s path, Narrows (search open_ s path).2 open_) (open_ : SchemaSet)
    (branches : List (SchemaHandle × String)) :
    Narrows (firstOf search open_ branches).2 open_ := by
  induction branches generalizing open_ with
  | nil => exact .refl open_
  | cons b more ih =>
    obtain ⟨h, path⟩ := b
    rw [firstOf]
    split
    · exact ih open_
    · next s rest he =>
      have hrest := hsearch rest s path
      split
      · next hf =>
        rw [hf] at hrest
        exact hrest.trans (narrows_enter he)
      · next hf =>
        rw [hf] at hrest
        exact (ih _).trans (hrest.trans (narrows_enter he))

theorem narrows_findWithin (set : SchemaSet) (fuel : Nat) (open_ : SchemaSet) (s : Schema)
    (path : String) : Narrows (findWithin set fuel open_ s path).2 open_ := by
  induction fuel generalizing open_ s path with
  | zero => exact .refl open_
  | succ fuel ih =>
    rw [findWithin]
    split
    · exact .refl open_
    · split
      · split
        · exact .refl open_
        · next items rest he =>
          obtain ⟨handle, -, he⟩ := Option.bind_eq_some_iff.1 he
          exact (ih rest items _).trans (narrows_enter he)
      · split
        · exact .refl open_
        · exact narrows_firstOf ih open_ _

theorem mem_links_of_mem_branches {path : String} {b : SchemaHandle × String}
    (harray : s.isArray = false) (hb : b ∈ branches s path) : b.1 ∈ s.links := by
  rw [Schema.links_of_not_array harray]
  rcases List.mem_append.1 hb with hb | hb
  · obtain ⟨e, he, hb⟩ := List.mem_filterMap.1 hb
    obtain ⟨rest, -, rfl⟩ := Option.map_eq_some_iff.1 hb
    exact List.mem_map.2 ⟨e, he, rfl⟩
  · obtain ⟨e, he, rfl⟩ := List.mem_map.1 hb
    exact List.mem_map.2 ⟨e, he, rfl⟩

/-! ## Searches for a plain name -/

/-- Neither the schema nor what stands in place in it offers the name, and no named schema that they link
is open. -/
inductive Exhausted (name : String) (open_ : SchemaSet) : Schema → Prop
  | intro {s : Schema} (hname : ¬s.Offers name)
      (hnamed : ∀ key outputOnly, .named key outputOnly ∈ s.links → Dict.find? open_ key = none)
      (hinline : ∀ t, .inline t ∈ s.links → Exhausted name open_ t) : Exhausted name open_ s

variable {name : String}

theorem Exhausted.narrow (hs : Exhausted name open_ s) (hrest : Narrows rest open_) :
    Exhausted name rest s := by
  induction hs with
  | intro hname hnamed _ ih =>
    exact .intro hname (fun key outputOnly hlink => hrest.closed (hnamed key outputOnly hlink)) ih

/-- A search below the handle would come to nothing. -/
def Spent (name : String) (open_ : SchemaSet) : SchemaHandle → Prop
  | .named key _ => Dict.find? open_ key = none
  | .inline s => Exhausted name open_ s

theorem Spent.narrow (hs : Spent name open_ h) (hrest : Narrows rest open_) : Spent name rest h := by
  cases h with
  | named key outputOnly => exact hrest.closed hs
  | inline s => exact Exhausted.narrow hs hrest

theorem exhausted_of_spent (hname : ¬s.Offers name) (hlinks : ∀ h ∈ s.links, Spent name open_ h) :
    Exhausted name open_ s :=
  .intro hname (fun _ _ hlink => hlinks _ hlink) fun _ hlink => hlinks _ hlink

/-- Every schema that was closed on the way from `open_` to `rest` is exhausted. -/
def Closes (name : String) (open_ rest : SchemaSet) : Prop :=
  ∀ key s, Dict.find? open_ key = some s → Dict.find? rest key = none → Exhausted name rest s

theorem Closes.refl (name : String) (open_ : SchemaSet) : Closes name open_ open_ := by
  intro key s hopen hclosed
  rw [hopen] at hclosed
  cases hclosed

theorem Closes.trans {last : SchemaSet} (hfirst : Closes name open_ rest)
    (hlast : Closes name rest last) (hrest : Narrows rest open_) (hnarrow : Narrows last rest) :
    Closes name open_ last := by
  intro key s hopen hclosed
  cases hkey : Dict.find? rest key with
  | none => exact (hfirst key s hopen hkey).narrow hnarrow
  | some t =>
    have heq := hopen.symm.trans (hrest.within key t hkey)
    cases heq
    exact hlast key s hkey hclosed

/-- What a search for a name below a schema comes to: a property that can be reached, or nothing, and then
all that it entered is exhausted. -/
structure Outcome (set : SchemaSet) (name : String) (open_ : SchemaSet) (s : Schema)
    (result : Option Field × SchemaSet) : Prop where
  found : ∀ f, result.1 = some f →
    ∃ t, set.Reachable s t ∧ t.isArray = false ∧ set.property? t name = some f.schema
  failed : result.1 = none → Closes name open_ result.2 ∧ Exhausted name result.2 s

/-- The outcome below a link, as seen from the schema that has the link. -/
theorem Outcome.through {result : Option Field × SchemaSet} (hopen : open_.Within set)
    (hlink : h ∈ s.links) (he : open_.enter? h = some (t, rest)) (hnarrow : Narrows result.2 rest)
    (ht : set.Outcome name rest t result) :
    (∀ f, result.1 = some f →
      ∃ u, set.Reachable s u ∧ u.isArray = false ∧ set.property? u name = some f.schema) ∧
    (result.1 = none → Closes name open_ result.2 ∧ Spent name result.2 h) := by
  have hst : set.Linked s t := ⟨h, hlink, (hopen.enter he).1⟩
  refine ⟨fun f hf => ?_, fun hnone => ?_⟩
  · obtain ⟨u, hu, hfound⟩ := ht.found f hf
    exact ⟨u, .head hst hu, hfound⟩
  · obtain ⟨hcloses, hexhausted⟩ := ht.failed hnone
    cases h with
    | inline u =>
      cases he
      exact ⟨hcloses, hexhausted⟩
    | named key outputOnly =>
      obtain ⟨hfind, rfl⟩ := find?_of_enter he
      refine ⟨fun other u hother hclosed => ?_, hnarrow.closed (by rw [Dict.find?_drop, if_pos rfl])⟩
      by_cases hkey : key = other
      · subst hkey
        cases hfind.symm.trans hother
        exact hexhausted
      · exact hcloses other u (by rw [Dict.find?_drop, if_neg hkey, hother]) hclosed

theorem spent_of_enter_eq_none (he : open_.enter? h = none) : Spent name open_ h := by
  cases h with
  | named key outputOnly => exact Option.map_eq_none_iff.1 he
  | inline s => cases he

theorem outcome_firstOf {fuel : Nat} (hfuel : open_.size + s.size ≤ fuel + 1)
    (hsearch : ∀ open_ t, open_.Within set → open_.size + t.size ≤ fuel → set.Linked s t →
      set.Outcome name open_ t (findWithin set fuel open_ t name))
    (hopen : open_.Within set) {handles : List SchemaHandle} (hlinks : ∀ h ∈ handles, h ∈ s.links) :
    let result := firstOf (findWithin set fuel) open_ (handles.map fun h => (h, name))
    (∀ f, result.1 = some f →
      ∃ u, set.Reachable s u ∧ u.isArray = false ∧ set.property? u name = some f.schema) ∧
    (result.1 = none → Closes name open_ result.2 ∧ ∀ h ∈ handles, Spent name result.2 h) := by
  induction handles generalizing open_ with
  | nil =>
    exact ⟨fun _ hf => absurd hf (Option.some_ne_none _).symm,
      fun _ => ⟨.refl name open_, List.forall_mem_nil _⟩⟩
  | cons h handles ih =>
    rw [List.forall_mem_cons] at hlinks
    rw [List.map_cons, firstOf]
    split
    · next he =>
      obtain ⟨hfound, hfailed⟩ := ih hfuel hopen hlinks.2
      refine ⟨hfound, fun hnone => ⟨(hfailed hnone).1, List.forall_mem_cons.2 ⟨?_, (hfailed hnone).2⟩⟩⟩
      exact (spent_of_enter_eq_none he).narrow
        (narrows_firstOf (narrows_findWithin set fuel) open_ _)
    · next t rest he =>
      have hsize := size_enter_lt hlinks.1 he
      obtain ⟨ht, hrest⟩ := hopen.enter he
      have hnarrow := narrows_findWithin set fuel rest t name
      obtain ⟨hfound, hfailed⟩ := (hsearch rest t hrest (by omega) ⟨h, hlinks.1, ht⟩).through hopen
        hlinks.1 he hnarrow
      split
      · next f after hf =>
        rw [hf] at hfound
        exact ⟨hfound, fun hnone => absurd hnone (Option.some_ne_none f)⟩
      · next after hf =>
        rw [hf] at hfailed hnarrow
        obtain ⟨hcloses, hspent⟩ := hfailed rfl
        have hafter := hnarrow.trans (narrows_enter he)
        have hafterSize : after.size ≤ open_.size := hafter.size_le
        have hafterWithin : after.Within set :=
          fun key u hu => hopen key u (hafter.within key u hu)
        obtain ⟨hfound', hfailed'⟩ := ih (by omega) hafterWithin hlinks.2
        have hmore := narrows_firstOf (narrows_findWithin set fuel) after
          (handles.map fun h => (h, name))
        refine ⟨hfound', fun hnone => ?_⟩
        obtain ⟨hcloses', hspent'⟩ := hfailed' hnone
        exact ⟨hcloses.trans hcloses' hafter hmore,
          List.forall_mem_cons.2 ⟨hspent.narrow hmore, hspent'⟩⟩

/-- A name that leads nowhere as a path: neither along a property nor into the items of an array. -/
structure IsPlainName (name : String) : Prop where
  ne_empty : name ≠ ""
  no_dot : '.' ∉ name.toList
  no_brackets : ¬['[', ']'] <:+: name.toList

theorem itemPath_eq_self {path : String} (h : ¬['[', ']'] <:+: path.toList) : itemPath path = path := by
  have hbrackets (tail : String) : Text.rest? ("[]" ++ tail) path = none := by
    cases hrest : Text.rest? ("[]" ++ tail) path with
    | none => rfl
    | some rest =>
      refine absurd ?_ h
      rw [Text.eq_append_of_rest? hrest]
      exact ⟨[], tail.toList ++ rest.toList, by simp⟩
  have hdot : Text.rest? "[]." path = none := hbrackets "."
  have hnone : Text.rest? "[]" path = none := hbrackets ""
  rw [itemPath, hdot, hnone]
  rfl

theorem IsPlainName.below?_eq_none (h : IsPlainName name) (key : String) :
    below? key name = none := by
  unfold below?
  cases htail : Text.rest? key name with
  | none => rfl
  | some tail =>
    have hname := Text.eq_append_of_rest? htail
    dsimp only
    cases hdot : Text.rest? "." tail with
    | some rest =>
      refine absurd ?_ h.no_dot
      rw [hname, Text.eq_append_of_rest? hdot]
      simp
    | none =>
      cases hbrackets : Text.rest? "[]" tail with
      | none => rfl
      | some rest =>
        refine absurd ?_ h.no_brackets
        rw [hname, Text.eq_append_of_rest? hbrackets]
        exact ⟨key.toList, rest.toList, by simp⟩

theorem IsPlainName.branches_eq (h : IsPlainName name) (s : Schema) :
    branches s name = (s.properties.map Prod.snd).map fun handle => (handle, name) := by
  rw [branches, List.filterMap_eq_nil_iff.2, List.nil_append, List.map_map]
  · rfl
  · intro e _
    dsimp only
    rw [h.below?_eq_none, Option.map_none]

theorem outcome_findWithin (hname : IsPlainName name) (fuel : Nat) (hopen : open_.Within set)
    (hfuel : open_.size + s.size ≤ fuel) (hcomplete : set.Complete s) :
    set.Outcome name open_ s (findWithin set fuel open_ s name) := by
  induction fuel generalizing open_ s with
  | zero =>
    have hpos := s.size_pos
    omega
  | succ fuel ih =>
    rw [findWithin, if_neg hname.ne_empty, itemPath_eq_self hname.no_brackets,
      hname.branches_eq]
    cases harray : s.isArray with
    | true =>
      have hoffers : ¬s.Offers name := fun h => by rw [h.1] at harray; cases harray
      have hlinks := Schema.links_of_array harray
      rw [if_pos rfl]
      split
      · next hnone =>
        refine ⟨fun _ hf => absurd hf (Option.some_ne_none _).symm,
          fun _ => ⟨.refl name open_, exhausted_of_spent hoffers fun h hlink => ?_⟩⟩
        rw [hlinks, Option.mem_toList] at hlink
        rw [Option.mem_def.1 hlink] at hnone
        exact spent_of_enter_eq_none hnone
      · next items rest he =>
        obtain ⟨handle, hhandle, he⟩ := Option.bind_eq_some_iff.1 he
        have hlink : handle ∈ s.links := by rw [hlinks, hhandle]; exact List.mem_singleton_self _
        have hsize := size_enter_lt hlink he
        obtain ⟨hitems, hrest⟩ := hopen.enter he
        obtain ⟨hfound, hfailed⟩ := (ih hrest (by omega) (hcomplete.of_linked ⟨_, hlink, hitems⟩)).through
          hopen hlink he (narrows_findWithin set fuel rest items name)
        refine ⟨hfound, fun hnone => ⟨(hfailed hnone).1, exhausted_of_spent hoffers fun h hlink => ?_⟩⟩
        rw [hlinks, hhandle] at hlink
        cases List.mem_singleton.1 hlink
        exact (hfailed hnone).2
    | false =>
      have hlinks := Schema.links_of_not_array harray
      rw [if_neg Bool.false_ne_true]
      split
      · next handle hhandle =>
        have hoffers : s.Offers name := ⟨harray, by rw [hhandle]; rfl⟩
        obtain ⟨t, ht⟩ := hcomplete.exists_property hoffers
        obtain ⟨handle', hhandle', hresolve⟩ := Option.bind_eq_some_iff.1 ht
        cases hhandle.symm.trans hhandle'
        rw [hresolve]
        refine ⟨fun f hf => ?_, fun hnone => absurd hnone (Option.some_ne_none _)⟩
        cases hf
        exact ⟨s, .refl, harray, ht⟩
      · next hnone =>
        have hoffers : ¬s.Offers name := fun h => by rw [Schema.Offers, hnone] at h; cases h.2
        obtain ⟨hfound, hfailed⟩ := outcome_firstOf hfuel
          (fun open_ t hopen hfuel hst => ih hopen hfuel (hcomplete.of_linked hst)) hopen
          fun h (hlink : h ∈ s.properties.map Prod.snd) => hlinks ▸ hlink
        exact ⟨hfound, fun hnone => ⟨(hfailed hnone).1,
          exhausted_of_spent hoffers fun h hlink => (hfailed hnone).2 h (hlinks ▸ hlink)⟩⟩

/-- The root of a search: a schema of the set that has the name of its own id, or one without an id. -/
def IsRoot (set : SchemaSet) (root : Schema) : Prop :=
  root.id = "" ∨ Dict.find? set root.id = some root

/-- If the search has come to nothing, all that can be reached from the root is exhausted. -/
theorem exhausted_of_reachable {root : Schema} (hroot : set.IsRoot root)
    (hcloses : Closes name (set.openFrom root) rest) (hexhausted : Exhausted name rest root)
    (hs : set.Reachable root s) : Exhausted name rest s := by
  induction hs with
  | refl => exact hexhausted
  | tail _ hlinked ih =>
    obtain ⟨h, hlink, ht⟩ := hlinked
    obtain ⟨-, hnamed, hinline⟩ := ih
    cases h with
    | inline u =>
      cases ht
      exact hinline _ hlink
    | named key outputOnly =>
      have hclosed := hnamed key outputOnly hlink
      rw [resolve?] at ht
      cases hopen : Dict.find? (set.openFrom root) key with
      | some u =>
        cases ht.symm.trans (within_openFrom set root key u hopen)
        exact hcloses key _ hopen hclosed
      | none =>
        -- only the root itself is closed from the start
        rw [openFrom] at hopen
        split at hopen
        · rw [ht] at hopen
          cases hopen
        · next hid =>
          rw [Dict.find?_drop] at hopen
          split at hopen
          · next heq =>
            subst heq
            cases (hroot.resolve_left hid).symm.trans ht
            exact hexhausted
          · rw [ht] at hopen
            cases hopen

/-- A search for a plain name finds something exactly if a schema that can be reached from the root, and is
no array, has a property of the name; and what it finds is the schema of such a property. -/
theorem find?_isSome_iff_reachable {root : Schema} (hcomplete : set.Complete root)
    (hroot : set.IsRoot root) (hname : IsPlainName name) :
    ((set.find? root name).isSome ↔
      ∃ s, set.Reachable root s ∧ s.isArray = false ∧ (Dict.find? s.properties name).isSome) ∧
    ∀ f, set.find? root name = some f →
      ∃ s, set.Reachable root s ∧ s.isArray = false ∧ set.property? s name = some f.schema := by
  have houtcome := outcome_findWithin hname _ (within_openFrom set root)
    (Nat.add_le_add_right (size_openFrom_le set root) root.size) hcomplete
  refine ⟨⟨fun hsome => ?_, ?_⟩, houtcome.found⟩
  · obtain ⟨f, hf⟩ := Option.isSome_iff_exists.1 hsome
    obtain ⟨s, hs, harray, hproperty⟩ := houtcome.found f hf
    obtain ⟨handle, hhandle, -⟩ := Option.bind_eq_some_iff.1 hproperty
    exact ⟨s, hs, harray, by rw [hhandle]; rfl⟩
  · rintro ⟨s, hs, hoffers⟩
    cases hresult : set.find? root name with
    | some f => rfl
    | none =>
      obtain ⟨hcloses, hexhausted⟩ := houtcome.failed hresult
      obtain ⟨hnot, -, -⟩ := exhausted_of_reachable hroot hcloses hexhausted hs
      exact absurd hoffers hnot

end SchemaSet

namespace Sample

def disk : Schema :=
  schema "Disk" "object" [("owner", .named "Machine" false), ("size", text)] none []

def diskArray : Schema :=
  schema "" "array" [] (some (.named "Disk" false)) []

def machine : Schema :=
  schema "Machine" "object" [("disks", .inline diskArray), ("name", text)] none []

/-- Machines and disks, which refer to each other. -/
def machines : SchemaSet :=
  [("Disk", disk), ("Machine", machine)]

theorem complete_machines : machines.Complete machine := by
  let all := [machine, diskArray, disk, schema "" "string" [] none []]
  refine SchemaSet.complete_of_forall (P := (· ∈ all)) (by simp [all]) ?_
  simp [all, machine, diskArray, disk, schema, text, machines, Schema.links, Schema.isArray,
    SchemaSet.resolve?, Dict.find?]

end Sample

namespace SchemaSet

open Sample

theorem find?_isSome_iff_reachable_size :
    machines.Complete machine ∧ machines.IsRoot machine ∧ IsPlainName "size" ∧
      ((machines.find? machine "size").isSome ↔ ∃ s, machines.Reachable machine s ∧
        s.isArray = false ∧ (Dict.find? s.properties "size").isSome) ∧
      (machines.find? machine "size").isSome := by
  have hroot : machines.IsRoot machine := .inr rfl
  have hname : IsPlainName "size" := ⟨by decide, by decide, by decide⟩
  have hiff := (find?_isSome_iff_reachable complete_machines hroot hname).1
  have hdisks : machines.Linked machine diskArray := ⟨.inline diskArray, List.mem_cons_self, rfl⟩
  have hdisk : machines.Linked diskArray disk := ⟨_, List.mem_cons_self, rfl⟩
  exact ⟨complete_machines, hroot, hname, hiff, hiff.2 ⟨disk, .tail (.single hdisks) hdisk, rfl, rfl⟩⟩

end SchemaSet
end RestSql
