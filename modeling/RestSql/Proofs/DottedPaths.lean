import Mathlib.Data.String.Basic
import RestSql.Proofs.FieldSearch

/-!
# Searching for dotted paths

A search enters a named schema at most once, so what it finds depends on the order of its branches. A path of
property names is found below a schema that the search can come to, unless a schema on the way has been
entered before: by the way itself, or by a branch that is tried before the way's own (`find?_of_approach`).
Searches without a result are shown for both.
-/

namespace RestSql

/-- The name under which a handle enters a schema; none for one in place. -/
def Handle.name? {σ : Type} : Handle σ → Option String
  | .named name _ => some name
  | .inline _ => none

namespace SchemaSet

variable {set open_ rest : SchemaSet} {s t : Schema} {h : SchemaHandle} {name path : String}

/-! ## What a search leaves alone -/

/-- A search below the handle may enter the schema of the given name. -/
inductive Meets (set : SchemaSet) : SchemaHandle → String → Prop
  | named (name : String) (outputOnly : Bool) : Meets set (.named name outputOnly) name
  | through {h link : SchemaHandle} {s : Schema} {name : String} (hs : set.resolve? h = some s)
      (hlink : link ∈ s.links) (hmeets : Meets set link name) : Meets set h name

theorem find?_of_enter_of_not_meets (he : open_.enter? h = some (s, rest))
    (hname : ¬set.Meets h name) : Dict.find? rest name = Dict.find? open_ name := by
  cases h with
  | inline t =>
    cases he
    rfl
  | named key outputOnly =>
    obtain ⟨-, rfl⟩ := find?_of_enter he
    rw [Dict.find?_drop, if_neg]
    rintro rfl
    exact hname (.named key outputOnly)

theorem not_meets_links (hopen : open_.Within set) (he : open_.enter? h = some (s, rest))
    (hname : ¬set.Meets h name) : ∀ link ∈ s.links, ¬set.Meets link name :=
  fun _ hlink hmeets => hname (.through (hopen.enter he).1 hlink hmeets)

theorem find?_firstOf_of_not_meets {fuel : Nat}
    (hsearch : ∀ open_ s path, open_.Within set → (∀ link ∈ s.links, ¬set.Meets link name) →
      Dict.find? (findWithin set fuel open_ s path).2 name = Dict.find? open_ name)
    (hopen : open_.Within set) {branches : List (SchemaHandle × String)}
    (hbranches : ∀ b ∈ branches, ¬set.Meets b.1 name) :
    Dict.find? (firstOf (findWithin set fuel) open_ branches).2 name = Dict.find? open_ name := by
  induction branches generalizing open_ with
  | nil => rfl
  | cons b more ih =>
    obtain ⟨h, path⟩ := b
    rw [List.forall_mem_cons] at hbranches
    rw [firstOf]
    split
    · exact ih hopen hbranches.2
    · next s rest he =>
      have hrest := (hopen.enter he).2
      have hentered := find?_of_enter_of_not_meets he hbranches.1
      have hafter := hsearch rest s path hrest (not_meets_links hopen he hbranches.1)
      have hnarrow := narrows_findWithin set fuel rest s path
      split
      · next hf =>
        rw [hf] at hafter
        exact hafter.trans hentered
      · next after hf =>
        rw [hf] at hafter hnarrow
        have hwithin : after.Within set := fun key u hu => hrest key u (hnarrow.within key u hu)
        rw [ih hwithin hbranches.2, hafter, hentered]

/-- A schema that a search cannot meet stays as open or closed as it was. -/
theorem find?_findWithin_of_not_meets (fuel : Nat) (hopen : open_.Within set)
    (hlinks : ∀ link ∈ s.links, ¬set.Meets link name) :
    Dict.find? (findWithin set fuel open_ s path).2 name = Dict.find? open_ name := by
  induction fuel generalizing open_ s path with
  | zero => rfl
  | succ fuel ih =>
    rw [findWithin]
    split
    · rfl
    · cases harray : s.isArray with
      | true =>
        rw [if_pos rfl]
        split
        · rfl
        · next items rest he =>
          obtain ⟨handle, hhandle, he⟩ := Option.bind_eq_some_iff.1 he
          have hlink : handle ∈ s.links := by
            rw [Schema.links_of_array harray, hhandle]
            exact List.mem_singleton_self _
          have hname := hlinks handle hlink
          rw [ih (hopen.enter he).2 (not_meets_links hopen he hname),
            find?_of_enter_of_not_meets he hname]
      | false =>
        rw [if_neg Bool.false_ne_true]
        split
        · rfl
        · exact find?_firstOf_of_not_meets (fun _ _ _ => ih) hopen fun b hb =>
            hlinks b.1 (mem_links_of_mem_branches harray hb)

/-! ## Ways that are not blocked -/

/-- The schemas of the given names may all still be entered. -/
def Ready (set open_ : SchemaSet) (names : List String) : Prop :=
  ∀ name ∈ names, Dict.find? open_ name = Dict.find? set name

/-- A way that a search can take to a property: into the items of arrays, and along branches before which
nothing is tried that could enter a schema that the way still has to enter. The list names the schemas that it
enters. -/
inductive OpenWay (set : SchemaSet) : Schema → String → List String → Prop
  | property {s t : Schema} {path : String} (harray : s.isArray = false)
      (ht : set.property? s path = some t) : OpenWay set s path []
  | items {s t : Schema} {h : SchemaHandle} {path : String} {entered : List String}
      (harray : s.isArray = true) (hitems : s.items = some h) (ht : set.resolve? h = some t)
      (hway : OpenWay set t (itemPath path) entered) :
      OpenWay set s path (h.name?.toList ++ entered)
  | branch {s t : Schema} {h : SchemaHandle} {path rest : String} {entered : List String}
      {before after : List (SchemaHandle × String)} (harray : s.isArray = false)
      (hbranches : branches s path = before ++ (h, rest) :: after) (ht : set.resolve? h = some t)
      (hway : OpenWay set t rest entered)
      (hclear : ∀ b ∈ before, ∀ name ∈ h.name?.toList ++ entered, ¬set.Meets b.1 name) :
      OpenWay set s path (h.name?.toList ++ entered)

theorem exists_enter {entered : List String} (hready : Ready set open_ (h.name?.toList ++ entered))
    (hnodup : (h.name?.toList ++ entered).Nodup) (ht : set.resolve? h = some t) :
    ∃ rest, open_.enter? h = some (t, rest) ∧ Ready set rest entered := by
  cases h with
  | inline u =>
    cases ht
    exact ⟨open_, rfl, hready⟩
  | named key outputOnly =>
    rw [Handle.name?, Option.toList_some, List.singleton_append] at hready hnodup
    have hkey : Dict.find? open_ key = some t := (hready key List.mem_cons_self).trans ht
    refine ⟨Dict.drop open_ key, by rw [enter?, hkey]; rfl, fun name hname => ?_⟩
    have hne : key ≠ name := fun heq => (List.nodup_cons.1 hnodup).1 (heq ▸ hname)
    rw [Dict.find?_drop, if_neg hne, hready name (List.mem_cons_of_mem _ hname)]

/-- A branch is reached with its schemas open, or one before it finds something. -/
theorem isSome_firstOf {fuel : Nat} {names : List String} {before after : List (SchemaHandle × String)}
    (hopen : open_.Within set) (hready : Ready set open_ names)
    (hclear : ∀ b ∈ before, ∀ name ∈ names, ¬set.Meets b.1 name)
    (hown : ∀ rest, Narrows rest open_ → Ready set rest names →
      (firstOf (findWithin set fuel) rest ((h, path) :: after)).1.isSome) :
    (firstOf (findWithin set fuel) open_ (before ++ (h, path) :: after)).1.isSome := by
  induction before generalizing open_ with
  | nil => exact hown open_ (.refl open_) hready
  | cons b before ih =>
    obtain ⟨earlier, other⟩ := b
    rw [List.forall_mem_cons] at hclear
    rw [List.cons_append, firstOf]
    split
    · exact ih hopen hready hclear.2 hown
    · next u rest he =>
      have hrest := (hopen.enter he).2
      have hnarrow := (narrows_findWithin set fuel rest u other).trans (narrows_enter he)
      have hkept : ∀ name ∈ names,
          Dict.find? (findWithin set fuel rest u other).2 name = Dict.find? open_ name :=
        fun name hname => (find?_findWithin_of_not_meets fuel hrest
          (not_meets_links hopen he (hclear.1 name hname))).trans
            (find?_of_enter_of_not_meets he (hclear.1 name hname))
      split
      · rfl
      · next last hf =>
        rw [hf] at hnarrow hkept
        exact ih (fun key v hv => hopen key v (hnarrow.within key v hv))
          (fun name hname => (hkept name hname).trans (hready name hname)) hclear.2
          fun rest' hrest' => hown rest' (hrest'.trans hnarrow)

theorem OpenWay.isSome_findWithin {entered : List String} (hway : set.OpenWay s path entered)
    {fuel : Nat} (hcomplete : set.Complete s) (hopen : open_.Within set)
    (hfuel : open_.size + s.size ≤ fuel) (hready : Ready set open_ entered)
    (hnodup : entered.Nodup) : (findWithin set fuel open_ s path).1.isSome := by
  induction hway generalizing open_ fuel with
  | @property s t path harray ht =>
    obtain ⟨handle, hhandle, hresolve⟩ := Option.bind_eq_some_iff.1 ht
    obtain _ | fuel := fuel
    · have hpos := s.size_pos
      omega
    · rw [findWithin, harray, if_neg Bool.false_ne_true, hhandle]
      split
      · rfl
      · dsimp only
        rw [hresolve]
        rfl
  | @items s t h path entered harray hitems ht hway ih =>
    obtain ⟨rest, he, hrest⟩ := exists_enter hready hnodup ht
    have hlink : h ∈ s.links := by
      rw [Schema.links_of_array harray, hitems]
      exact List.mem_singleton_self _
    have hsize := size_enter_lt hlink he
    obtain _ | fuel := fuel
    · omega
    · rw [findWithin, harray, if_pos rfl, hitems, Option.bind_some, he]
      split
      · rfl
      · exact ih (hcomplete.of_linked ⟨h, hlink, ht⟩) (hopen.enter he).2 (by omega) hrest
          (List.nodup_append.1 hnodup).2.1
  | @branch s t h path tail entered before after harray hbranches ht hway hclear ih =>
    have hmem : (h, tail) ∈ branches s path := by simp [hbranches]
    have hlink : h ∈ s.links := mem_links_of_mem_branches harray hmem
    obtain _ | fuel := fuel
    · have hpos := s.size_pos
      omega
    · rw [findWithin, harray, if_neg Bool.false_ne_true]
      split
      · rfl
      · split
        · next other hother =>
          have hoffers : s.Offers path := ⟨harray, by rw [hother]; rfl⟩
          obtain ⟨u, hu⟩ := hcomplete.exists_property hoffers
          obtain ⟨_, hother', hresolve⟩ := Option.bind_eq_some_iff.1 hu
          cases hother.symm.trans hother'
          rw [hresolve]
          rfl
        · rw [hbranches]
          refine isSome_firstOf hopen hready hclear fun narrowed hnarrow hready => ?_
          obtain ⟨rest, he, hrest⟩ := exists_enter hready hnodup ht
          have hwithin : narrowed.Within set :=
            fun key u hu => hopen key u (hnarrow.within key u hu)
          have hsize := size_enter_lt hlink he
          have hnarrowSize : narrowed.size ≤ open_.size := hnarrow.size_le
          have hless : rest.size + t.size ≤ fuel := by omega
          have hfound := ih (hcomplete.of_linked ⟨h, hlink, ht⟩) (hwithin.enter he).2 hless hrest
            (List.nodup_append.1 hnodup).2.1
          rw [firstOf, he]
          dsimp only
          split
          · rfl
          · next hnone =>
            rw [hnone] at hfound
            cases hfound

/-! ## Chains of property names -/

/-- The names joined by dots. -/
def dotted (names : List String) : String :=
  String.intercalate "." names

/-- The properties of the given names lead from one schema to the next, none of which is an array. The second
list names the schemas that are entered on the way to the last property. -/
inductive Chain (set : SchemaSet) : Schema → List String → List String → Prop
  | last {s t : Schema} {name : String} (harray : s.isArray = false)
      (ht : set.property? s name = some t) : Chain set s [name] []
  | along {s t : Schema} {h : SchemaHandle} {name : String} {names entered : List String}
      (harray : s.isArray = false) (hkey : Dict.find? s.properties name = some h)
      (ht : set.resolve? h = some t) (hchain : Chain set t names entered) :
      Chain set s (name :: names) (h.name?.toList ++ entered)

/-- A way that a search for `path` can take to the schema `s`, with the whole path to look for there. The
first list names the schemas that are entered after `s`, the second one those and the schemas of the way. -/
inductive Approach (set : SchemaSet) (path : String) (s : Schema) (later : List String) :
    Schema → List String → Prop
  | here : Approach set path s later s later
  | items {root t : Schema} {h : SchemaHandle} {entered : List String} (harray : root.isArray = true)
      (hitems : root.items = some h) (ht : set.resolve? h = some t)
      (hway : Approach set path s later t entered) :
      Approach set path s later root (h.name?.toList ++ entered)
  | property {root t : Schema} {h : SchemaHandle} {entered : List String}
      {before after : List (SchemaHandle × String)} (harray : root.isArray = false)
      (hbranches : branches root path = before ++ (h, path) :: after) (ht : set.resolve? h = some t)
      (hway : Approach set path s later t entered)
      (hclear : ∀ b ∈ before, ∀ name ∈ h.name?.toList ++ entered, ¬set.Meets b.1 name) :
      Approach set path s later root (h.name?.toList ++ entered)

theorem Chain.names_ne_nil {names entered : List String} (h : set.Chain s names entered) :
    names ≠ [] := by
  cases h <;> exact List.cons_ne_nil _ _

theorem dotted_cons {names : List String} (hne : names ≠ []) (name : String) :
    dotted (name :: names) = name ++ "." ++ dotted names := by
  obtain ⟨other, names, rfl⟩ := List.exists_cons_of_ne_nil hne
  rw [← String.toList_inj]
  simp [dotted, String.toList_intercalate]

/-- No text is less than what it starts with. -/
theorem not_append_lt (start rest : String) : ¬start ++ rest < start := by
  rw [String.lt_iff_toList_lt, String.toList_append]
  induction start.toList with
  | nil => exact List.not_lt_nil _
  | cons c cs ih =>
    rw [List.cons_append, List.cons_lt_cons_iff, not_or]
    exact ⟨Char.lt_irrefl c, fun h => ih h.2⟩

theorem below?_of_lt {key : String} (hlt : key < name) (hdot : '.' ∉ name.toList)
    (hbracket : '[' ∉ name.toList) (rest : String) : below? key (name ++ "." ++ rest) = none := by
  unfold below?
  cases htail : Text.rest? key (name ++ "." ++ rest) with
  | none => rfl
  | some tail =>
    have hsplit : name.toList ++ '.' :: rest.toList = key.toList ++ tail.toList := by
      rw [← String.toList_append, ← Text.eq_append_of_rest? htail]
      simp
    rcases List.append_eq_append_iff.1 hsplit with ⟨more, hkey, -⟩ | ⟨more, hname, htail⟩
    · refine absurd hlt ?_
      have hkey : key = name ++ String.ofList more := by
        rw [← String.toList_inj, String.toList_append, String.toList_ofList, hkey]
      rw [hkey]
      exact not_append_lt name _
    · -- the key is a part of the name, and what follows it there is neither a dot nor a bracket
      cases more with
      | nil =>
        rw [List.append_nil, String.toList_inj] at hname
        exact absurd (hname ▸ hlt) (String.lt_irrefl key)
      | cons c more =>
        have hc : c ∈ name.toList := by simp [hname]
        have hnone (x : Char) (start : String) (hx : x ∉ name.toList) :
            Text.rest? (String.ofList (x :: start.toList)) tail = none := by
          cases hrest : Text.rest? (String.ofList (x :: start.toList)) tail with
          | none => rfl
          | some rest' =>
            have hstart := congrArg String.toList (Text.eq_append_of_rest? hrest)
            rw [htail, String.toList_append, String.toList_ofList] at hstart
            injection hstart with hcx
            exact absurd (hcx ▸ hc) hx
        have hdot' : Text.rest? "." tail = none := hnone '.' "" hdot
        have hbracket' : Text.rest? "[]" tail = none := hnone '[' "]" hbracket
        dsimp only
        rw [hdot', hbracket']
        rfl

theorem below?_self (name rest : String) : below? name (name ++ "." ++ rest) = some rest := by
  rw [below?, String.append_assoc, Text.rest?_append]
  dsimp only
  rw [Text.rest?_append]

/-- The branch of the property that a path starts with comes first. -/
theorem branches_along (hsorted : Dict.Sorted s.properties)
    (hkey : Dict.find? s.properties name = some h) (hdot : '.' ∉ name.toList)
    (hbracket : '[' ∉ name.toList) (rest : String) :
    ∃ after, branches s (name ++ "." ++ rest) = (h, rest) :: after := by
  obtain ⟨before, after, hsplit⟩ := List.append_of_mem (Dict.mem_of_find? hkey)
  have hlt : ∀ e ∈ before, e.1 < name := fun e he =>
    (List.pairwise_append.1 (hsplit ▸ hsorted)).2.2 e he _ List.mem_cons_self
  rw [branches, hsplit, List.filterMap_append, (List.filterMap_eq_nil_iff (l := before)).2,
    List.nil_append, List.filterMap_cons]
  · dsimp only
    rw [below?_self, Option.map_some]
    exact ⟨_, rfl⟩
  · intro e he
    dsimp only
    rw [below?_of_lt (hlt e he) hdot hbracket, Option.map_none]

variable {names entered : List String}

theorem Chain.openWay (hchain : set.Chain s names entered)
    (hsorted : ∀ t, set.Reachable s t → Dict.Sorted t.properties)
    (hnames : ∀ name ∈ names, '.' ∉ name.toList ∧ '[' ∉ name.toList) :
    set.OpenWay s (dotted names) entered := by
  induction hchain with
  | last harray ht =>
    rw [dotted, String.intercalate_singleton]
    exact .property harray ht
  | @along s t h name names entered harray hkey ht hchain ih =>
    rw [List.forall_mem_cons] at hnames
    have hlink : h ∈ s.links := by
      rw [Schema.links_of_not_array harray]
      exact List.mem_map.2 ⟨_, Dict.mem_of_find? hkey, rfl⟩
    obtain ⟨after, hbranches⟩ := branches_along (hsorted s .refl) hkey hnames.1.1 hnames.1.2
      (dotted names)
    rw [← dotted_cons hchain.names_ne_nil, ← List.nil_append (_ :: after)] at hbranches
    exact .branch harray hbranches ht
      (ih (fun u hu => hsorted u (.head ⟨h, hlink, ht⟩ hu)) hnames.2) nofun

theorem Approach.openWay {root : Schema} {later : List String}
    (hway : set.Approach path s later root entered) (hpath : '[' ∉ path.toList)
    (hs : set.OpenWay s path later) : set.OpenWay root path entered := by
  have hitem : itemPath path = path :=
    itemPath_eq_self fun hitem => hpath (hitem.subset List.mem_cons_self)
  induction hway with
  | here => exact hs
  | items harray hitems ht _ ih => exact .items harray hitems ht (hitem.symm ▸ ih)
  | property harray hbranches ht _ hclear ih => exact .branch harray hbranches ht ih hclear

theorem Approach.reachable {root : Schema} {later : List String}
    (hway : set.Approach path s later root entered) : set.Reachable root s := by
  induction hway with
  | here => exact .refl
  | @items root t h _ harray hitems ht _ ih =>
    refine .head ⟨h, ?_, ht⟩ ih
    rw [Schema.links_of_array harray, hitems]
    exact List.mem_singleton_self _
  | @property root t h _ before after harray hbranches ht _ _ ih =>
    have hmem : (h, path) ∈ branches root path := by simp [hbranches]
    exact .head ⟨h, mem_links_of_mem_branches harray hmem, ht⟩ ih

theorem not_mem_dotted (hnames : ∀ name ∈ names, '.' ∉ name.toList ∧ '[' ∉ name.toList) :
    '[' ∉ (dotted names).toList := by
  intro hmem
  rw [dotted, String.toList_intercalate] at hmem
  rcases Text.eq_or_mem_of_mem_intercalate hmem with heq | ⟨piece, hpiece, hmem⟩
  · exact absurd heq (by decide)
  · obtain ⟨name, hname, rfl⟩ := List.mem_map.1 hpiece
    exact (hnames name hname).2 hmem

/-- A chain of properties is found below every schema that the search can come to, if no named schema is
entered twice from the root to the last schema of the chain, and no branch that is tried before the way to
the chain can enter one of them. -/
theorem find?_of_approach {root : Schema} {later : List String} (hcomplete : set.Complete root)
    (hsorted : ∀ t, set.Reachable root t → Dict.Sorted t.properties)
    (hnames : ∀ name ∈ names, '.' ∉ name.toList ∧ '[' ∉ name.toList)
    (hchain : set.Chain s names later)
    (hway : set.Approach (dotted names) s later root entered)
    (hnodup : entered.Nodup) (hroot : root.id ≠ "" → root.id ∉ entered) :
    (set.find? root (dotted names)).isSome := by
  have hopenWay : set.OpenWay root (dotted names) entered :=
    hway.openWay (not_mem_dotted hnames)
      (hchain.openWay (fun t ht => hsorted t (hway.reachable.trans ht)) hnames)
  have hready : Ready set (set.openFrom root) entered := by
    intro name hname
    rw [openFrom]
    split
    · rfl
    · next hid =>
      rw [Dict.find?_drop, if_neg]
      rintro rfl
      exact hroot hid hname
  exact hopenWay.isSome_findWithin hcomplete (within_openFrom set root)
    (Nat.add_le_add_right (size_openFrom_le set root) _) hready hnodup

theorem not_meets_of_leaf (hlinks : s.links = []) (name : String) : ¬set.Meets (.inline s) name := by
  intro hmeets
  cases hmeets with
  | through hs hlink _ =>
    cases hs
    rw [hlinks] at hlink
    cases hlink

end SchemaSet

namespace Sample

def volume : Schema :=
  schema "Volume" "object" [("size", text)] none []

def boot : Schema :=
  schema "" "object" [("volume", .named "Volume" false)] none []

def rack : Schema :=
  schema "Rack" "object" [("label", text), ("unit", .inline boot)] none []

/-- A computer with a backup, which is looked at before its boot volume. -/
def computer : Schema :=
  schema "Computer" "object" [("backup", .named "Volume" false), ("boot", .inline boot)] none []

def volumes : SchemaSet :=
  [("Computer", computer), ("Rack", rack), ("Volume", volume)]

end Sample

namespace SchemaSet

open Sample

theorem chain_boot : volumes.Chain boot ["volume", "size"] ["Volume"] :=
  .along (h := .named "Volume" false) rfl rfl rfl (.last rfl rfl)

theorem find?_of_approach_size :
    (∀ name ∈ ["volume", "size"], '.' ∉ name.toList ∧ '[' ∉ name.toList) ∧
      volumes.Chain boot ["volume", "size"] ["Volume"] ∧
      volumes.Approach "volume.size" boot ["Volume"] rack ["Volume"] ∧
      (volumes.find? rack "volume.size").isSome := by
  let all := [rack, boot, volume, schema "" "string" [] none []]
  have hroot : rack ∈ all := List.mem_cons_self
  have hlinks : ∀ s ∈ all, ∀ h ∈ s.links, ∃ t, volumes.resolve? h = some t ∧ t ∈ all := by
    simp [all, rack, boot, volume, schema, text, volumes, Schema.links, Schema.isArray, resolve?,
      Dict.find?]
  have hsorted : ∀ s, volumes.Reachable rack s → Dict.Sorted s.properties := by
    have hrack : Dict.Sorted rack.properties := List.pairwise_pair.2 (by decide +kernel)
    have hall : ∀ s ∈ all, Dict.Sorted s.properties := by
      simp only [all, List.forall_mem_cons]
      exact ⟨hrack, List.pairwise_singleton _ _, List.pairwise_singleton _ _, List.Pairwise.nil,
        List.forall_mem_nil _⟩
    exact fun s hs => hall s (of_reachable (P := (· ∈ all)) hroot hlinks hs)
  have hnames : ∀ name ∈ ["volume", "size"], '.' ∉ name.toList ∧ '[' ∉ name.toList := by decide
  have hway : volumes.Approach "volume.size" boot ["Volume"] rack ["Volume"] := by
    have hbranches : branches rack "volume.size" =
        [(text, "volume.size")] ++ [(.inline boot, "volume.size")] := rfl
    refine .property rfl hbranches rfl .here ?_
    rw [List.forall_mem_singleton]
    exact fun name _ => not_meets_of_leaf rfl name
  have hfound := find?_of_approach (complete_of_forall (P := (· ∈ all)) hroot hlinks) hsorted hnames
    chain_boot hway (List.pairwise_singleton _ _) (by decide)
  exact ⟨hnames, chain_boot, hway, hfound⟩

/-- A path is not found that leads back to the machine from which the search starts, nor one to a volume that
the search has looked at for the whole path before. -/
theorem not_find?_chain :
    (machines.Complete machine ∧ machines.IsRoot machine ∧ machines.Reachable machine disk ∧
      machines.Chain disk ["owner", "name"] ["Machine"] ∧
      (machines.find? machine "owner.name").isNone) ∧
    (volumes.Complete computer ∧ volumes.IsRoot computer ∧ volumes.Reachable computer boot ∧
      volumes.Chain boot ["volume", "size"] ["Volume"] ∧
      (volumes.find? computer "volume.size").isNone) := by
  have hdisks : machines.Linked machine diskArray := ⟨.inline diskArray, List.mem_cons_self, rfl⟩
  have hdisk : machines.Linked diskArray disk := ⟨_, List.mem_cons_self, rfl⟩
  have hchain : machines.Chain disk ["owner", "name"] ["Machine"] :=
    .along (h := .named "Machine" false) rfl rfl rfl (.last rfl rfl)
  have hboot : volumes.Linked computer boot :=
    ⟨.inline boot, List.mem_cons_of_mem _ List.mem_cons_self, rfl⟩
  have hcomplete : volumes.Complete computer := by
    let all := [computer, boot, volume, schema "" "string" [] none []]
    refine complete_of_forall (P := (· ∈ all)) List.mem_cons_self ?_
    simp [all, computer, boot, volume, schema, text, volumes, Schema.links, Schema.isArray, resolve?,
      Dict.find?]
  exact ⟨⟨complete_machines, .inr rfl, .tail (.single hdisks) hdisk, hchain, by decide +kernel⟩,
    hcomplete, .inr rfl, .single hboot, chain_boot, by decide +kernel⟩

end SchemaSet
end RestSql
