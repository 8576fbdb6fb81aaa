import Mathlib.Data.List.Basic
import Mathlib.Tactic.Choose
import RestSql.Proofs.TemplateColumns

/-!
# Walks through the schemas end

The searches for a field and for columns, and the values of a template, as walks that carry the names they
have entered and have no bound on their steps: `Searches`, `Lists` and `Renders`. Every step of a walk follows
a handle, and leaves fewer open schemas or a smaller one in place. So for every set of schemas there is a
walk from every root, however they refer to each other; there is only one, and the bounded functions give
what it gives (`SchemaSet.walks_end`).
-/

namespace RestSql

open TemplateValue (maxObjects)

namespace SchemaSet

/-! ## Following a handle -/

/-- What is behind a handle, unless it has a name that was entered before, and the names entered after
it. A name is entered also if no schema has it. -/
def follow (set : SchemaSet) (entered : List String) (h : SchemaHandle) :
    Option Schema × List String :=
  match handleName? h with
  | none => (set.resolve? h, entered)
  | some name => if name ∈ entered then (none, entered) else (set.resolve? h, name :: entered)

variable {set open_ rest : SchemaSet} {entered : List String} {h : SchemaHandle} {s : Schema}

theorem suffix_follow (set : SchemaSet) (entered : List String) (h : SchemaHandle) :
    entered <:+ (set.follow entered h).2 := by
  unfold follow
  split
  · exact List.suffix_rfl
  · split
    · exact List.suffix_rfl
    · exact List.suffix_cons _ _

theorem nodup_follow (hentered : entered.Nodup) (h : SchemaHandle) :
    (set.follow entered h).2.Nodup := by
  unfold follow
  split
  · exact hentered
  · split
    · exact hentered
    · next hnot => exact List.nodup_cons.2 ⟨hnot, hentered⟩

theorem Opens.follow_of_enter (hopen : set.Opens entered open_)
    (he : open_.enter? h = some (s, rest)) :
    (set.follow entered h).1 = some s ∧ set.Opens (set.follow entered h).2 rest := by
  obtain ⟨hs, hname, hrest⟩ := hopen.enter he
  unfold follow
  split
  · next hnone =>
    rw [hnone] at hrest
    exact ⟨hs, hrest⟩
  · next name hsome =>
    rw [hsome] at hname hrest
    rw [if_neg (hname name rfl)]
    exact ⟨hs, hrest⟩

/-- Where no schema is entered there is none, or its name was entered before. -/
theorem Opens.follow_of_not_enter (hopen : set.Opens entered open_) (he : open_.enter? h = none) :
    (set.follow entered h).1 = none ∧ set.Opens (set.follow entered h).2 open_ := by
  cases h with
  | inline t => cases he
  | named name outputOnly =>
      have hclosed : Dict.find? open_ name = none := Option.map_eq_none_iff.1 he
      rw [hopen name] at hclosed
      simp only [follow, handleName?, resolve?]
      split
      · exact ⟨rfl, hopen⟩
      · next hnot =>
        rw [if_neg hnot] at hclosed
        refine ⟨hclosed, fun n => ?_⟩
        rw [hopen n]
        by_cases hn : n = name
        · subst hn
          simp [hclosed]
        · simp [hn]

/-! ## Searches for a field -/

/-- What is left to do of a search. -/
inductive SearchTask
  | below (s : Schema) (path : String)
  /-- Behind the handles, one after the other, each with the path to search for there. -/
  | behind (handles : List (SchemaHandle × String))

/-- The search comes to the result, and the names that were entered before it become those entered after
it. What is behind the property that ends a search is looked at, and not entered. -/
inductive Searches (set : SchemaSet) :
    SearchTask → List String → List String → Option Field → Prop
  | here {s : Schema} {entered : List String} :
      Searches set (.below s "") entered entered (some ⟨s, s.outputOnly⟩)
  | items {s : Schema} {path : String} {entered after : List String} {result : Option Field}
      (hpath : path ≠ "") (harray : s.isArray = true)
      (hbehind : Searches set (.behind (s.items.toList.map fun h => (h, itemPath path))) entered after
        result) :
      Searches set (.below s path) entered after result
  | property {s : Schema} {path : String} {h : SchemaHandle} {entered : List String}
      (hpath : path ≠ "") (harray : s.isArray = false) (hkey : Dict.find? s.properties path = some h) :
      Searches set (.below s path) entered entered
        ((set.resolve? h).map fun t => ⟨t, set.isOutputOnly h⟩)
  | properties {s : Schema} {path : String} {entered after : List String} {result : Option Field}
      (hpath : path ≠ "") (harray : s.isArray = false) (hkey : Dict.find? s.properties path = none)
      (hbehind : Searches set (.behind (branches s path)) entered after result) :
      Searches set (.below s path) entered after result
  | nothing {entered : List String} : Searches set (.behind []) entered entered none
  | passed {h : SchemaHandle} {path : String} {more : List (SchemaHandle × String)}
      {entered after : List String} {result : Option Field}
      (hfollow : (set.follow entered h).1 = none)
      (hmore : Searches set (.behind more) (set.follow entered h).2 after result) :
      Searches set (.behind ((h, path) :: more)) entered after result
  | found {h : SchemaHandle} {path : String} {more : List (SchemaHandle × String)} {s : Schema}
      {entered after : List String} {field : Field} (hfollow : (set.follow entered h).1 = some s)
      (hbelow : Searches set (.below s path) (set.follow entered h).2 after (some field)) :
      Searches set (.behind ((h, path) :: more)) entered after (some field)
  | missed {h : SchemaHandle} {path : String} {more : List (SchemaHandle × String)} {s : Schema}
      {entered between after : List String} {result : Option Field}
      (hfollow : (set.follow entered h).1 = some s)
      (hbelow : Searches set (.below s path) (set.follow entered h).2 between none)
      (hmore : Searches set (.behind more) between after result) :
      Searches set (.behind ((h, path) :: more)) entered after result

variable {task : SearchTask} {after : List String} {result : Option Field} {path : String}

/-- What was entered stays entered, and no name is entered twice. -/
theorem Searches.entered_once (hsearch : set.Searches task entered after result) :
    entered <:+ after ∧ (entered.Nodup → after.Nodup) := by
  induction hsearch with
  | here | property | nothing => exact ⟨List.suffix_rfl, id⟩
  | items _ _ _ ih | properties _ _ _ _ ih => exact ih
  | passed _ _ ih | found _ _ ih =>
      exact ⟨(suffix_follow set _ _).trans ih.1, fun hn => ih.2 (nodup_follow hn _)⟩
  | missed _ _ _ ihbelow ihmore =>
      exact ⟨((suffix_follow set _ _).trans ihbelow.1).trans ihmore.1,
        fun hn => ihmore.2 (ihbelow.2 (nodup_follow hn _))⟩

/-- There is one way for a search to go. -/
theorem Searches.unique {after' : List String} {result' : Option Field}
    (hsearch : set.Searches task entered after result)
    (hsearch' : set.Searches task entered after' result') : after' = after ∧ result' = result := by
  induction hsearch generalizing after' result' with
  | here =>
      cases hsearch' with
      | here => exact ⟨rfl, rfl⟩
      | items hpath | property hpath | properties hpath => exact absurd rfl hpath
  | items hpath harray _ ih =>
      cases hsearch' with
      | here => exact absurd rfl hpath
      | items _ _ hbehind => exact ih hbehind
      | property _ harray' | properties _ harray' => cases harray.symm.trans harray'
  | property hpath harray hkey =>
      cases hsearch' with
      | here => exact absurd rfl hpath
      | items _ harray' => cases harray.symm.trans harray'
      | property _ _ hkey' =>
          cases hkey.symm.trans hkey'
          exact ⟨rfl, rfl⟩
      | properties _ _ hkey' => cases hkey.symm.trans hkey'
  | properties hpath harray hkey _ ih =>
      cases hsearch' with
      | here => exact absurd rfl hpath
      | items _ harray' => cases harray.symm.trans harray'
      | property _ _ hkey' => cases hkey.symm.trans hkey'
      | properties _ _ _ hbehind => exact ih hbehind
  | nothing =>
      cases hsearch'
      exact ⟨rfl, rfl⟩
  | passed hfollow _ ih =>
      cases hsearch' with
      | passed _ hmore => exact ih hmore
      | found hfollow' | missed hfollow' => cases hfollow.symm.trans hfollow'
  | found hfollow _ ih =>
      cases hsearch' with
      | passed hfollow' => cases hfollow.symm.trans hfollow'
      | found hfollow' hbelow =>
          cases hfollow.symm.trans hfollow'
          exact ih hbelow
      | missed hfollow' hbelow =>
          cases hfollow.symm.trans hfollow'
          cases (ih hbelow).2
  | missed hfollow _ _ ihbelow ihmore =>
      cases hsearch' with
      | passed hfollow' => cases hfollow.symm.trans hfollow'
      | found hfollow' hbelow =>
          cases hfollow.symm.trans hfollow'
          cases (ihbelow hbelow).2
      | missed hfollow' hbelow hmore =>
          cases hfollow.symm.trans hfollow'
          obtain ⟨rfl, -⟩ := ihbelow hbelow
          exact ihmore hmore

theorem findWithin_array {fuel : Nat} (hpath : path ≠ "") (harray : s.isArray = true) :
    findWithin set (fuel + 1) open_ s path =
      firstOf (findWithin set fuel) open_ (s.items.toList.map fun h => (h, itemPath path)) := by
  rw [findWithin, if_neg hpath, if_pos harray]
  cases s.items with
  | none => rfl
  | some h =>
      simp only [Option.bind_some, Option.toList_some, List.map_cons, List.map_nil, firstOf]
      cases open_.enter? h with
      | none => rfl
      | some found =>
          obtain ⟨items, rest⟩ := found
          dsimp only
          rcases findWithin set fuel rest items (itemPath path) with ⟨_ | f, left⟩ <;> rfl

/-- A search ends behind each of the handles of a schema if it does with fewer schemas to enter. -/
theorem exists_searches_behind {fuel : Nat}
    (hsearch : ∀ {open_ : SchemaSet} {entered : List String} (t : Schema) (path : String),
      set.Opens entered open_ → open_.size + t.size ≤ fuel →
      ∃ after, set.Searches (.below t path) entered after (findWithin set fuel open_ t path).1 ∧
        set.Opens after (findWithin set fuel open_ t path).2)
    {handles : List (SchemaHandle × String)} (hlinks : ∀ b ∈ handles, b.1 ∈ s.links)
    (hopen : set.Opens entered open_) (hfuel : open_.size + s.size ≤ fuel + 1) :
    ∃ after, set.Searches (.behind handles) entered after
        (firstOf (findWithin set fuel) open_ handles).1 ∧
      set.Opens after (firstOf (findWithin set fuel) open_ handles).2 := by
  induction handles generalizing open_ entered with
  | nil => exact ⟨entered, .nothing, hopen⟩
  | cons b more ih =>
      obtain ⟨h, path⟩ := b
      rw [List.forall_mem_cons] at hlinks
      rw [firstOf]
      cases he : open_.enter? h with
      | none =>
          obtain ⟨hfollow, hafter⟩ := hopen.follow_of_not_enter he
          obtain ⟨after, hmore, hend⟩ := ih hlinks.2 hafter hfuel
          exact ⟨after, .passed hfollow hmore, hend⟩
      | some entry =>
          obtain ⟨t, rest⟩ := entry
          have hsize := size_enter_lt hlinks.1 he
          obtain ⟨hfollow, hrest⟩ := hopen.follow_of_enter he
          obtain ⟨between, hbelow, hbetween⟩ := hsearch t path hrest (by omega)
          have hnarrow := narrows_findWithin set fuel rest t path
          dsimp only
          rcases hfind : findWithin set fuel rest t path with ⟨_ | f, left⟩
          · rw [hfind] at hbelow hbetween hnarrow
            dsimp only at hbetween
            have hleft : left.size ≤ open_.size := (hnarrow.trans (narrows_enter he)).size_le
            obtain ⟨after, hmore, hend⟩ := ih hlinks.2 hbetween (by omega)
            exact ⟨after, .missed hfollow hbelow hmore, hend⟩
          · rw [hfind] at hbelow hbetween
            exact ⟨between, .found hfollow hbelow, hbetween⟩

/-- A search with enough steps goes all the way. -/
theorem exists_searches {fuel : Nat} (hopen : set.Opens entered open_)
    (hfuel : open_.size + s.size ≤ fuel) :
    ∃ after, set.Searches (.below s path) entered after (findWithin set fuel open_ s path).1 ∧
      set.Opens after (findWithin set fuel open_ s path).2 := by
  induction fuel generalizing open_ entered s path with
  | zero =>
      have hpos := s.size_pos
      omega
  | succ fuel ih =>
      by_cases hpath : path = ""
      · subst hpath
        exact ⟨entered, .here, hopen⟩
      · cases harray : s.isArray with
        | true =>
            rw [findWithin_array hpath harray]
            have hlinks : ∀ b ∈ s.items.toList.map fun h => (h, itemPath path), b.1 ∈ s.links := by
              simp [Schema.links_of_array harray]
            obtain ⟨after, hbehind, hend⟩ := exists_searches_behind (fun _ _ => ih) hlinks hopen hfuel
            exact ⟨after, .items hpath harray hbehind, hend⟩
        | false =>
            rw [findWithin, if_neg hpath, if_neg (by simp [harray])]
            cases hkey : Dict.find? s.properties path with
            | some h => exact ⟨entered, .property hpath harray hkey, hopen⟩
            | none =>
                obtain ⟨after, hbehind, hend⟩ := exists_searches_behind (fun _ _ => ih)
                  (fun b hb => mem_links_of_mem_branches harray hb) hopen hfuel
                exact ⟨after, .properties hpath harray hkey hbehind, hend⟩

/-! ## Columns -/

/-- The columns of a schema, and the names entered before and after they are listed. Properties are looked
at, and not entered. -/
inductive Lists (set : SchemaSet) : Schema → List String → List String → List String → Prop
  | properties {s : Schema} {entered : List String} (harray : s.isArray = false) :
      Lists set s entered entered ((s.properties.filter fun e => !set.isOutputOnly e.2).map Prod.fst)
  | noItems {s : Schema} {entered : List String} (harray : s.isArray = true) (hitems : s.items = none) :
      Lists set s entered entered []
  | passed {s : Schema} {h : SchemaHandle} {entered : List String} (harray : s.isArray = true)
      (hitems : s.items = some h) (hfollow : (set.follow entered h).1 = none) :
      Lists set s entered (set.follow entered h).2 []
  | items {s t : Schema} {h : SchemaHandle} {entered after columns : List String}
      (harray : s.isArray = true) (hitems : s.items = some h)
      (hfollow : (set.follow entered h).1 = some t)
      (hlist : Lists set t (set.follow entered h).2 after columns) :
      Lists set s entered after columns

variable {columns : List String}

theorem Lists.entered_once (hlist : set.Lists s entered after columns) :
    entered <:+ after ∧ (entered.Nodup → after.Nodup) := by
  induction hlist with
  | properties | noItems => exact ⟨List.suffix_rfl, id⟩
  | passed => exact ⟨suffix_follow set _ _, fun hn => nodup_follow hn _⟩
  | items _ _ _ _ ih =>
      exact ⟨(suffix_follow set _ _).trans ih.1, fun hn => ih.2 (nodup_follow hn _)⟩

theorem Lists.unique {after' columns' : List String} (hlist : set.Lists s entered after columns)
    (hlist' : set.Lists s entered after' columns') : after' = after ∧ columns' = columns := by
  induction hlist generalizing after' columns' with
  | properties harray =>
      cases hlist' with
      | properties => exact ⟨rfl, rfl⟩
      | noItems harray' | passed harray' | items harray' => cases harray.symm.trans harray'
  | noItems harray hitems =>
      cases hlist' with
      | properties harray' => cases harray.symm.trans harray'
      | noItems => exact ⟨rfl, rfl⟩
      | passed _ hitems' | items _ hitems' => cases hitems.symm.trans hitems'
  | passed harray hitems hfollow =>
      cases hlist' with
      | properties harray' => cases harray.symm.trans harray'
      | noItems _ hitems' => cases hitems.symm.trans hitems'
      | passed _ hitems' =>
          cases hitems.symm.trans hitems'
          exact ⟨rfl, rfl⟩
      | items _ hitems' hfollow' =>
          cases hitems.symm.trans hitems'
          cases hfollow.symm.trans hfollow'
  | items harray hitems hfollow _ ih =>
      cases hlist' with
      | properties harray' => cases harray.symm.trans harray'
      | noItems _ hitems' => cases hitems.symm.trans hitems'
      | passed _ hitems' hfollow' =>
          cases hitems.symm.trans hitems'
          cases hfollow.symm.trans hfollow'
      | items _ hitems' hfollow' hlist =>
          cases hitems.symm.trans hitems'
          cases hfollow.symm.trans hfollow'
          exact ih hlist

theorem exists_lists {fuel : Nat} (hopen : set.Opens entered open_)
    (hfuel : open_.size + s.size ≤ fuel) :
    ∃ after, set.Lists s entered after (columnsWithin set fuel open_ s) := by
  induction fuel generalizing open_ entered s with
  | zero =>
      have hpos := s.size_pos
      omega
  | succ fuel ih =>
      rw [columnsWithin]
      cases harray : s.isArray with
      | false => exact ⟨entered, .properties harray⟩
      | true =>
          rw [if_pos rfl]
          cases hitems : s.items with
          | none => exact ⟨entered, .noItems harray hitems⟩
          | some h =>
              have hlink : h ∈ s.links := by simp [Schema.links_of_array harray, hitems]
              rw [Option.bind_some]
              cases he : open_.enter? h with
              | none => exact ⟨_, .passed harray hitems (hopen.follow_of_not_enter he).1⟩
              | some entry =>
                  obtain ⟨t, rest⟩ := entry
                  have hsize := size_enter_lt hlink he
                  obtain ⟨hfollow, hrest⟩ := hopen.follow_of_enter he
                  obtain ⟨after, hlist⟩ := ih (s := t) hrest (by omega)
                  exact ⟨after, .items harray hitems hfollow hlist⟩

/-! ## Values of a template -/

/-- The properties that the caller may set. -/
abbrev settable (set : SchemaSet) (s : Schema) : List (String × SchemaHandle) :=
  s.properties.filter fun e => !set.isOutputOnly e.2

/-- The value behind a handle. It stands within the schemas that were entered above it, and `chains` are
the names entered within each other at each handle that is followed. -/
inductive Renders (set : SchemaSet) :
    List String → Nat → String → SchemaHandle → List (List String) → Option TemplateValue → Prop
  | passed {within : List String} {level : Nat} {path : String} {h : SchemaHandle}
      (hfollow : (set.follow within h).1 = none) :
      Renders set within level path h [(set.follow within h).2] none
  | deep {within : List String} {level : Nat} {path : String} {h : SchemaHandle} {s : Schema}
      (hfollow : (set.follow within h).1 = some s) (hobject : s.isObject = true)
      (hlevel : maxObjects < level) :
      Renders set within level path h [(set.follow within h).2] none
  | object {within : List String} {level : Nat} {path : String} {h : SchemaHandle} {s : Schema}
      {chains : String × SchemaHandle → List (List String)}
      {value : String × SchemaHandle → Option TemplateValue}
      (hfollow : (set.follow within h).1 = some s) (hobject : s.isObject = true)
      (hlevel : level ≤ maxObjects)
      (hfields : ∀ e ∈ set.settable s,
        Renders set (set.follow within h).2 (level + 1) (path ++ "." ++ e.1) e.2 (chains e) (value e)) :
      Renders set within level path h ((set.follow within h).2 :: (set.settable s).flatMap chains)
        (TemplateValue.object? ((set.settable s).filterMap fun e => (value e).map fun v => (e.1, v)))
  | noItems {within : List String} {level : Nat} {path : String} {h : SchemaHandle} {s : Schema}
      (hfollow : (set.follow within h).1 = some s) (hobject : s.isObject = false)
      (harray : s.isArray = true) (hitems : s.items = none) :
      Renders set within level path h [(set.follow within h).2] none
  | items {within : List String} {level : Nat} {path : String} {h i : SchemaHandle} {s : Schema}
      {chains : List (List String)} {value : Option TemplateValue}
      (hfollow : (set.follow within h).1 = some s) (hobject : s.isObject = false)
      (harray : s.isArray = true) (hitems : s.items = some i)
      (hitem : Renders set (set.follow within h).2 level (path ++ "[0]") i chains value) :
      Renders set within level path h ((set.follow within h).2 :: chains) (value.map .array)
  | slot {within : List String} {level : Nat} {path : String} {h : SchemaHandle} {s : Schema}
      (hfollow : (set.follow within h).1 = some s) (hobject : s.isObject = false)
      (harray : s.isArray = false) :
      Renders set within level path h [(set.follow within h).2] (some (.slot path s.isText))

variable {within : List String} {level : Nat} {chains : List (List String)}
  {value : Option TemplateValue}

/-- No named schema is entered within itself. -/
theorem Renders.entered_once (hrender : set.Renders within level path h chains value)
    (hwithin : within.Nodup) : ∀ chain ∈ chains, within <:+ chain ∧ chain.Nodup := by
  have here {within : List String} {h : SchemaHandle} (hwithin : within.Nodup) :
      within <:+ (set.follow within h).2 ∧ (set.follow within h).2.Nodup :=
    ⟨suffix_follow set within h, nodup_follow hwithin h⟩
  induction hrender with
  | passed | deep | noItems | slot => exact List.forall_mem_singleton.2 (here hwithin)
  | object _ _ _ _ ih =>
      refine List.forall_mem_cons.2 ⟨here hwithin, fun chain hchain => ?_⟩
      obtain ⟨e, he, hchain⟩ := List.mem_flatMap.1 hchain
      obtain ⟨hsuffix, hnodup⟩ := ih e he (here hwithin).2 chain hchain
      exact ⟨(here hwithin).1.trans hsuffix, hnodup⟩
  | items _ _ _ _ _ ih =>
      refine List.forall_mem_cons.2 ⟨here hwithin, fun chain hchain => ?_⟩
      obtain ⟨hsuffix, hnodup⟩ := ih (here hwithin).2 chain hchain
      exact ⟨(here hwithin).1.trans hsuffix, hnodup⟩

theorem Renders.unique {chains' : List (List String)} {value' : Option TemplateValue}
    (hrender : set.Renders within level path h chains value)
    (hrender' : set.Renders within level path h chains' value') : chains' = chains ∧ value' = value := by
  induction hrender generalizing chains' value' with
  | passed hfollow =>
      cases hrender' with
      | passed => exact ⟨rfl, rfl⟩
      | deep hfollow' | object hfollow' | noItems hfollow' | items hfollow' | slot hfollow' =>
          cases hfollow.symm.trans hfollow'
  | deep hfollow hobject hlevel =>
      cases hrender' with
      | passed hfollow' => cases hfollow.symm.trans hfollow'
      | deep => exact ⟨rfl, rfl⟩
      | object _ _ hlevel' => exact absurd hlevel (Nat.not_lt.2 hlevel')
      | noItems hfollow' hobject' | items hfollow' hobject' | slot hfollow' hobject' =>
          cases hfollow.symm.trans hfollow'
          cases hobject.symm.trans hobject'
  | @object _ _ _ _ s chains value hfollow hobject hlevel _ ih =>
      cases hrender' with
      | passed hfollow' => cases hfollow.symm.trans hfollow'
      | deep _ _ hlevel' => exact absurd hlevel' (Nat.not_lt.2 hlevel)
      | @object _ _ _ _ s' chains' value' hfollow' _ _ hfields =>
          cases hfollow.symm.trans hfollow'
          have hsame : ∀ e ∈ set.settable s, chains' e = chains e ∧ value' e = value e :=
            fun e he => ih e he (hfields e he)
          have hchains : (set.settable s).flatMap chains' = (set.settable s).flatMap chains :=
            List.flatMap_congr fun e he => (hsame e he).1
          have hvalues : ((set.settable s).filterMap fun e => (value' e).map fun v => (e.1, v)) =
              (set.settable s).filterMap fun e => (value e).map fun v => (e.1, v) :=
            List.filterMap_congr fun e he => by rw [(hsame e he).2]
          exact ⟨by rw [hchains], by rw [hvalues]⟩
      | noItems hfollow' hobject' | items hfollow' hobject' | slot hfollow' hobject' =>
          cases hfollow.symm.trans hfollow'
          cases hobject.symm.trans hobject'
  | noItems hfollow hobject harray hitems =>
      cases hrender' with
      | passed hfollow' => cases hfollow.symm.trans hfollow'
      | deep hfollow' hobject' | object hfollow' hobject' =>
          cases hfollow.symm.trans hfollow'
          cases hobject.symm.trans hobject'
      | noItems => exact ⟨rfl, rfl⟩
      | items hfollow' _ _ hitems' =>
          cases hfollow.symm.trans hfollow'
          cases hitems.symm.trans hitems'
      | slot hfollow' _ harray' =>
          cases hfollow.symm.trans hfollow'
          cases harray.symm.trans harray'
  | items hfollow hobject harray hitems _ ih =>
      cases hrender' with
      | passed hfollow' => cases hfollow.symm.trans hfollow'
      | deep hfollow' hobject' | object hfollow' hobject' =>
          cases hfollow.symm.trans hfollow'
          cases hobject.symm.trans hobject'
      | noItems hfollow' _ _ hitems' =>
          cases hfollow.symm.trans hfollow'
          cases hitems.symm.trans hitems'
      | items hfollow' _ _ hitems' hitem =>
          cases hfollow.symm.trans hfollow'
          cases hitems.symm.trans hitems'
          obtain ⟨rfl, rfl⟩ := ih hitem
          exact ⟨rfl, rfl⟩
      | slot hfollow' _ harray' =>
          cases hfollow.symm.trans hfollow'
          cases harray.symm.trans harray'
  | slot hfollow hobject harray =>
      cases hrender' with
      | passed hfollow' => cases hfollow.symm.trans hfollow'
      | deep hfollow' hobject' | object hfollow' hobject' =>
          cases hfollow.symm.trans hfollow'
          cases hobject.symm.trans hobject'
      | noItems hfollow' _ harray' | items hfollow' _ harray' =>
          cases hfollow.symm.trans hfollow'
          cases harray.symm.trans harray'
      | slot hfollow' =>
          cases hfollow.symm.trans hfollow'
          exact ⟨rfl, rfl⟩

/-- With enough steps a value is written all the way down. -/
theorem exists_renders {fuel : Nat} {t : Schema} (hopen : set.Opens within open_) (hinside : t.Holds h)
    (hfuel : open_.size + t.size ≤ fuel) :
    ∃ chains, set.Renders within level path h chains
      (TemplateValue.ofHandle set fuel open_ level path h) := by
  induction fuel generalizing open_ within level path h t with
  | zero =>
      have hpos := t.size_pos
      omega
  | succ fuel ih =>
      rw [TemplateValue.ofHandle]
      cases he : open_.enter? h with
      | none => exact ⟨_, .passed (hopen.follow_of_not_enter he).1⟩
      | some entry =>
          obtain ⟨s, rest⟩ := entry
          have hsize := size_enter_lt_of_inline hinside he
          obtain ⟨hfollow, hrest⟩ := hopen.follow_of_enter he
          dsimp only
          cases hobject : s.isObject with
          | true =>
              rw [if_pos rfl]
              by_cases hlevel : maxObjects < level
              · rw [if_pos hlevel]
                exact ⟨_, .deep hfollow hobject hlevel⟩
              · rw [if_neg hlevel]
                have hfields : ∀ e : String × SchemaHandle, ∃ chains, e ∈ set.settable s →
                    set.Renders (set.follow within h).2 (level + 1) (path ++ "." ++ e.1) e.2 chains
                      (TemplateValue.ofHandle set fuel rest (level + 1) (path ++ "." ++ e.1) e.2) := by
                  intro e
                  by_cases hmem : e ∈ set.settable s
                  · have hproperty : s.Holds e.2 :=
                      Schema.holds_of_property (List.mem_filter.1 hmem).1
                    obtain ⟨chains, hrender⟩ := ih hrest hproperty (by omega)
                    exact ⟨chains, fun _ => hrender⟩
                  · exact ⟨[], fun h => absurd h hmem⟩
                choose chains hfields using hfields
                exact ⟨_, .object hfollow hobject (Nat.not_lt.1 hlevel) hfields⟩
          | false =>
              rw [if_neg Bool.false_ne_true]
              cases harray : s.isArray with
              | false => exact ⟨_, .slot hfollow hobject harray⟩
              | true =>
                  rw [if_pos rfl]
                  cases hitems : s.items with
                  | none => exact ⟨_, .noItems hfollow hobject harray hitems⟩
                  | some i =>
                      obtain ⟨chains, hrender⟩ := ih hrest (Schema.holds_of_items hitems) (by omega)
                      exact ⟨_, .items hfollow hobject harray hitems hrender⟩

end SchemaSet

/-! ## Nested objects -/

namespace TemplateValue

mutual

/-- How many objects are nested in a value, itself included. -/
def objectDepth : TemplateValue → Nat
  | slot _ _ => 0
  | array item => objectDepth item
  | object fields => 1 + fieldsDepth fields

def fieldsDepth : List (String × TemplateValue) → Nat
  | [] => 0
  | (_, v) :: rest => max (objectDepth v) (fieldsDepth rest)

end

theorem fieldsDepth_le_iff {fields : List (String × TemplateValue)} {n : Nat} :
    fieldsDepth fields ≤ n ↔ ∀ e ∈ fields, e.2.objectDepth ≤ n := by
  induction fields with
  | nil => simp [fieldsDepth]
  | cons e rest ih =>
      obtain ⟨key, v⟩ := e
      rw [fieldsDepth, Nat.max_le, ih, List.forall_mem_cons]

end TemplateValue

/-- With `level` objects around and including the first one of a value, there are never too many. -/
theorem SchemaSet.Renders.objectDepth_le {set : SchemaSet} {within : List String} {level : Nat}
    {path : String} {h : SchemaHandle} {chains : List (List String)} {value : Option TemplateValue}
    (hrender : set.Renders within level path h chains value) (hlevel : level ≤ maxObjects + 1) :
    ∀ v ∈ value, level + v.objectDepth ≤ maxObjects + 1 := by
  induction hrender with
  | passed | deep | noItems => exact nofun
  | @object _ level _ _ s _ value _ _ hobjects _ ih =>
      intro v hv
      obtain ⟨fields, rfl, hfields⟩ : ∃ fields, v = .object fields ∧ fields =
          (set.settable s).filterMap fun e => (value e).map fun v => (e.1, v) := by
        unfold TemplateValue.object? at hv
        split at hv
        · cases hv
        · exact ⟨_, (Option.some.inj hv).symm, rfl⟩
      have hdepth : TemplateValue.fieldsDepth fields ≤ maxObjects - level := by
        rw [TemplateValue.fieldsDepth_le_iff, hfields]
        intro e he
        obtain ⟨property, hproperty, he⟩ := List.mem_filterMap.1 he
        obtain ⟨inner, hinner, rfl⟩ := Option.map_eq_some_iff.1 he
        have hle := ih property hproperty (Nat.succ_le_succ hobjects) inner hinner
        dsimp only
        omega
      rw [TemplateValue.objectDepth]
      omega
  | items _ _ _ _ _ ih =>
      intro v hv
      obtain ⟨item, hitem, rfl⟩ := Option.map_eq_some_iff.1 hv
      exact ih hlevel item hitem
  | slot =>
      intro v hv
      cases hv
      exact hlevel

/-- The names that are entered when a walk begins at a schema: its own one. -/
def Schema.ownName (s : Schema) : List String :=
  if s.id = "" then [] else [s.id]

theorem Schema.nodup_ownName (s : Schema) : s.ownName.Nodup := by
  unfold ownName
  split
  · exact List.nodup_nil
  · exact List.nodup_cons.2 ⟨List.not_mem_nil, List.nodup_nil⟩

namespace InsertTemplate

variable {set : SchemaSet} {m : Method} {root s : Schema} {requiredOnly extended : Bool}
  {table : String} {t : InsertTemplate} {e : TemplateEntry}

theorem exists_renders_fieldValue {key : String} {h : SchemaHandle} (column : String)
    (hkey : (key, h) ∈ root.properties) (hnested : s.isObject || s.isArray) :
    ∃ chains, set.Renders root.ownName 1 column h chains (fieldValue set root s column h) := by
  rw [fieldValue, if_pos hnested]
  exact SchemaSet.exists_renders (SchemaSet.opens_openFrom set root) (Schema.holds_of_property hkey)
    (Nat.add_le_add_right (SchemaSet.size_openFrom_le set root) root.size)

theorem objectDepth_fieldValue_le {key column : String} {h : SchemaHandle}
    (hkey : (key, h) ∈ root.properties) {v : TemplateValue}
    (hv : fieldValue set root s column h = some v) : v.objectDepth ≤ maxObjects := by
  by_cases hnested : (s.isObject || s.isArray) = true
  · obtain ⟨chains, hrender⟩ :
        ∃ chains, set.Renders root.ownName 1 column h chains (fieldValue set root s column h) :=
      exists_renders_fieldValue column hkey hnested
    have hle := hrender.objectDepth_le (by decide) v hv
    omega
  · rw [fieldValue, if_neg hnested] at hv
    cases hv
    exact Nat.zero_le _

theorem mem_of_namedEntries {entries fields : List TemplateEntry} {columns : List String}
    (h : namedEntries entries columns = .ok fields) (he : e ∈ fields) : e ∈ entries := by
  rw [namedEntries, mapM_eq_ok] at h
  have hok : (.ok e : Except ValidationError TemplateEntry) ∈ fields.map .ok := List.mem_map_of_mem he
  rw [← h] at hok
  obtain ⟨column, -, hcolumn⟩ := List.mem_map.1 hok
  split at hcolumn
  · next hfind =>
    cases hcolumn
    exact List.mem_of_find?_eq_some hfind
  · cases hcolumn

theorem objectDepth_body_le {request : Option Schema} {entries : List TemplateEntry}
    (hbody : body set m requiredOnly request = .ok entries) (he : e ∈ entries) :
    e.value.objectDepth ≤ maxObjects := by
  unfold body at hbody
  split at hbody
  · cases hbody
    cases he
  · next root =>
    split at hbody
    · cases hbody
      rw [bodyEntries_eq] at he
      obtain ⟨⟨key, h⟩, hkey, he⟩ := List.mem_filterMap.1 he
      obtain ⟨s, -, -, -, -, hvalue⟩ := entryOf_eq_some.1 he
      exact objectDepth_fieldValue_le hkey hvalue
    · cases hbody

theorem objectDepth_of_make {request : Option Schema} {columns : List String}
    (h : make table m set request columns extended requiredOnly = .ok t) (he : e ∈ t.entries) :
    e.value.objectDepth ≤ maxObjects := by
  have hparameter {l : List Parameter} (he : e ∈ l.map parameterEntry) :
      e.value.objectDepth ≤ maxObjects := by
    obtain ⟨p, -, rfl⟩ := List.mem_map.1 he
    exact Nat.zero_le _
  unfold make at h
  split at h
  · obtain ⟨entries, hbody, h⟩ := bind_eq_ok.1 h
    cases h
    rcases List.mem_append.1 he with he | he
    · exact hparameter he
    · exact objectDepth_body_le hbody he
  · obtain ⟨found, -, h⟩ := bind_eq_ok.1 h
    obtain ⟨entries, hbody, h⟩ := bind_eq_ok.1 h
    obtain ⟨fields, hfields, h⟩ := bind_eq_ok.1 h
    cases h
    rcases List.mem_append.1 he with he | he
    · exact hparameter he
    · exact objectDepth_body_le hbody (mem_of_namedEntries hfields he)

end InsertTemplate

/-- Every walk ends, whatever the schemas refer to. A search below a root, and the listing of its columns,
are each the result of one walk, which enters no name twice. So is the value of each field of a body that
is an object or an array, in which no schema is entered within itself; and in no template are too many
objects nested in the value of a column. -/
theorem SchemaSet.walks_end (set : SchemaSet) (root : Schema) :
    (∀ path, ∃ after, set.Searches (.below root path) root.ownName after (set.find? root path) ∧
      root.ownName <:+ after ∧ after.Nodup ∧
      ∀ after' result, set.Searches (.below root path) root.ownName after' result →
        after' = after ∧ result = set.find? root path) ∧
    (∃ after, set.Lists root [] after (set.columns root) ∧ after.Nodup ∧
      ∀ after' columns, set.Lists root [] after' columns →
        after' = after ∧ columns = set.columns root) ∧
    (∀ key h s column, (key, h) ∈ root.properties → set.resolve? h = some s →
      (s.isObject || s.isArray) →
      ∃ chains, set.Renders root.ownName 1 column h chains
          (InsertTemplate.fieldValue set root s column h) ∧
        (∀ chain ∈ chains, root.ownName <:+ chain ∧ chain.Nodup) ∧
        ∀ chains' value, set.Renders root.ownName 1 column h chains' value →
          chains' = chains ∧ value = InsertTemplate.fieldValue set root s column h) ∧
    ∀ table m request columns extended requiredOnly t,
      InsertTemplate.make table m set request columns extended requiredOnly = .ok t →
      ∀ e ∈ t.entries, e.value.objectDepth ≤ maxObjects := by
  refine ⟨fun path => ?_, ?_, fun key h s column hkey _ hnested => ?_,
    fun _ _ _ _ _ _ _ hmake _ he => InsertTemplate.objectDepth_of_make hmake he⟩
  · obtain ⟨after, hsearch, -⟩ : ∃ after, set.Searches (.below root path) root.ownName after
        (set.find? root path) ∧ _ :=
      exists_searches (opens_openFrom set root)
        (Nat.add_le_add_right (size_openFrom_le set root) root.size)
    exact ⟨after, hsearch, hsearch.entered_once.1, hsearch.entered_once.2 root.nodup_ownName,
      fun _ _ => hsearch.unique⟩
  · have hopen : set.Opens [] set := fun name => by simp
    obtain ⟨after, hlist⟩ := exists_lists hopen (Nat.le_refl (set.size + root.size))
    exact ⟨after, hlist, hlist.entered_once.2 List.nodup_nil, fun _ _ => hlist.unique⟩
  · obtain ⟨chains, hrender⟩ := InsertTemplate.exists_renders_fieldValue column hkey hnested
    exact ⟨chains, hrender, hrender.entered_once root.nodup_ownName, fun _ _ => hrender.unique⟩

end RestSql
