import Mathlib.Data.List.Chain
import Mathlib.Data.List.Forall2
import Mathlib.Data.List.Nodup
import RestSql.Json.Decoder
import RestSql.Provider.Documents
import RestSql.Proofs.DeclaredResources

/-!
# Ids of services in statements

Statements write two underscores for a colon of a service id. An underscore before a colon then reads as
the first of the two, so the way back gives the id again exactly if no underscore stands before an
underscore or a colon (`ServiceId.toProvider_toSql_iff`). Such ids stay different in statements, and each
entry of a directory whose ids are all different and of this form is selected by its id
(`ServiceId.reversible_iff_and_select`).
-/

namespace RestSql

namespace Text

variable {old new : List Char}

theorem replace_append (hold : old ≠ []) (cs : List Char) :
    replace old new (old ++ cs) = new ++ replace old new cs := by
  obtain ⟨o, os, rfl⟩ := List.exists_cons_of_ne_nil hold
  have hafter : after? (o :: os) (o :: (os ++ cs)) = some cs := after?_append (o :: os) cs
  rw [List.cons_append, replace, hafter]
  exact if_pos (by simp only [List.length_cons, List.length_append]; omega)

theorem replace_cons_of_not_prefix {c : Char} {cs : List Char} (h : ¬ old <+: c :: cs) :
    replace old new (c :: cs) = c :: replace old new cs := by
  have hafter : after? old (c :: cs) = none :=
    Option.eq_none_iff_forall_ne_some.2 fun rest hrest => h ⟨rest, (eq_append_of_after? hrest).symm⟩
  rw [replace, hafter]

end Text

namespace ServiceId

/-- What may follow a character of an id that is reversible. -/
abbrev Next (c d : Char) : Prop := c = '_' → d ≠ '_' ∧ d ≠ ':'

/-- No underscore of the id stands before an underscore or a colon. -/
def Reversible (id : String) : Prop :=
  id.toList.IsChain Next

instance (id : String) : Decidable (Reversible id) :=
  inferInstanceAs (Decidable (List.IsChain _ _))

/-! ## Both translations on lists of characters -/

/-- The characters with two underscores for each colon. -/
abbrev expand (cs : List Char) : List Char :=
  Text.replace [':'] ['_', '_'] cs

/-- The characters with a colon for every two underscores. -/
abbrev contract (cs : List Char) : List Char :=
  Text.replace ['_', '_'] [':'] cs

theorem expand_nil : expand [] = [] := by
  rw [expand, Text.replace]

theorem expand_colon (cs : List Char) : expand (':' :: cs) = '_' :: '_' :: expand cs :=
  Text.replace_append (List.cons_ne_nil ':' []) cs

theorem expand_cons {c : Char} (hc : c ≠ ':') (cs : List Char) : expand (c :: cs) = c :: expand cs :=
  Text.replace_cons_of_not_prefix (by simpa using hc.symm)

theorem contract_nil : contract [] = [] := by
  rw [contract, Text.replace]

theorem contract_underscores (cs : List Char) : contract ('_' :: '_' :: cs) = ':' :: contract cs :=
  Text.replace_append (List.cons_ne_nil '_' ['_']) cs

theorem contract_cons {c : Char} (hc : c ≠ '_') (cs : List Char) :
    contract (c :: cs) = c :: contract cs :=
  Text.replace_cons_of_not_prefix (by simp [hc.symm])

/-- An underscore that is the last character, or before another one, stays. -/
theorem contract_underscore {cs : List Char} (h : cs.head? ≠ some '_') :
    contract ('_' :: cs) = '_' :: contract cs := by
  refine Text.replace_cons_of_not_prefix ?_
  cases cs with
  | nil => simp
  | cons d cs => simpa using fun hd : '_' = d => h (congrArg some hd.symm)

/-- Induction along the way back: two underscores at once, else one character. -/
theorem contract_induction {P : List Char → Prop} (nil : P [])
    (underscores : ∀ cs, P cs → P ('_' :: '_' :: cs))
    (underscore : ∀ cs, cs.head? ≠ some '_' → P cs → P ('_' :: cs))
    (cons : ∀ c cs, c ≠ '_' → P cs → P (c :: cs)) (cs : List Char) : P cs := by
  cases cs with
  | nil => exact nil
  | cons c cs =>
      by_cases hc : c = '_'
      · subst hc
        cases cs with
        | nil => exact underscore [] (by simp) nil
        | cons d ds =>
            by_cases hd : d = '_'
            · subst hd
              exact underscores ds (contract_induction nil underscores underscore cons ds)
            · exact underscore (d :: ds) (by simpa using hd)
                (contract_induction nil underscores underscore cons (d :: ds))
      · exact cons c cs hc (contract_induction nil underscores underscore cons cs)
termination_by cs.length

theorem colon_not_mem_expand (cs : List Char) : ':' ∉ expand cs := by
  rw [expand, Text.replace_singleton, List.mem_flatMap]
  rintro ⟨c, -, hc⟩
  split at hc
  · simp at hc
  · next h => exact h (List.mem_singleton.1 hc)

/-- The way back is undone by the translation, whatever the text. -/
theorem expand_contract (cs : List Char) : expand (contract cs) = expand cs := by
  induction cs using contract_induction with
  | nil => rw [contract_nil]
  | underscores cs ih =>
      rw [contract_underscores, expand_colon, ih, expand_cons (by decide), expand_cons (by decide)]
  | underscore cs h ih =>
      rw [contract_underscore h, expand_cons (by decide), expand_cons (by decide), ih]
  | cons c cs hc ih =>
      rw [contract_cons hc]
      by_cases hcolon : c = ':'
      · rw [hcolon, expand_colon, expand_colon, ih]
      · rw [expand_cons hcolon, expand_cons hcolon, ih]

theorem expand_of_not_mem {cs : List Char} (h : ':' ∉ cs) : expand cs = cs := by
  induction cs with
  | nil => exact expand_nil
  | cons c cs ih =>
      rw [List.mem_cons, not_or] at h
      rw [expand_cons (Ne.symm h.1), ih h.2]

/-- What comes back from a text without colons is reversible: an underscore that stays is not followed by
another one, so no colon comes of what follows it. -/
theorem isChain_contract {cs : List Char} (h : ':' ∉ cs) : (contract cs).IsChain Next := by
  induction cs using contract_induction with
  | nil => rw [contract_nil]; exact .nil
  | underscores cs ih =>
      simp only [List.mem_cons, not_or] at h
      rw [contract_underscores]
      exact List.isChain_cons.2 ⟨fun d _ hunderscore => absurd hunderscore (by decide), ih h.2.2⟩
  | underscore cs hcs ih =>
      rw [List.mem_cons, not_or] at h
      rw [contract_underscore hcs]
      refine List.isChain_cons.2 ⟨fun d hd _ => ?_, ih h.2⟩
      cases cs with
      | nil => rw [contract_nil] at hd; cases hd
      | cons e cs =>
          have he : e ≠ '_' := fun he => hcs (congrArg some he)
          rw [contract_cons he, List.head?_cons, Option.mem_some_iff] at hd
          subst hd
          exact ⟨he, fun hcolon => h.2 (hcolon ▸ List.mem_cons_self)⟩
  | cons c cs hc ih =>
      rw [List.mem_cons, not_or] at h
      rw [contract_cons hc]
      exact List.isChain_cons.2 ⟨fun d _ hunderscore => absurd hunderscore hc, ih h.2⟩

theorem contract_expand {cs : List Char} (h : cs.IsChain Next) : contract (expand cs) = cs := by
  induction cs with
  | nil => rw [expand_nil, contract_nil]
  | cons c cs ih =>
      obtain ⟨hnext, hcs⟩ := List.isChain_cons.1 h
      by_cases hcolon : c = ':'
      · rw [hcolon, expand_colon, contract_underscores, ih hcs]
      · rw [expand_cons hcolon]
        by_cases hc : c = '_'
        · -- what follows is neither an underscore nor a colon, so it is not the first of two underscores
          have hhead : (expand cs).head? ≠ some '_' := by
            cases cs with
            | nil => rw [expand_nil]; simp
            | cons d cs =>
                obtain ⟨hd, hdcolon⟩ := hnext d rfl hc
                rw [expand_cons hdcolon]
                simpa using hd
          rw [hc, contract_underscore hhead, ih hcs]
        · rw [contract_cons hc, ih hcs]

/-! ## Ids -/

theorem toList_toSql (id : String) : (toSql id).toList = expand id.toList := by
  rw [toSql, String.toList_ofList]

theorem toList_toProvider (id : String) : (toProvider id).toList = contract id.toList := by
  rw [toProvider, String.toList_ofList]

theorem toSql_toProvider (id : String) : toSql (toProvider id) = toSql id := by
  rw [← String.toList_inj, toList_toSql, toList_toProvider, expand_contract, toList_toSql]

theorem toSql_toSql (id : String) : toSql (toSql id) = toSql id := by
  rw [← String.toList_inj, toList_toSql, toList_toSql,
    expand_of_not_mem (colon_not_mem_expand id.toList)]

theorem toProvider_toSql_iff (id : String) : toProvider (toSql id) = id ↔ Reversible id := by
  rw [← String.toList_inj, toList_toProvider, toList_toSql, Reversible]
  constructor
  · intro h
    rw [← h]
    exact isChain_contract (colon_not_mem_expand id.toList)
  · exact contract_expand

/-- Two ids become the same exactly if the way back gives the same: each text of a statement stands for
one id that is reversible, and for others that are not. -/
theorem toSql_eq_toSql_iff (a b : String) :
    toSql a = toSql b ↔ toProvider (toSql a) = toProvider (toSql b) := by
  refine ⟨congrArg toProvider, fun h => ?_⟩
  have hsql := congrArg toSql h
  rwa [toSql_toProvider, toSql_toProvider, toSql_toSql, toSql_toSql] at hsql

theorem Reversible.toSql_injective {a b : String} (ha : Reversible a) (hb : Reversible b)
    (h : toSql a = toSql b) : a = b := by
  rw [toSql_eq_toSql_iff, (toProvider_toSql_iff a).2 ha, (toProvider_toSql_iff b).2 hb] at h
  exact h

end ServiceId

/-! ## The ids of a directory -/

namespace ServiceEntry

open Json (Decoder Record)

/-- The id of an item of a directory, as the provider writes it. -/
def idDecoder : Decoder String := fun depth t => do
  let r ← Record.ofTree? ["id", "name", "title", "description", "version", "preferred",
    "discoveryRestUrl", "documentationLink"] depth t
  r.text? "id"

/-- The ids of the items of a directory. -/
def idsDecoder : Decoder (List String) := fun depth t => do
  let r ← Record.ofTree? ["items"] depth t
  r.field? "items" (Decoder.list idDecoder) []

/-- The ids that the text of a directory lists. -/
def listedIds? (text : String) : Option (List String) :=
  Json.decode? idsDecoder text

variable {depth : Nat} {t : Json.Tree}

theorem id_of_decoder {id : String} {e : ServiceEntry} (hid : idDecoder depth t = some id)
    (he : decoder depth t = some e) : e.id = ServiceId.toSql id := by
  simp only [decoder, idDecoder, Option.bind_eq_bind, Option.bind_eq_some_iff, Option.pure_def,
    Option.some.injEq] at hid he
  obtain ⟨r, hr, hid⟩ := hid
  obtain ⟨r', hr', id', hid', -, -, -, -, -, -, -, -, -, -, -, -, -, -, rfl⟩ := he
  cases hr.symm.trans hr'
  cases hid.symm.trans hid'
  rfl

theorem map_id_of_mapM {items : List Json.Tree} {ids : List String} {entries : List ServiceEntry}
    (hids : items.mapM (idDecoder depth) = some ids) (hentries : items.mapM (decoder depth) = some entries) :
    entries.map (·.id) = ids.map ServiceId.toSql := by
  induction items generalizing ids entries with
  | nil =>
      cases hids
      cases hentries
      rfl
  | cons item items ih =>
      simp only [List.mapM_cons, Option.bind_eq_bind, Option.bind_eq_some_iff, Option.pure_def,
        Option.some.injEq] at hids hentries
      obtain ⟨id, hid, ids, hids, rfl⟩ := hids
      obtain ⟨e, he, entries, hentries, rfl⟩ := hentries
      rw [List.map_cons, List.map_cons, id_of_decoder hid he, ih hids hentries]

theorem map_id_of_list {ids : List String} {entries : List ServiceEntry}
    (hids : Decoder.list idDecoder depth t = some ids)
    (hentries : Decoder.list decoder depth t = some entries) :
    entries.map (·.id) = ids.map ServiceId.toSql := by
  unfold Decoder.list at hids hentries
  split at hids
  · cases hids
  · exact map_id_of_mapM hids hentries
  · cases hids

/-- The entries of a directory have the ids that it lists, as statements write them. -/
theorem map_id_of_directory? {text : String} {ids : List String} {entries : List ServiceEntry}
    (hids : listedIds? text = some ids) (hentries : directory? text = some entries) :
    entries.map (·.id) = ids.map ServiceId.toSql := by
  simp only [listedIds?, directory?, Json.decode?, idsDecoder, directoryDecoder, Option.bind_eq_bind,
    Option.bind_eq_some_iff] at hids hentries
  obtain ⟨tree, htree, r, hr, hids⟩ := hids
  obtain ⟨tree', htree', r', hr', hentries⟩ := hentries
  cases htree.symm.trans htree'
  cases hr.symm.trans hr'
  unfold Record.field? at hids hentries
  split at hids
  · next items hitems =>
    rw [hitems] at hentries
    exact map_id_of_list hids hentries
  · next hitems =>
    rw [hitems] at hentries
    cases hids
    cases hentries
    rfl

end ServiceEntry

/-! ## Selection -/

namespace Provider

/-- An entry whose id no other entry has is selected by every text that becomes its id. -/
theorem select_of_mem {p : Provider} {entries : List ServiceEntry} {e : ServiceEntry} {key : String}
    (hnodup : (entries.map (·.id)).Nodup) (he : e ∈ entries) (hkey : e.id = ServiceId.toSql key) :
    p.select entries key = .ok e := by
  have hfilter : (entries.filter fun x => x.id == ServiceId.toSql key) = [e] := by
    obtain ⟨front, back, rfl⟩ := List.append_of_mem he
    rw [List.map_append, List.map_cons, List.nodup_middle, List.nodup_cons, List.mem_append,
      List.mem_map, List.mem_map, not_or] at hnodup
    obtain ⟨⟨hfront, hback⟩, -⟩ := hnodup
    rw [← hkey, List.filter_append, List.filter_cons, if_pos (beq_self_eq_true e.id),
      List.filter_eq_nil_iff.2 fun x hx h => hfront ⟨x, hx, beq_iff_eq.1 h⟩,
      List.filter_eq_nil_iff.2 fun x hx h => hback ⟨x, hx, beq_iff_eq.1 h⟩, List.nil_append]
  rw [select, hfilter]

/-- Different reversible ids select the entries that have them, as the provider writes them and as
statements do. -/
theorem select_of_reversible (p : Provider) {ids : List String} {entries : List ServiceEntry}
    (hids : entries.map (·.id) = ids.map ServiceId.toSql) (hnodup : ids.Nodup)
    (hreversible : ∀ id ∈ ids, ServiceId.Reversible id) :
    List.Forall₂ (fun id e => p.select entries id = .ok e ∧
      p.select entries (ServiceId.toSql id) = .ok e) ids entries := by
  have hentries : (entries.map (·.id)).Nodup := by
    rw [hids]
    exact hnodup.map_on fun a ha b hb =>
      ServiceId.Reversible.toSql_injective (hreversible a ha) (hreversible b hb)
  have hpairs : List.Forall₂ (· = ·) (ids.map ServiceId.toSql) (entries.map (·.id)) := by
    rw [List.forall₂_eq_eq_eq, hids]
  rw [List.forall₂_map_left_iff, List.forall₂_map_right_iff] at hpairs
  refine List.forall₂_iff_zip.2 ⟨hpairs.length_eq, fun {id e} hmem => ?_⟩
  have he : e ∈ entries := (List.of_mem_zip hmem).2
  have hid : ServiceId.toSql id = e.id := List.forall₂_zip hpairs hmem
  exact ⟨select_of_mem hentries he hid.symm,
    select_of_mem hentries he (by rw [ServiceId.toSql_toSql, hid])⟩

end Provider

/-- The way back gives an id again exactly if no underscore in it stands before an underscore or a colon.
Two such ids are never written the same in statements, and in each directory whose ids are all different
and of this form, every entry is selected by its id, with colons or with underscores. -/
theorem ServiceId.reversible_iff_and_select (p : Provider) (id : String) :
    (toProvider (toSql id) = id ↔ Reversible id) ∧
    (∀ other, Reversible id → Reversible other → toSql id = toSql other → id = other) ∧
    ∀ (text : String) (ids : List String) (entries : List ServiceEntry),
      ServiceEntry.listedIds? text = some ids → ServiceEntry.directory? text = some entries →
      ids.Nodup → (∀ id ∈ ids, Reversible id) →
      List.Forall₂ (fun id e => p.select entries id = .ok e ∧ p.select entries (toSql id) = .ok e)
        ids entries := by
  refine ⟨toProvider_toSql_iff id, fun other hid hother h => hid.toSql_injective hother h, ?_⟩
  intro text ids entries hids hentries hnodup hreversible
  exact p.select_of_reversible (ServiceEntry.map_id_of_directory? hids hentries) hnodup hreversible

/-- Two ids without two underscores in a row that become one: the way back gives the other one, and
neither selects its entry in a directory of both. -/
theorem ServiceId.underscore_before_colon :
    (¬ ['_', '_'] <:+: "a_:b".toList ∧ ¬ ['_', '_'] <:+: "a:_b".toList) ∧
    toProvider (toSql "a_:b") = "a:_b" ∧ toSql "a_:b" = toSql "a:_b" ∧
    (Provider.google (.loaded [] []) .google true).select
        [⟨toSql "a_:b", "first", "", "", "", true, "", ""⟩,
          ⟨toSql "a:_b", "second", "", "", "", true, "", ""⟩] "a_:b" =
      .error (.unknownService "a_:b") := by
  have hfirst : toSql "a_:b" = "a___b" := by simp [toSql, Text.replace_singleton]
  have hsecond : toSql "a:_b" = "a___b" := by simp [toSql, Text.replace_singleton]
  refine ⟨⟨by decide, by decide⟩, ?_, ?_, ?_⟩
  · rw [hfirst, ← String.toList_inj, toList_toProvider]
    have hlist : "a___b".toList = ['a', '_', '_', '_', 'b'] := by simp
    rw [hlist, contract_cons (by decide), contract_underscores, contract_underscore (by decide),
      contract_cons (by decide), contract_nil]
    simp
  · rw [hfirst, hsecond]
  · rw [hfirst, hsecond, Provider.select, hfirst]
    simp

end RestSql
