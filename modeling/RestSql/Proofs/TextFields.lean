import Mathlib.Data.List.Forall2
import RestSql.Proofs.BodyLevels
import RestSql.Proofs.Placement

/-!
# Texts for fields of the body

A text that an INSERT gives for a field of the body is sent as it is, unless it is the text of a JSON object
or array, which is sent instead. For a field that is a text by its schema no other text is refused: the
checks of an INSERT see the same columns whatever the text is, and the body differs in this field only.
-/

namespace RestSql

/-! ## Replaced values -/

namespace Dict

variable {α β : Type} {key : String} {value : α} {l l' : List (String × α)}

/-- The same keys with the same values, but that some of those under `key` are replaced by `value`. -/
def Revised (key : String) (value : α) : List (String × α) → List (String × α) → Prop :=
  List.Forall₂ fun e e' => e'.1 = e.1 ∧ (e'.2 = e.2 ∨ e.1 = key ∧ e'.2 = value)

theorem revised_refl (key : String) (value : α) (l : List (String × α)) : Revised key value l l :=
  List.forall₂_same.2 fun _ _ => ⟨rfl, .inl rfl⟩

theorem Revised.keys_eq (h : Revised key value l l') : keys l' = keys l := by
  induction h with
  | nil => rfl
  | cons he _ ih => exact List.cons_eq_cons.2 ⟨he.1, ih⟩

theorem Revised.mem (h : Revised key value l l') {k : String} {v : α} (hmem : (k, v) ∈ l') :
    (k, v) ∈ l ∨ k = key ∧ v = value := by
  induction h with
  | nil => cases hmem
  | @cons e e' l l' he _ ih =>
      rcases List.mem_cons.1 hmem with rfl | hmem
      · obtain ⟨hkey, hvalue | ⟨hkey', hvalue⟩⟩ := he
        · exact .inl (Prod.ext hkey hvalue ▸ List.mem_cons_self)
        · exact .inr ⟨hkey.trans hkey', hvalue⟩
      · exact (ih hmem).imp_left (List.mem_cons_of_mem _)

theorem Revised.eq_of_not_mem (h : Revised key value l l') (hkey : key ∉ keys l) : l' = l := by
  induction h with
  | nil => rfl
  | cons he _ ih =>
      simp only [keys, List.map_cons, List.mem_cons, not_or] at hkey
      obtain ⟨heq, hvalue | ⟨rfl, -⟩⟩ := he
      · rw [ih hkey.2, Prod.ext heq hvalue]
      · exact absurd rfl hkey.1

theorem Revised.put (h : Revised key value l l') (k : String) {v v' : α}
    (hv : v' = v ∨ k = key ∧ v' = value) : Revised key value (put l k v) (put l' k v') := by
  induction h with
  | nil => exact .cons ⟨rfl, hv⟩ .nil
  | @cons e e' l l' he hl ih =>
      rw [Dict.put, Dict.put, he.1]
      split
      · exact .cons ⟨rfl, hv⟩ hl
      · split
        · exact .cons ⟨rfl, hv⟩ (.cons ⟨rfl, he.2⟩ hl)
        · exact .cons ⟨rfl, he.2⟩ ih

theorem Revised.ofEntries (h : Revised key value l l') :
    Revised key value (ofEntries l) (ofEntries l') := by
  suffices hall : ∀ d d', Revised key value d d' → Revised key value
      (l.foldl (fun d e => Dict.put d e.1 e.2) d) (l'.foldl (fun d e => Dict.put d e.1 e.2) d') from
    hall [] [] .nil
  induction h with
  | nil => exact fun d d' hd => hd
  | cons he _ ih =>
      intro d d' hd
      rw [List.foldl_cons, List.foldl_cons, he.1]
      exact ih _ _ (hd.put _ he.2)

theorem Revised.filter (h : Revised key value l l') (p : String → Bool) :
    Revised key value (l.filter fun e => p e.1) (l'.filter fun e => p e.1) := by
  induction h with
  | nil => exact .nil
  | cons he _ ih =>
      rw [List.filter_cons, List.filter_cons, he.1]
      split
      · exact .cons he ih
      · exact ih

theorem Revised.map (h : Revised key value l l') (g : String → String) (f : α → β) :
    Revised (g key) (f value) (l.map fun e => (g e.1, f e.2)) (l'.map fun e => (g e.1, f e.2)) := by
  refine List.forall₂_map_left_iff.2 (List.forall₂_map_right_iff.2 (h.imp fun e e' he => ?_))
  exact ⟨congrArg g he.1, he.2.imp (congrArg f) fun hkey => ⟨congrArg g hkey.1, congrArg f hkey.2⟩⟩

theorem revised_zip_set {columns : List String} {row : List α} {i : Nat} (value : α)
    (h : columns[i]? = some key) :
    Revised key value (columns.zip row) (columns.zip (row.set i value)) := by
  induction columns generalizing row i with
  | nil => cases h
  | cons column columns ih =>
      cases row with
      | nil => exact .nil
      | cons v row =>
          cases i with
          | zero =>
              cases h
              exact .cons ⟨rfl, .inr ⟨rfl, rfl⟩⟩ (revised_refl key value _)
          | succ i => exact .cons ⟨rfl, .inl rfl⟩ (ih h)

end Dict

/-! ## The split of replaced values -/

namespace Parameters

variable {m : Method} {schemas : SchemaSet} {request response : Option Schema} {column : String}
  {v : Json} {raw raw' : Fields}

/-- A value that is replaced in the body is replaced there, and the other buckets stay the same. -/
theorem split_revised (hs : Dict.Sorted raw) (hs' : Dict.Sorted raw')
    (h : Dict.Revised column v raw raw') {field : String}
    (hplace : placeOf m schemas request response column = .body field) :
    Dict.Revised field v.embedded (split raw m schemas request response).body
        (split raw' m schemas request response).body ∧
      ∀ b, b ≠ .body → (split raw' m schemas request response).bucket b =
        (split raw m schemas request response).bucket b := by
  have hfilter (b : Bucket) :=
    h.filter fun column => decide (bucketOf m schemas request response column = b)
  constructor
  · have hbody := (hfilter .body).map
      (fun column => (placeOf m schemas request response column).key column) (Bucket.form .body)
    rw [hplace] at hbody
    show Dict.Revised field _ (bucket _ .body) (bucket _ .body)
    rw [bucket_split _ _ _ _ hs, bucket_split _ _ _ _ hs']
    exact hbody
  · intro b hb
    rw [bucket_split _ _ _ _ hs, bucket_split _ _ _ _ hs']
    refine congrArg _ ((hfilter b).eq_of_not_mem fun hmem => hb ?_)
    obtain ⟨e, he, rfl⟩ := List.mem_map.1 hmem
    rw [← of_decide_eq_true (List.mem_filter.1 he).2, bucketOf, hplace]
    rfl

end Parameters

/-! ## Checks of replaced values -/

/-- A body stays in order if a field that is a text by its schema gets another text. -/
theorem SchemaSet.checkPayload_revised {set : SchemaSet} {s t : Schema} {method field text : String}
    {payload payload' : Fields} (hfield : set.property? s field = some t) (hkind : t.kind = "string")
    (h : Dict.Revised field (.string text) payload payload')
    (hok : set.checkPayload s method payload = .ok ()) :
    set.checkPayload s method payload' = .ok () := by
  rw [checkPayload_ok, passesAll_object] at hok ⊢
  rw [h.keys_eq]
  refine ⟨fun e he => ?_, hok.2⟩
  rcases h.mem he with he | ⟨hkey, hvalue⟩
  · exact hok.1 e he
  -- any text passes where the schema is one of texts
  · rw [hkey, hvalue]
    exact ⟨t, .property hfield, (passesAll_plain rfl rfl).2 hkind⟩

theorem Method.address_congr {m : Method} {base : String} {p p' : Parameters} (hpath : p'.path = p.path)
    (hquery : p'.query = p.query) : m.address base p' = m.address base p := by
  unfold address
  rw [hpath, hquery]

/-- A request is still made if a field of its body gets another value, which is in the body then. -/
theorem PreparedRequest.make_revised {s : Service} {m : Method} {column field : String} {v : Json}
    {values values' : List (String × Json)} {payload : Option Fields} {r : PreparedRequest}
    (hmake : make s m (Dict.ofEntries values) payload = .ok r) (h : Dict.Revised column v values values')
    (hplace : Parameters.placeOf m s.schemas (m.request.bind (Dict.find? s.schemas))
      (m.response.bind (Dict.find? s.schemas)) column = .body field) :
    ∃ r', make s m (Dict.ofEntries values') payload = .ok r' ∧
      Dict.Revised field v.embedded r.parameters.body r'.parameters.body := by
  obtain ⟨hbody, hother⟩ := Parameters.split_revised (Dict.sorted_ofEntries values)
    (Dict.sorted_ofEntries values') h.ofEntries hplace
  obtain ⟨hparameters, hurl, -⟩ := make_ok hmake
  rw [hparameters] at hurl ⊢
  -- the address is made of the path and the query, which stay the same
  have hurl' := (Method.address_congr (hother .path nofun) (hother .query nofun)).trans hurl
  obtain ⟨r', hmake'⟩ : ∃ r', make s m (Dict.ofEntries values') payload = .ok r' :=
    ⟨_, bind_eq_ok.2 ⟨_, hurl', rfl⟩⟩
  refine ⟨r', hmake', ?_⟩
  rw [(make_ok hmake').1]
  exact hbody

namespace Call

/-- The column of the field is not that of a parameter, and the field is a text by the schema of the request
body. -/
def TextField (c : Call) (field : String) : Prop :=
  c.method.parameter? (bodyMark ++ field) = none ∧
    ∃ s t, c.requestSchema? = some s ∧ c.service.schemas.property? s field = some t ∧ t.kind = "string"

theorem TextField.placeOf {c : Call} {field : String} (h : c.TextField field) :
    c.placeOf (bodyMark ++ field) = .body field := by
  obtain ⟨hparameter, s, t, hs, -⟩ := h
  exact placeOf_field hparameter (Option.isSome_of_eq_some hs)

end Call

/-- The body is sent, and the field has the value in it. -/
def Target.SendsField (t : Target) (field : String) (v : Json) : Prop :=
  t.prepared.request.body = some (Json.object t.prepared.parameters.body).write ∧
    Dict.find? t.prepared.parameters.body field = some v

namespace Analysis

open Parameters

variable {ps : Providers} {current : String} {pageSize : Nat} {c : Context} {t : Target}
  {field : String}

theorem sentValues_revised {call : Call} {place column text : String}
    {entries entries' : List (String × Sql.Expr)} {values : List (String × Json)}
    (h : Dict.Revised column (.literal (.string text)) entries entries')
    (hv : sentValues call place entries = .ok values) :
    ∃ values', sentValues call place entries' = .ok values' ∧
      Dict.Revised column (.string text) values values' := by
  induction h generalizing values with
  | nil =>
      cases hv
      exact ⟨[], rfl, .nil⟩
  | @cons e e' entries entries' he _ ih =>
      obtain ⟨name, e⟩ := e
      obtain ⟨name', e'⟩ := e'
      obtain ⟨rfl : name' = name, he⟩ := he
      simp only [sentValues, bind_eq_ok, pure_eq_ok] at hv
      obtain ⟨⟨⟩, hcolumn, v, hliteral, others, hothers, rfl⟩ := hv
      obtain ⟨others', hothers', hrevised⟩ := ih hothers
      obtain ⟨v', hliteral', hv'⟩ : ∃ v', literal place e' = .ok v' ∧
          (v' = v ∨ name' = column ∧ v' = .string text) := by
        rcases he with rfl | ⟨hname, rfl⟩
        · exact ⟨v, hliteral, .inl rfl⟩
        · exact ⟨_, rfl, .inr ⟨hname, rfl⟩⟩
      refine ⟨(name', v') :: others', ?_, .cons ⟨rfl, hv'⟩ hrevised⟩
      simp only [sentValues, bind_eq_ok, pure_eq_ok]
      exact ⟨⟨⟩, hcolumn, v', hliteral', others', hothers', rfl⟩

theorem checkBody_revised {call : Call} {p p' : PreparedRequest} {text : String}
    (hfield : call.TextField field)
    (h : Dict.Revised field (.string text) p.parameters.body p'.parameters.body)
    (hok : checkBody call p = .ok ()) : checkBody call p' = .ok () := by
  obtain ⟨-, s, t, hs, hproperty, hkind⟩ := hfield
  by_cases hempty : p'.parameters.body = []
  · exact checkBody_of_empty hempty
  · have hne : p.parameters.body ≠ [] := by
      intro hnil
      rw [hnil] at h
      exact hempty (List.forall₂_nil_left_iff.1 h)
    rw [checkBody_ok hs hempty]
    exact SchemaSet.checkPayload_revised hproperty hkind h ((checkBody_ok hs hne).1 hok)

theorem Accepted.sendsField {s : Sql.Statement} (h : Accepted ps current pageSize s c t)
    (hplace : t.call.placeOf (bodyMark ++ field) = .body field) {v : Json}
    (hv : LastFor (supplied s) (bodyMark ++ field) v) : t.SendsField field v.embedded := by
  have hfind := h.valueAt_last hv
  rw [hplace] at hfind
  replace hfind : Dict.find? t.prepared.parameters.body field = some (bodyValue v) := hfind
  rw [bodyValue_eq_embedded] at hfind
  refine ⟨h.carriesParameters.2 _ ?_, hfind⟩
  have hne : t.prepared.parameters.body ≠ [] := List.ne_nil_of_mem (Dict.mem_of_find? hfind)
  rw [body?, List.isEmpty_eq_false_iff.2 hne]
  rfl

theorem Accepted.set_text {s : Sql.Insert} (h : Accepted ps current pageSize (.insert s) c t)
    (hfield : t.call.TextField field) {row : List Sql.Expr} (hrow : s.rows = [row]) {i : Nat}
    (hi : s.columns[i]? = some (bodyMark ++ field)) {text : String} (htext : ∀ v, ¬Json.Embeds text v) :
    ∃ t', Accepted ps current pageSize
      (.insert { s with rows := [row.set i (.literal (.string text))] }) c t' := by
  obtain ⟨c', row, values, hcall, hrow', hlength, hv, hrequired, hp, hb, hitems⟩ :=
    accepted_insert_iff.1 h
  cases hrow.symm.trans hrow'
  obtain ⟨values', hv', hrevised⟩ := sentValues_revised (Dict.revised_zip_set _ hi) hv
  obtain ⟨prepared, hp', hbody⟩ := PreparedRequest.make_revised hp hrevised hfield.placeOf
  rw [Json.embedded_string htext] at hbody
  refine ⟨⟨t.call, prepared, t.itemsKey⟩, accepted_insert_iff.2 ⟨c', _, values', hcall, rfl, ?_, hv', ?_,
    hp', checkBody_revised hfield hbody hb, hitems⟩⟩
  · rw [List.length_set]
    exact hlength
  · rw [hrevised.ofEntries.keys_eq]
    exact hrequired

/-- Of the texts that an accepted INSERT gives for a field of the body the last one is sent: as it is, or as
the object or array that it is the text of. A text that is no such text does not make an INSERT fail if the
field is a text by its schema. -/
theorem text_sent {s : Sql.Insert} (h : Accepted ps current pageSize (.insert s) c t)
    (hfield : t.call.TextField field) :
    (∀ text, LastFor (supplied (.insert s)) (bodyMark ++ field) (.string text) →
      ((∀ v, ¬Json.Embeds text v) → t.SendsField field (.string text)) ∧
      ∀ v, Json.Embeds text v → t.SendsField field v) ∧
    ∀ row i text, s.rows = [row] → s.columns[i]? = some (bodyMark ++ field) →
      (∀ v, ¬Json.Embeds text v) →
      ∃ t', Accepted ps current pageSize
        (.insert { s with rows := [row.set i (.literal (.string text))] }) c t' := by
  constructor
  · intro text hlast
    have hsent := h.sendsField hfield.placeOf hlast
    refine ⟨fun htext => ?_, fun v hv => ?_⟩
    · rwa [Json.embedded_string htext] at hsent
    · rwa [hv.embedded] at hsent
  · intro row i text hrow hi htext
    exact h.set_text hfield hrow hi htext

end Analysis

namespace Sample

open Analysis

/-- The INSERT with the given names is accepted, its name is a text by its schema, and the name is sent as a
text or not. -/
def sendsName (names : List String) (sent : Option String) : Bool :=
  (accepted? providers "google" 0 (.insert (named names)) context).any fun t =>
    (t.call.method.parameter? (bodyMark ++ "name")).isNone ∧
      (t.call.requestSchema?.bind fun s =>
        (t.call.service.schemas.property? s "name").map (·.kind)) = some "string" ∧
      (Dict.find? t.prepared.parameters.body "name").bind Json.text? = sent

theorem accepted_of_sendsName {names : List String} {sent : Option String}
    (h : sendsName names sent = true) :
    ∃ t, Accepted providers "google" 0 (.insert (named names)) context t ∧ t.call.TextField "name" ∧
      ∀ text, sent ≠ some text → ¬t.SendsField "name" (.string text) := by
  obtain ⟨t, ht, h⟩ := (Option.any_eq_true _ _).1 h
  obtain ⟨hparameter, hkind, hsent⟩ := of_decide_eq_true h
  obtain ⟨s, hs, hkind⟩ := Option.bind_eq_some_iff.1 hkind
  obtain ⟨u, hu, hkind⟩ := Option.map_eq_some_iff.1 hkind
  refine ⟨t, accepted_of_eq_some ht, ⟨Option.isNone_iff_eq_none.1 hparameter, s, u, hs, hu, hkind⟩, ?_⟩
  rintro text hne ⟨-, hfind⟩
  rw [hfind] at hsent
  exact hne hsent.symm

end Sample

namespace Analysis

open Sample

theorem not_embeds_of_isNone {text : String} (h : (Json.ofText? text).isNone = true) (v : Json) :
    ¬Json.Embeds text v := by
  rintro ⟨hread, -⟩
  rw [hread] at h
  cases h

theorem text_sent_name :
    ∃ t, Accepted providers "google" 0 (.insert (named ["n"])) context t ∧
      t.call.TextField "name" ∧ t.SendsField "name" (.string "n") ∧
      ∃ t', Accepted providers "google" 0 (.insert (named ["[oops"])) context t' := by
  have hseen : sendsName ["n"] (some "n") = true := by decide +kernel
  obtain ⟨t, h, hfield, -⟩ := accepted_of_sendsName hseen
  obtain ⟨hsent, hset⟩ := text_sent h hfield
  refine ⟨t, h, hfield, (hsent "n" ⟨[("project", .string "p")], [], rfl, nofun⟩).1 ?_, ?_⟩
  · exact not_embeds_of_isNone (by decide +kernel)
  · exact hset _ 1 "[oops" rfl rfl (not_embeds_of_isNone (by decide +kernel))

/-- A text is not sent if it is that of an object, nor if another one follows, and one that is the text of
an array makes an INSERT fail. -/
theorem not_text_sent :
    (∃ t, Accepted providers "google" 0 (.insert (named ["\x7b\x7d"])) context t ∧
      t.call.TextField "name" ∧ ¬t.SendsField "name" (.string "\x7b\x7d")) ∧
    (∃ t, Accepted providers "google" 0 (.insert (named ["a", "b"])) context t ∧
      t.call.TextField "name" ∧ ¬t.SendsField "name" (.string "a")) ∧
    (∃ t, Accepted providers "google" 0 (.insert (named ["n"])) context t ∧ t.call.TextField "name") ∧
      ∀ t, ¬Accepted providers "google" 0 (.insert (named ["[1]"])) context t := by
  have hobject : sendsName ["\x7b\x7d"] none = true := by decide +kernel
  have htwice : sendsName ["a", "b"] (some "b") = true := by decide +kernel
  have hplain : sendsName ["n"] (some "n") = true := by decide +kernel
  have hrefused : (accepted? providers "google" 0 (.insert (named ["[1]"])) context).isNone = true := by
    decide +kernel
  refine ⟨?_, ?_, ?_, ?_⟩
  · obtain ⟨t, h, hfield, hother⟩ := accepted_of_sendsName hobject
    exact ⟨t, h, hfield, hother _ nofun⟩
  · obtain ⟨t, h, hfield, hother⟩ := accepted_of_sendsName htwice
    exact ⟨t, h, hfield, hother _ (by decide)⟩
  · obtain ⟨t, h, hfield, -⟩ := accepted_of_sendsName hplain
    exact ⟨t, h, hfield⟩
  · rintro t ⟨a, ha, ht⟩
    rw [accepted?, ha] at hrefused
    simp [Except.toOption, ht] at hrefused

end Analysis
end RestSql
