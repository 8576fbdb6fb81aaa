import RestSql.Proofs.Accepted

/-!
# Which values are sent

The values that a statement supplies are put into its request one after the other, each at its place
(`Parameters.valueAt_split`). Of several values for one name the last one is sent, and nothing else
replaces a value.
-/

namespace RestSql

namespace Parameters

/-! ## Values by place -/

/-- The value of the column `key` at a place. -/
def valueAt (p : Parameters) (place : Place) (key : String) : Option Json :=
  match place with
  | .path => Dict.find? p.path key
  | .query => Dict.find? p.query key
  | .body field => Dict.find? p.body field
  | .response => Dict.find? p.response key
  | .unassigned => Dict.find? p.unassigned key

/-- The form in which a value stands at a place. -/
def Place.form (place : Place) (v : Json) : Json :=
  match place with
  | .body _ => bodyValue v
  | _ => v

theorem valueAt_empty (place : Place) (key : String) : empty.valueAt place key = none := by
  cases place <;> rfl

theorem valueAt_add_self (p : Parameters) (place : Place) (key : String) (v : Json) :
    (p.add place key v).valueAt place key = some (place.form v) := by
  cases place <;> exact Dict.find?_put_self _ _ _

/-- Two columns do not meet at a place, unless they are the same field of the body. -/
theorem valueAt_add_of_ne (p : Parameters) {place place' : Place} {key key' : String} (v : Json)
    (hkey : key' ≠ key) (hbody : ∀ field, place' = .body field → place ≠ .body field) :
    (p.add place' key' v).valueAt place key = p.valueAt place key := by
  cases place' with
  | body field' =>
      cases place with
      | body field =>
          have hf : field' ≠ field := fun h => hbody field' rfl (h ▸ rfl)
          exact (Dict.find?_put _ _ _ _).trans (if_neg hf)
      | _ => rfl
  | _ => cases place <;> first | rfl | exact (Dict.find?_put _ _ _ _).trans (if_neg hkey)

section

variable (m : Method) (schemas : SchemaSet) (request response : Option Schema)

/-- The field of the body that a column means has the name of the column after the mark. -/
theorem eq_of_placeOf_body {key field : String}
    (h : placeOf m schemas request response key = .body field) : key = bodyMark ++ field := by
  unfold placeOf at h
  split at h
  · split at h <;> cases h
  · split at h
    · next hf =>
      cases h
      obtain ⟨_, -, hf⟩ := Option.bind_eq_some_iff.1 hf
      exact Text.eq_append_of_rest? hf
    · split at h <;> cases h

theorem valueAt_foldl (raw : Fields) (hs : Dict.Sorted raw) (key : String) (p : Parameters) :
    let place := placeOf m schemas request response
    (raw.foldl (fun p (key, v) => p.add (place key) key v) p).valueAt (place key) key =
      ((Dict.find? raw key).map (place key).form).or (p.valueAt (place key) key) := by
  intro place
  induction raw generalizing p with
  | nil => rfl
  | cons e rest ih =>
      obtain ⟨key', v⟩ := e
      rw [List.foldl_cons, ih hs.of_cons]
      by_cases hk : key' = key
      -- the key is put here, and as the keys increase it is not put again
      · subst hk
        rw [hs.find?_tail, Dict.find?, if_pos rfl]
        exact valueAt_add_self p (place key') key' v
      · have hbody : ∀ field, place key' = .body field → place key ≠ .body field := by
          intro field h h'
          exact hk ((eq_of_placeOf_body m schemas request response h).trans
            (eq_of_placeOf_body m schemas request response h').symm)
        rw [Dict.find?, if_neg hk, valueAt_add_of_ne p v hk hbody]

/-- Every value is found again at its place. -/
theorem valueAt_split {raw : Fields} (hs : Dict.Sorted raw) (key : String) :
    (split raw m schemas request response).valueAt (placeOf m schemas request response key) key =
      (Dict.find? raw key).map (placeOf m schemas request response key).form := by
  refine (valueAt_foldl m schemas request response raw hs key empty).trans ?_
  rw [valueAt_empty, Option.or_none]

end

end Parameters

/-! ## Names that are sent -/

namespace Call

/-- The name is that of a parameter of the method, or of a field of the request body. -/
def Takes (c : Call) (name : String) : Prop :=
  (c.method.parameter? name).isSome ∨
    c.requestSchema?.isSome ∧ ∃ field, name = bodyMark ++ field

/-- The place of a value in the request. -/
def placeOf (c : Call) (name : String) : Parameters.Place :=
  Parameters.placeOf c.method c.service.schemas c.requestSchema? c.responseSchema? name

theorem placeOf_parameter {c : Call} {name : String} {p : Parameter}
    (h : c.method.parameter? name = some p) :
    c.placeOf name = match p.place with
      | .path => .path
      | .query => .query := by
  cases hp : p.place <;> simp only [placeOf, Parameters.placeOf, h, hp]

theorem placeOf_field {c : Call} {field : String}
    (hp : c.method.parameter? (bodyMark ++ field) = none) (hs : c.requestSchema?.isSome) :
    c.placeOf (bodyMark ++ field) = .body field := by
  obtain ⟨s, hs⟩ := Option.isSome_iff_exists.1 hs
  unfold placeOf Parameters.placeOf
  rw [hp, hs, Option.bind_some, Text.rest?_append]

end Call

namespace Target

/-- The address of the request holds the values of the path and the query, and its body those of the
body, if there are any. -/
def CarriesParameters (t : Target) : Prop :=
  let p := t.prepared.parameters
  t.call.method.address t.call.service.baseAddress p = .ok t.prepared.request.url ∧
    ∀ body, p.body? = some body → t.prepared.request.body = some body.write

/-- A value is sent for the name. -/
def Sends (t : Target) (name : String) (v : Json) : Prop :=
  match t.call.placeOf name with
  | .path => Dict.find? t.prepared.parameters.path name = some v
  | .query => Dict.find? t.prepared.parameters.query name = some v
  | .body field => Dict.find? t.prepared.parameters.body field = some (Parameters.bodyValue v)
  | _ => False

theorem sends_of_valueAt {t : Target} {name : String} {v : Json} (hname : t.call.Takes name)
    (h : t.prepared.parameters.valueAt (t.call.placeOf name) name =
      some ((t.call.placeOf name).form v)) : t.Sends name v := by
  unfold Sends
  cases hp : t.call.method.parameter? name with
  | some p =>
      have hplace := Call.placeOf_parameter hp
      cases hpp : p.place <;> rw [hpp] at hplace <;> rw [hplace] at h ⊢ <;> exact h
  | none =>
      rcases hname with hsome | ⟨hs, field, rfl⟩
      · rw [hp] at hsome
        cases hsome
      · rw [Call.placeOf_field hp hs] at h ⊢
        exact h

end Target

namespace Analysis

/-! ## The values of accepted statements -/

/-- The last value for the name. -/
def LastFor (entries : List (String × Json)) (name : String) (v : Json) : Prop :=
  ∃ before after, entries = before ++ (name, v) :: after ∧ ∀ e ∈ after, e.1 ≠ name

theorem LastFor.mem {entries : List (String × Json)} {name : String} {v : Json}
    (h : LastFor entries name v) : (name, v) ∈ entries := by
  obtain ⟨before, after, rfl, -⟩ := h
  exact List.mem_append_right before List.mem_cons_self

theorem exists_lastFor {entries : List (String × Json)} {name : String} {v : Json}
    (h : (name, v) ∈ entries) : ∃ v', LastFor entries name v' := by
  induction entries generalizing v with
  | nil => cases h
  | cons e rest ih =>
      by_cases hr : ∃ w, (name, w) ∈ rest
      · obtain ⟨w, hw⟩ := hr
        obtain ⟨v', before, after, rfl, hafter⟩ := ih hw
        exact ⟨v', e :: before, after, rfl, hafter⟩
      · rcases List.mem_cons.1 h with rfl | h
        · exact ⟨v, [], rest, rfl, fun e he hn => hr ⟨e.2, hn ▸ he⟩⟩
        · exact absurd ⟨v, h⟩ hr

theorem find?_withPageSize {m : Method} {pageSize : Nat} {values : Fields} {name : String} {v : Json}
    (h : Dict.find? values name = some v) :
    Dict.find? (withPageSize m pageSize values) name = some v := by
  unfold withPageSize
  split
  · next hc =>
    rw [Dict.find?_put, if_neg]
    · exact h
    · rintro rfl
      simp [Dict.has, h] at hc
  · exact h

theorem sorted_withPageSize {m : Method} {pageSize : Nat} {values : Fields}
    (h : Dict.Sorted values) : Dict.Sorted (withPageSize m pageSize values) := by
  unfold withPageSize
  split
  · exact Dict.sorted_put h _ _
  · exact h

section

variable {ps : Providers} {current : String} {pageSize : Nat} {s : Sql.Statement} {c : Context}
  {t : Target}

theorem Accepted.carriesParameters (h : Accepted ps current pageSize s c t) :
    t.CarriesParameters := by
  obtain ⟨values, payload, hmake, -⟩ := h.made
  obtain ⟨-, hurl, hbody⟩ := PreparedRequest.make_ok hmake
  refine ⟨hurl, fun body hb => ?_⟩
  rw [hbody, hb]
  rfl

/-- The last value for a name stands at its place. -/
theorem Accepted.valueAt_last (h : Accepted ps current pageSize s c t) {name : String} {v : Json}
    (hv : LastFor (supplied s) name v) :
    t.prepared.parameters.valueAt (t.call.placeOf name) name =
      some ((t.call.placeOf name).form v) := by
  obtain ⟨values, payload, hmake, hvalues, -⟩ := h.made
  obtain ⟨hp, -⟩ := PreparedRequest.make_ok hmake
  obtain ⟨before, after, hs, hafter⟩ := hv
  have hfind : Dict.find? (Dict.ofEntries (supplied s)) name = some v := by
    rw [hs]
    exact Dict.find?_ofEntries_last hafter
  have hsorted := Dict.sorted_ofEntries (supplied s)
  rw [hp]
  rcases hvalues with rfl | rfl
  · exact (Parameters.valueAt_split _ _ _ _ hsorted name).trans (congrArg _ hfind)
  · exact (Parameters.valueAt_split _ _ _ _ (sorted_withPageSize hsorted) name).trans
      (congrArg _ (find?_withPageSize hfind))

/-- Of the values that an accepted statement supplies for a name that its method takes, the last one is
sent. A value is sent itself if no other one is supplied for its name. -/
theorem sends_last (h : Accepted ps current pageSize s c t) :
    t.CarriesParameters ∧
      ∀ name, t.call.Takes name →
        (∀ v, LastFor (supplied s) name v → t.Sends name v) ∧
        ∀ v, (name, v) ∈ supplied s → (∀ v', (name, v') ∈ supplied s → v' = v) →
          t.Sends name v := by
  refine ⟨h.carriesParameters, fun name hname => ?_⟩
  have hlast : ∀ v, LastFor (supplied s) name v → t.Sends name v := fun v hv =>
    Target.sends_of_valueAt hname (h.valueAt_last hv)
  refine ⟨hlast, fun v hv hother => ?_⟩
  obtain ⟨v', hv'⟩ := exists_lastFor hv
  obtain rfl := hother v' hv'.mem
  exact hlast v' hv'

end

/-- Deletes networks by two names. -/
def twoNames : Sql.Statement :=
  .delete { directives := ⟨[]⟩, table := Sample.table
            condition := some (.and (Sample.equals "project" "p")
              (.and (Sample.equals "network" "a") (Sample.equals "network" "b"))) }

theorem accepted_twoNames :
    ∃ t, Accepted Sample.providers "google" 0 twoNames Sample.context t ∧
      t.call.placeOf "network" = .query ∧ (t.call.method.parameter? "network").isSome ∧
      (Dict.find? t.prepared.parameters.query "network").bind Json.text? = some "b" := by
  have h : (accepted? Sample.providers "google" 0 twoNames Sample.context).any (fun t =>
      t.call.placeOf "network" = .query ∧ (t.call.method.parameter? "network").isSome ∧
        (Dict.find? t.prepared.parameters.query "network").bind Json.text? = some "b") = true := by
    decide +kernel
  obtain ⟨t, ht, hp⟩ := (Option.any_eq_true _ _).1 h
  exact ⟨t, accepted_of_eq_some ht, of_decide_eq_true hp⟩

theorem sends_last_twoNames :
    ∃ t, Accepted Sample.providers "google" 0 twoNames Sample.context t ∧
      t.CarriesParameters ∧ t.Sends "network" (.string "b") := by
  obtain ⟨t, h, -, hname, -⟩ := accepted_twoNames
  obtain ⟨hcarries, hsends⟩ := sends_last h
  refine ⟨t, h, hcarries, (hsends "network" (.inl hname)).1 (.string "b") ?_⟩
  exact ⟨[("project", .string "p"), ("network", .string "a")], [], rfl, nofun⟩

/-- The first of two values for a parameter is not sent, and the statement is accepted. -/
theorem not_sends_first :
    ∃ t, Accepted Sample.providers "google" 0 twoNames Sample.context t ∧
      t.call.Takes "network" ∧ ("network", .string "a") ∈ supplied twoNames ∧
      ¬t.Sends "network" (.string "a") := by
  obtain ⟨t, h, hplace, hname, hb⟩ := accepted_twoNames
  refine ⟨t, h, .inl hname, ?_, fun hs => ?_⟩
  · exact List.mem_cons_of_mem _ List.mem_cons_self
  · unfold Target.Sends at hs
    rw [hplace] at hs
    dsimp only at hs
    rw [hs] at hb
    exact absurd hb (by decide)

end Analysis
end RestSql
