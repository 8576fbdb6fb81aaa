import RestSql.Proofs.Accepted

/-!
# Whether the body that is sent fits its schema

INSERT and EXEC check the body of their request in two places: the fields of the body after the request
was made, and the payload of EXEC before (`Analysis.Accepted.checked`). That does not cover fields that
stand in for a payload, nor a request without any body.
-/

namespace RestSql

namespace SchemaSet

theorem checkKeys_ok {set : SchemaSet} {s : Schema} {method : String} {given : List String} :
    set.checkKeys s method given = .ok () ↔ ∀ key ∈ set.requiredKeys s method, key ∈ given := by
  have hnone : (set.requiredKeys s method).filter (!given.contains ·) = [] ↔
      ∀ key ∈ set.requiredKeys s method, key ∈ given := by
    simp [List.filter_eq_nil_iff]
  unfold checkKeys
  cases hf : (set.requiredKeys s method).filter (!given.contains ·) with
  | nil => exact ⟨fun _ => hnone.1 hf, fun _ => rfl⟩
  | cons key keys =>
      refine ⟨fun h => (nomatch h), fun h => ?_⟩
      rw [hnone.2 h] at hf
      cases hf

/-- Without fields, a body fits if none is needed. -/
theorem checkPayload_nil {set : SchemaSet} {s : Schema} {method : String} :
    set.checkPayload s method [] = .ok () ↔ set.requiredKeys s method = [] := by
  have hkeys : set.checkPayload s method [] = set.checkKeys s method [] := by
    simp only [checkPayload, checkFields]
    rfl
  rw [hkeys, checkKeys_ok, List.eq_nil_iff_forall_not_mem]
  exact ⟨fun h key hk => (nomatch h key hk), fun h key hk => absurd hk (h key)⟩

end SchemaSet

namespace Analysis

/-- The payload of an EXEC statement, if it has one that is an object. -/
def payloadFields (p : Option Sql.Payload) : Option Fields :=
  (p.bind fun p => Json.ofText? p.content).bind Json.fields?

theorem payload_ok {c : Call} {p : Option Sql.Payload} {body : Option Fields}
    (h : payload c p = .ok body) :
    body = payloadFields p ∧ ∀ schema, c.requestSchema? = some schema → ∀ fields,
      body = some fields → c.service.schemas.checkPayload schema c.method.id fields = .ok () := by
  cases p with
  | none =>
      cases h
      exact ⟨rfl, fun _ _ _ h => nomatch h⟩
  | some p =>
      simp only [payload, guard_eq_ok] at h
      obtain ⟨-, h⟩ := h
      cases hj : Json.ofText? p.content with
      | none =>
          rw [hj] at h
          cases h
      | some v =>
          rw [hj] at h
          cases v with
          | object fields =>
              dsimp only at h
              cases hs : c.requestSchema? with
              | none =>
                  rw [hs] at h
                  cases h
              | some schema =>
                  rw [hs] at h
                  simp only [bind_eq_ok, pure_eq_ok, mapError_eq_ok] at h
                  obtain ⟨⟨⟩, hfits, rfl⟩ := h
                  refine ⟨?_, ?_⟩
                  · rw [payloadFields, Option.bind_some, hj]
                    rfl
                  · rintro _ ⟨⟩ _ ⟨⟩
                    exact hfits
          | _ => cases h

theorem checkBody_of_empty {c : Call} {p : PreparedRequest} (hp : p.parameters.body = []) :
    checkBody c p = .ok () := by
  unfold checkBody
  rw [hp]
  split <;> rfl

theorem checkBody_ok {c : Call} {p : PreparedRequest} {schema : Schema}
    (hs : c.requestSchema? = some schema) (hp : p.parameters.body ≠ []) :
    checkBody c p = .ok () ↔
      c.service.schemas.checkPayload schema c.method.id p.parameters.body = .ok () := by
  have he : p.parameters.body.isEmpty = false := by
    cases hb : p.parameters.body with
    | nil => exact absurd hb hp
    | cons e rest => rfl
  simp only [checkBody, hs, he]
  exact mapError_eq_ok

/-- The payload that a statement gives. -/
def payloadOf : Sql.Statement → Option Fields
  | .exec s => payloadFields s.payload
  | _ => none

/-- The fields of the body that is sent: those among the values, or else those of the payload. -/
def sentBody (s : Sql.Statement) (t : Target) : Option Fields :=
  if t.prepared.parameters.body = [] then payloadOf s else some t.prepared.parameters.body

theorem body_eq_sentBody {s : Sql.Statement} {t : Target} :
    (t.prepared.parameters.body?.orElse fun _ => (payloadOf s).map Json.object).map Json.write =
      (sentBody s t).map fun fields => (Json.object fields).write := by
  unfold sentBody Parameters.body?
  cases t.prepared.parameters.body with
  | nil => cases payloadOf s <;> rfl
  | cons e rest => rfl

/-- Statements whose request may have a body. -/
def MayHaveBody : Sql.Statement → Prop
  | .insert _ => True
  | .exec _ => True
  | _ => False

section

variable {ps : Providers} {current : String} {pageSize : Nat} {s : Sql.Statement} {c : Context}
  {t : Target}

/-- What the checks of an accepted statement cover: the payload, and the fields of the body if there is
no payload. -/
theorem Accepted.checked (h : Accepted ps current pageSize s c t) (hk : MayHaveBody s) :
    t.prepared.request.body = (sentBody s t).map (fun fields => (Json.object fields).write) ∧
      (payloadOf s = none → checkBody t.call t.prepared = .ok ()) ∧
      ∀ schema, t.call.requestSchema? = some schema → ∀ fields, payloadOf s = some fields →
        t.call.service.schemas.checkPayload schema t.call.method.id fields = .ok () := by
  cases s with
  | insert s =>
      obtain ⟨row, values, -, -, hp, hb⟩ := h.insert
      obtain ⟨-, -, hbody⟩ := PreparedRequest.make_ok hp
      refine ⟨?_, fun _ => hb, fun _ _ _ h => nomatch h⟩
      rw [hbody, ← body_eq_sentBody]
      rfl
  | exec s =>
      obtain ⟨values, body, -, hpayload, hp, hb⟩ := h.exec
      obtain ⟨-, -, hbody⟩ := PreparedRequest.make_ok hp
      obtain ⟨rfl, hfits⟩ := payload_ok hpayload
      refine ⟨?_, hb, hfits⟩
      rw [hbody, ← body_eq_sentBody]
      rfl
  | _ => cases hk

/-- The body of an accepted statement is made of its fields, or else of its payload. It fits its schema
exactly if there is a body wherever one is needed and the fields pass the check of the fields, which is
only left out where they stand in for a payload. -/
theorem sentBody_fits_iff {schema : Schema} (h : Accepted ps current pageSize s c t)
    (hk : MayHaveBody s) (hs : t.call.requestSchema? = some schema) :
    t.prepared.request.body = (sentBody s t).map (fun fields => (Json.object fields).write) ∧
      (t.call.service.schemas.checkPayload schema t.call.method.id ((sentBody s t).getD []) =
          .ok () ↔
        (sentBody s t = none →
          t.call.service.schemas.requiredKeys schema t.call.method.id = []) ∧
        checkBody t.call t.prepared = .ok ()) ∧
      (payloadOf s = none ∨ t.prepared.parameters.body = [] →
        checkBody t.call t.prepared = .ok ()) := by
  obtain ⟨hbody, hfields, hpayload⟩ := h.checked hk
  refine ⟨hbody, ?_, ?_⟩
  · unfold sentBody
    by_cases he : t.prepared.parameters.body = []
    · rw [if_pos he]
      have hcheck := checkBody_of_empty (c := t.call) he
      cases hp : payloadOf s with
      | none =>
          rw [Option.getD_none, SchemaSet.checkPayload_nil]
          exact ⟨fun h => ⟨fun _ => h, hcheck⟩, fun h => h.1 rfl⟩
      | some fields =>
          exact ⟨fun _ => ⟨nofun, hcheck⟩, fun _ => hpayload schema hs fields hp⟩
    · rw [if_neg he, Option.getD_some, ← checkBody_ok hs he]
      exact ⟨fun h => ⟨nofun, h⟩, fun h => h.2⟩
  · rintro (hnone | he)
    · exact hfields hnone
    · exact checkBody_of_empty he

end

/-- Inserts a network without a name. -/
def nameless : Sql.Statement :=
  .insert { directives := ⟨[]⟩, table := Sample.table, columns := ["project"]
            rows := [[.literal (.string "p")]] }

/-- No body is sent where the method needs a name. -/
theorem not_fits_without_body :
    ∃ t schema, Accepted Sample.providers "google" 0 nameless Sample.context t ∧
      t.call.requestSchema? = some schema ∧ t.prepared.request.body = none ∧
      t.call.service.schemas.checkPayload schema t.call.method.id [] ≠ .ok () := by
  have h : (accepted? Sample.providers "google" 0 nameless Sample.context).any (fun t =>
      t.call.requestSchema?.any (fun schema =>
        t.prepared.parameters.body.isEmpty ∧
          t.call.service.schemas.requiredKeys schema t.call.method.id = ["name"])) = true := by
    decide +kernel
  obtain ⟨t, ht, h⟩ := (Option.any_eq_true _ _).1 h
  obtain ⟨schema, hs, h⟩ := (Option.any_eq_true _ _).1 h
  obtain ⟨hempty, hkeys⟩ := of_decide_eq_true h
  have haccepted := accepted_of_eq_some ht
  have hsent : sentBody nameless t = none := if_pos (List.isEmpty_iff.1 hempty)
  obtain ⟨hbody, hfits, -⟩ := sentBody_fits_iff haccepted trivial hs
  rw [hsent] at hbody hfits
  refine ⟨t, schema, haccepted, hs, hbody, fun hok => ?_⟩
  rw [(hfits.1 hok).1 rfl] at hkeys
  cases hkeys

/-- Inserts a network whose payload is in order, with a field that stands in for it and is not. -/
def replaced : Sql.Statement :=
  .exec { directives := ⟨[]⟩, method := ⟨["google", "compute", "networks", "insert"]⟩
          bindings := [("project", .literal (.string "p")), ("data__mtu", .literal (.string "big"))]
          payload := some ⟨"json", "\x7b\"name\": \"n\"\x7d"⟩ }

/-- A field of the wrong kind is sent, which is not accepted without the payload. -/
theorem not_fits_in_place_of_payload :
    ∃ t schema, Accepted Sample.providers "google" 0 replaced Sample.context t ∧
      t.call.requestSchema? = some schema ∧
      t.prepared.request.body = some "\x7b\"mtu\":\"big\"\x7d" ∧
      t.call.service.schemas.checkPayload schema t.call.method.id t.prepared.parameters.body ≠
        .ok () := by
  have h : (accepted? Sample.providers "google" 0 replaced Sample.context).any (fun t =>
      t.call.requestSchema?.any (fun schema =>
        t.prepared.request.body = some "\x7b\"mtu\":\"big\"\x7d" ∧
          !(t.call.service.schemas.checkPayload schema t.call.method.id
            t.prepared.parameters.body).isOk)) = true := by
    decide +kernel
  obtain ⟨t, ht, h⟩ := (Option.any_eq_true _ _).1 h
  obtain ⟨schema, hs, h⟩ := (Option.any_eq_true _ _).1 h
  obtain ⟨hbody, hfails⟩ := of_decide_eq_true h
  refine ⟨t, schema, accepted_of_eq_some ht, hs, hbody, fun hok => ?_⟩
  rw [hok] at hfails
  cases hfails

end Analysis
end RestSql
