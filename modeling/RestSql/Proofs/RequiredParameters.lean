import RestSql.Proofs.SentValues
import RestSql.Proofs.Templates

/-!
# Required parameters

A statement that supplies all required parameters of its method passes their check, and any other one is
told which of them it lacks. The path of the address is filled with the values that are supplied, and it
asks for nothing else if its placeholders are required parameters: what the check lets pass has an address,
as far as that depends on values (`Analysis.required_parameters_checked`).
-/

namespace RestSql

variable {ε ε' α β : Type}

/-! ## Errors of a computation -/

/-- If the computation fails, then with such an error. -/
def ErrorsIn (p : ε → Prop) (x : Except ε α) : Prop :=
  ∀ e, x = .error e → p e

theorem errorsIn_ok {p : ε → Prop} (a : α) : ErrorsIn p (.ok a) := nofun

theorem errorsIn_error {p : ε → Prop} {e : ε} (h : p e) : ErrorsIn p (.error e : Except ε α) := by
  rintro _ ⟨⟩
  exact h

theorem ErrorsIn.bind {p : ε → Prop} {x : Except ε α} {f : α → Except ε β} (hx : ErrorsIn p x)
    (hf : ∀ a, ErrorsIn p (f a)) : ErrorsIn p (x >>= f) := by
  cases x with
  | error e => exact errorsIn_error (hx e rfl)
  | ok a => exact hf a

theorem ErrorsIn.map {p : ε → Prop} {x : Except ε α} (h : ErrorsIn p x) (f : α → β) :
    ErrorsIn p (x.map f) := by
  cases x with
  | error e => exact errorsIn_error (h e rfl)
  | ok a => exact errorsIn_ok _

theorem ErrorsIn.mapError {p : ε' → Prop} {f : ε → ε'} {x : Except ε α}
    (h : ErrorsIn (fun e => p (f e)) x) : ErrorsIn p (x.mapError f) := by
  cases x with
  | error e => exact errorsIn_error (h e rfl)
  | ok a => exact errorsIn_ok a

theorem errorsIn_guard {p : ε → Prop} {q : Prop} [Decidable q] {e : ε} (he : p e) {x : Except ε α}
    (hx : ErrorsIn p x) : ErrorsIn p (do
      if q then throw e
      x) := by
  split
  · exact errorsIn_error he
  · exact hx

theorem errorsIn_forM {p : ε → Prop} {f : α → Except ε Unit} (h : ∀ a, ErrorsIn p (f a))
    (l : List α) : ErrorsIn p (l.forM f) := by
  induction l with
  | nil => exact errorsIn_ok _
  | cons a l ih =>
      show ErrorsIn p (f a >>= fun _ => l.forM f)
      exact (h a).bind fun _ => ih

/-- An error of what is left to do once the required parameters are checked. The path is blamed only if
it may be `unfilled`. -/
def ValidationError.IsLater (unfilled : Prop) : ValidationError → Prop
  | missingParameters _ => False
  | missingPathParameter _ _ | openPlaceholder _ => unfilled
  | _ => True

/-- `ValidationError.IsLater` of the errors of a statement. -/
def Error.IsLater (unfilled : Prop) : Error → Prop
  | validation e => e.IsLater unfilled
  | _ => True

/-! ## The check -/

namespace Method

variable {m : Method}

/-- The name is that of a required parameter. -/
def Requires (m : Method) (name : String) : Prop :=
  ∃ p, m.parameter? name = some p ∧ p.required = true

theorem mem_requiredNames (h : Dict.Sorted m.parameters) {name : String} :
    name ∈ m.requiredNames ↔ m.Requires name := by
  simp only [requiredNames, Requires, parameter?, List.mem_map, List.mem_filter, Prod.exists]
  constructor
  · rintro ⟨key, p, ⟨hp, hrequired⟩, rfl⟩
    exact ⟨p, h.find?_of_mem hp, hrequired⟩
  · rintro ⟨p, hp, hrequired⟩
    exact ⟨name, p, ⟨Dict.mem_of_find? hp, hrequired⟩, rfl⟩

theorem pairwise_requiredNames (h : Dict.Sorted m.parameters) : m.requiredNames.Pairwise (· < ·) :=
  List.pairwise_map.2 (h.filter _)

end Method

namespace Analysis

variable {m : Method} {supplied : List String}

theorem checkRequired_eq_ok (h : Dict.Sorted m.parameters) :
    checkRequired m supplied = .ok () ↔ ∀ name, m.Requires name → name ∈ supplied := by
  have hnil : checkRequired m supplied = .ok () ↔
      m.requiredNames.filter (!supplied.contains ·) = [] := by
    unfold checkRequired
    split
    · next hmissing => exact iff_of_true rfl hmissing
    · next hmissing => exact iff_of_false nofun hmissing
  simp [hnil, List.filter_eq_nil_iff, Method.mem_requiredNames h]

theorem checkRequired_error (h : Dict.Sorted m.parameters) {e : ValidationError}
    (he : checkRequired m supplied = .error e) :
    ∃ missing, e = .missingParameters missing ∧ missing.Pairwise (· < ·) ∧
      ∀ name, name ∈ missing ↔ m.Requires name ∧ name ∉ supplied := by
  unfold checkRequired at he
  split at he
  · cases he
  · cases he
    refine ⟨_, rfl, (Method.pairwise_requiredNames h).filter _, fun name => ?_⟩
    simp [Method.mem_requiredNames h]

end Analysis

/-! ## The address -/

namespace Call

variable {c : Call} {sent : Fields} {unfilled : Prop}

/-- The values of a statement by their places in the request. -/
def parameters (c : Call) (sent : Fields) : Parameters :=
  .split sent c.method c.service.schemas c.requestSchema? c.responseSchema?

/-- The values fill the path of the method. -/
def FillsPath (c : Call) (sent : Fields) : Prop :=
  ∃ path, PathTemplate.expand c.method.path (c.parameters sent).path = .ok path

end Call

namespace PathTemplate

theorem errorsIn_expand (template : String) (values : Fields) :
    ErrorsIn (ValidationError.IsLater True) (expand template values) := by
  have hfrom (fuel : Nat) (cs : List Char) :
      ErrorsIn (ValidationError.IsLater True) (expandFrom template values fuel cs) := by
    induction fuel generalizing cs with
    | zero => exact errorsIn_ok _
    | succ fuel ih =>
        rw [expandFrom]
        split
        · exact errorsIn_ok _
        · exact errorsIn_error trivial
        · dsimp only
          split
          · exact errorsIn_error trivial
          · exact (ih _).map _
  exact (hfrom _ _).map _

end PathTemplate

/-- The piece is a text, or the place of a required parameter of the path. -/
def PathTemplate.Piece.IsRequired (m : Method) : Piece → Prop
  | literal _ => True
  | hole token => ∃ p, m.parameter? (placeholder token).name = some p ∧ p.required = true ∧
      p.place = .path

theorem Call.fillsPath {c : Call} {sent : Fields} (hs : Dict.Sorted sent)
    (hsent : ∀ name, c.method.Requires name → ∃ v, Dict.find? sent name = some v)
    {pieces : List PathTemplate.Piece}
    (hpath : c.method.path.toList = pieces.flatMap (·.text.toList))
    (hpieces : ∀ piece ∈ pieces, piece.IsRead ∧ piece.IsRequired c.method) : c.FillsPath sent := by
  refine ⟨_, PathTemplate.expand_flatMap (fun piece h => (hpieces piece h).1) (fun piece h => ?_) hpath⟩
  have hrequired := (hpieces piece h).2
  cases piece with
  | literal text => trivial
  | hole token =>
      obtain ⟨p, hp, hrequires, hplace⟩ := hrequired
      obtain ⟨v, hv⟩ := hsent _ ⟨p, hp, hrequires⟩
      have hvalue := Parameters.valueAt_split c.method c.service.schemas c.requestSchema?
        c.responseSchema? hs (PathTemplate.Piece.placeholder token).name
      have hwhere := Call.placeOf_parameter hp
      rw [hplace] at hwhere
      rw [show Parameters.placeOf _ _ _ _ _ = Parameters.Place.path from hwhere, hv] at hvalue
      rw [PathTemplate.Piece.HasValue]
      exact Option.isSome_of_eq_some hvalue

theorem ValidationError.IsLater.imp {p q : Prop} (h : p → q) {e : ValidationError}
    (he : e.IsLater p) : e.IsLater q := by
  cases e <;> first | exact he | exact h he

namespace Call

theorem errorsIn_make (c : Call) (sent : Fields) (payload : Option Fields) :
    ErrorsIn (ValidationError.IsLater (¬c.FillsPath sent))
      (PreparedRequest.make c.service c.method sent payload) := by
  have haddress : ErrorsIn (ValidationError.IsLater (¬c.FillsPath sent))
      (c.method.address c.service.baseAddress (c.parameters sent)) := by
    unfold Method.address
    refine ErrorsIn.bind (fun e hpath => ?_) fun path => ?_
    · have hnot : ¬c.FillsPath sent := by
        rintro ⟨path, hfilled⟩
        cases hpath.symm.trans hfilled
      exact (PathTemplate.errorsIn_expand _ _ e hpath).imp fun _ => hnot
    · split
      · exact errorsIn_error trivial
      · exact errorsIn_ok _
  exact haddress.bind fun _ => errorsIn_ok _

end Call

namespace Analysis

variable {unfilled : Prop}

theorem errorsIn_checkResponseColumn (c : Call) (row response : Schema) (column : String) :
    ErrorsIn (ValidationError.IsLater unfilled) (checkResponseColumn c row response column) := by
  unfold checkResponseColumn
  dsimp only
  split
  · split
    · exact errorsIn_ok _
    · exact errorsIn_error trivial
  · exact errorsIn_error trivial
  · exact errorsIn_ok _

theorem errorsIn_checkOrder (c : Call) (s : RowSchema) (p : Projection) (orderBy : List Sql.OrderBy) :
    ErrorsIn (ValidationError.IsLater unfilled) (checkOrder c s p orderBy) := by
  refine errorsIn_forM (fun o => ?_) orderBy
  split
  · exact errorsIn_ok _
  · exact errorsIn_checkResponseColumn c _ _ _

theorem errorsIn_checkBody (c : Call) (p : PreparedRequest) :
    ErrorsIn (ValidationError.IsLater unfilled) (checkBody c p) := by
  unfold checkBody
  split
  · exact errorsIn_ok _
  · split
    · exact errorsIn_ok _
    · exact ErrorsIn.mapError fun _ _ => trivial

theorem errorsIn_payload (c : Call) (p : Option Sql.Payload) :
    ErrorsIn (Error.IsLater unfilled) (payload c p) := by
  cases p with
  | none => exact errorsIn_ok _
  | some p =>
      refine errorsIn_guard trivial ?_
      split
      · exact errorsIn_error trivial
      · split
        · exact errorsIn_error trivial
        · exact ErrorsIn.bind (.mapError fun _ _ => trivial) fun _ => errorsIn_ok _
      · exact errorsIn_error trivial

/-! ## Statements that get to the check -/

/-- The result is the error of the check for what is supplied; or that passes, and no later error is one
of the check, nor one about the path if what is sent fills it. -/
structure Decides (c : Call) (supplied sent : Fields) (result : Except Error Analysis) : Prop where
  stops : ∀ e, checkRequired c.method (Dict.keys supplied) = .error e → result = .error (.validation e)
  goesOn : checkRequired c.method (Dict.keys supplied) = .ok () →
    ErrorsIn (Error.IsLater (¬c.FillsPath sent)) result

section

variable {c : Call} {values : Fields}

/-- The result hands the check on, and what is left to do once it passes has later errors only. -/
theorem Decides.of_check {supplied sent : Fields} {result : Except Error Analysis}
    (rest : Except ValidationError Unit → Except Error Analysis)
    (hresult : result = rest (checkRequired c.method (Dict.keys supplied)))
    (hstops : ∀ e, rest (.error e) = .error (.validation e))
    (hrest : ErrorsIn (Error.IsLater (¬c.FillsPath sent)) (rest (.ok ()))) :
    Decides c supplied sent result := by
  constructor
  · intro e he
    rw [hresult, he, hstops]
  · intro hok
    rwa [hresult, hok]

theorem decides_ofSelect {s : Sql.Select} {schema : RowSchema} {columns : Projection}
    {filter : Option Filter} (hschema : rowSchema c = .ok schema)
    (hcolumns : projection c schema s.items = .ok columns)
    (hvalues : condition c schema s.condition = .ok (values, filter)) (pageSize : Nat) :
    Decides c values (withPageSize c.method pageSize values) (ofSelect c pageSize s) := by
  refine .of_check (fun check => Except.mapError Error.validation (do
      check
      checkOrder c schema columns s.orderBy
      let prepared ←
        PreparedRequest.make c.service c.method (withPageSize c.method pageSize values) none
      return (prepared, filter)) >>= fun sent =>
        .ok (.select { call := c, prepared := sent.1, itemsKey := schema.itemsKey }
          { projection := columns, filter := sent.2, orderBy := s.orderBy, limit := s.limit }))
    ?_ (fun _ => rfl) ?_
  · rw [ofSelect, hschema]
    show (projection c schema s.items >>= _) = _
    rw [hcolumns]
    show (Except.mapError Error.validation (condition c schema s.condition >>= _) >>= _) = _
    rw [hvalues]
    rfl
  · refine ErrorsIn.bind (.mapError ?_) fun _ => errorsIn_ok _
    exact (errorsIn_checkOrder _ _ _ _).bind fun _ => (c.errorsIn_make _ _).bind fun _ => errorsIn_ok _

theorem decides_ofInsert {s : Sql.Insert} {row : List Sql.Expr} {values : List (String × Json)}
    (hrow : s.rows = [row]) (hlength : s.columns.length = row.length)
    (hvalues : sentValues c "INSERT" (s.columns.zip row) = .ok values) :
    Decides c (Dict.ofEntries values) (Dict.ofEntries values)
      ((ofInsert c s).mapError .validation) := by
  refine .of_check (fun check => Except.mapError Error.validation (do
      check
      let prepared ← PreparedRequest.make c.service c.method (Dict.ofEntries values) none
      checkBody c prepared
      return mutation? .insert c prepared s.directives)) (congrArg _ ?_) (fun _ => rfl) (.mapError ?_)
  · rw [ofInsert, hrow]
    dsimp only
    rw [if_neg (by simp [hlength])]
    show (sentValues c "INSERT" (s.columns.zip row) >>= _) = _
    rw [hvalues]
    rfl
  · exact (c.errorsIn_make _ _).bind fun _ => (errorsIn_checkBody _ _).bind fun _ => errorsIn_ok _

theorem decides_ofDelete {s : Sql.Delete} (hvalues : deletedValues s.condition = .ok values)
    (hcolumns : (Dict.keys values).forM (checkDeleteColumn c) = .ok ()) :
    Decides c values values ((ofDelete c s).mapError .validation) := by
  refine .of_check (fun check => Except.mapError Error.validation (do
      check
      let prepared ← PreparedRequest.make c.service c.method values none
      return mutation? .delete c prepared s.directives)) (congrArg _ ?_) (fun _ => rfl) (.mapError ?_)
  · rw [ofDelete, hvalues]
    show ((Dict.keys values).forM (checkDeleteColumn c) >>= _) = _
    rw [hcolumns]
    rfl
  · exact (c.errorsIn_make _ _).bind fun _ => errorsIn_ok _

theorem decides_ofExec {s : Sql.Exec} {values : List (String × Json)}
    (hvalues : sentValues c "EXEC" s.bindings = .ok values) :
    Decides c (Dict.ofEntries values) (Dict.ofEntries values) (ofExec c s) := by
  refine .of_check (fun check => Except.mapError Error.validation (do
      check
      return Dict.ofEntries values) >>= fun values => payload c s.payload >>= fun body =>
        Except.mapError Error.validation (do
          let prepared ← PreparedRequest.make c.service c.method values body
          if body.isNone then checkBody c prepared
          return mutation? .exec c prepared s.directives)) ?_ (fun _ => rfl) ?_
  · rw [ofExec, hvalues]
    rfl
  · refine (errorsIn_payload _ _).bind fun body => .mapError ?_
    refine (c.errorsIn_make _ _).bind fun _ => ?_
    split
    · exact (errorsIn_checkBody _ _).bind fun _ => errorsIn_ok _
    · exact errorsIn_ok _

end

/-- For this call, everything passes that comes before the check of the required parameters. -/
inductive Reaches (ps : Providers) (current : String) (c : Context) (call : Call) :
    Sql.Statement → Prop
  | select {s : Sql.Select} {name : Sql.Name} {label : Option String} {c' : Context}
      {schema : RowSchema} {columns : Projection} {constraint : Fields × Option Filter}
      (table : s.source = some (.table name label))
      (resolved : tableCall ps current name "select" c = (.ok call, c'))
      (rows : rowSchema call = .ok schema)
      (items : projection call schema s.items = .ok columns)
      (values : condition call schema s.condition = .ok constraint) :
      Reaches ps current c call (.select s)
  | insert {s : Sql.Insert} {row : List Sql.Expr} {c' : Context} {entries : List (String × Json)}
      (rows : s.rows = [row])
      (resolved : tableCall ps current s.table "insert" c = (.ok call, c'))
      (length : s.columns.length = row.length)
      (values : sentValues call "INSERT" (s.columns.zip row) = .ok entries) :
      Reaches ps current c call (.insert s)
  | delete {s : Sql.Delete} {c' : Context} {entries : Fields}
      (resolved : tableCall ps current s.table "delete" c = (.ok call, c'))
      (values : deletedValues s.condition = .ok entries)
      (columns : (Dict.keys entries).forM (checkDeleteColumn call) = .ok ()) :
      Reaches ps current c call (.delete s)
  | exec {s : Sql.Exec} {c' : Context} {entries : List (String × Json)}
      (qualified : 3 ≤ s.method.parts.length)
      (resolved : Call.resolve ps (.ofMethod s.method current) "exec" c = (.ok call, c'))
      (values : sentValues call "EXEC" s.bindings = .ok entries) :
      Reaches ps current c call (.exec s)

variable {ps : Providers} {current : String} {c : Context} {call : Call} {s : Sql.Statement}

theorem fst_bind_ofExcept {ε : Type} {x : Run Call} {c' : Context} (hx : x c = (.ok call, c'))
    (wrap : ε → Error) (f : Call → Except ε Analysis) :
    ((x >>= fun call => Run.ofExcept wrap (f call)) c).1 = (f call).mapError wrap := by
  rw [Run.bind_apply, hx]
  dsimp only
  cases f call <;> rfl

theorem mapError_id {ε α : Type} (x : Except ε α) : x.mapError id = x := by
  cases x <;> rfl

theorem Reaches.decides (h : Reaches ps current c call s) (pageSize : Nat) :
    ∃ sent, Decides call (Dict.ofEntries (supplied s)) sent (analyze ps current pageSize s c).1 ∧
      Dict.Sorted sent ∧
      ∀ name v, Dict.find? (Dict.ofEntries (supplied s)) name = some v →
        Dict.find? sent name = some v := by
  have hsorted := Dict.sorted_ofEntries (supplied s)
  cases h with
  | @select s name label c' schema columns constraint table resolved rows items values =>
      obtain ⟨values', filter⟩ := constraint
      cases condition_values values
      refine ⟨withPageSize call.method pageSize (Dict.ofEntries (supplied (.select s))), ?_,
        sorted_withPageSize hsorted, fun _ _ => find?_withPageSize⟩
      rw [analyze, analyzeSelect, table]
      dsimp only
      rw [fst_bind_ofExcept resolved, mapError_id]
      exact decides_ofSelect rows items values pageSize
  | @insert s row c' entries rows resolved length values =>
      cases sentValues_ok values
      refine ⟨_, ?_, hsorted, fun _ _ h => h⟩
      rw [analyze, fst_bind_ofExcept resolved, supplied, rows, List.flatten_singleton]
      exact decides_ofInsert rows length values
  | @delete s c' entries resolved values columns =>
      cases deletedValues_ok values
      refine ⟨_, ?_, hsorted, fun _ _ h => h⟩
      rw [analyze, fst_bind_ofExcept resolved]
      exact decides_ofDelete values columns
  | @exec s c' entries qualified resolved values =>
      cases sentValues_ok values
      refine ⟨_, ?_, hsorted, fun _ _ h => h⟩
      simp only [analyze, analyzeExec]
      rw [if_neg (by omega), fst_bind_ofExcept resolved, mapError_id]
      exact decides_ofExec values

/-- Of a statement that gets to the check of its required parameters. The check passes if and only if all
of them are supplied, and otherwise the error names those that are not, in order. If it passes and every
placeholder of the path ends and stands for a required parameter of the path, the path is never blamed. -/
theorem required_parameters_checked (h : Reaches ps current c call s)
    (hsorted : Dict.Sorted call.method.parameters) (pageSize : Nat) :
    let result := (analyze ps current pageSize s c).1
    let names := (supplied s).map Prod.fst
    ((∀ missing, result ≠ .error (.validation (.missingParameters missing))) ↔
      ∀ name, call.method.Requires name → name ∈ names) ∧
    ((∃ name, call.method.Requires name ∧ name ∉ names) →
      ∃ missing, result = .error (.validation (.missingParameters missing)) ∧
        missing.Pairwise (· < ·) ∧
        ∀ name, name ∈ missing ↔ call.method.Requires name ∧ name ∉ names) ∧
    ((∀ name, call.method.Requires name → name ∈ names) →
      ∀ pieces : List PathTemplate.Piece,
        call.method.path.toList = pieces.flatMap (·.text.toList) →
        (∀ piece ∈ pieces, piece.IsRead ∧ piece.IsRequired call.method) →
        ∀ template,
          (∀ name, result ≠ .error (.validation (.missingPathParameter name template))) ∧
          result ≠ .error (.validation (.openPlaceholder template))) := by
  intro result names
  obtain ⟨sent, hdecides, hsent, hfind⟩ := h.decides pageSize
  have hkeys (name : String) : name ∈ Dict.keys (Dict.ofEntries (supplied s)) ↔ name ∈ names :=
    Dict.mem_keys_ofEntries
  have hok : checkRequired call.method (Dict.keys (Dict.ofEntries (supplied s))) = .ok () ↔ _ :=
    checkRequired_eq_ok hsorted
  simp only [hkeys] at hok
  have hmissing : (∃ name, call.method.Requires name ∧ name ∉ names) →
      ∃ missing, result = .error (.validation (.missingParameters missing)) ∧
        missing.Pairwise (· < ·) ∧
        ∀ name, name ∈ missing ↔ call.method.Requires name ∧ name ∉ names := by
    rintro ⟨name, hrequires, hname⟩
    cases hcheck : checkRequired call.method (Dict.keys (Dict.ofEntries (supplied s))) with
    | ok _ => exact absurd (hok.1 hcheck name hrequires) hname
    | error e =>
        obtain ⟨missing, rfl, hpairwise, hmem⟩ := checkRequired_error hsorted hcheck
        simp only [hkeys] at hmem
        exact ⟨missing, hdecides.stops _ hcheck, hpairwise, hmem⟩
  refine ⟨⟨fun hnever => ?_, fun hall missing hresult => ?_⟩, hmissing, ?_⟩
  · intro name hrequires
    refine Decidable.byContradiction fun hname => ?_
    obtain ⟨missing, hresult, -⟩ := hmissing ⟨name, hrequires, hname⟩
    exact hnever missing hresult
  · exact hdecides.goesOn (hok.2 hall) _ hresult
  · intro hall pieces hpath hpieces template
    have hvalues : ∀ name, call.method.Requires name → ∃ v, Dict.find? sent name = some v := by
      intro name hrequires
      obtain ⟨v, hv⟩ := Option.isSome_iff_exists.1
        (Dict.isSome_find?.2 ((hkeys name).2 (hall name hrequires)))
      exact ⟨v, hfind name v hv⟩
    have hfills := Call.fillsPath hsent hvalues hpath hpieces
    have hlater := hdecides.goesOn (hok.2 hall)
    exact ⟨fun name hresult => hlater _ hresult hfills, fun hresult => hlater _ hresult hfills⟩

/-- Deletes the networks for which the condition holds. -/
def deleteNetworks (condition : Sql.Expr) : Sql.Statement :=
  .delete { directives := ⟨[]⟩, table := Sample.table, condition := some condition }

/-- The method that deletes networks. -/
def networksDelete : Method :=
  (Sample.method "delete" "projects/\x7bproject\x7d/networks" "DELETE"
    [Sample.parameter "network" .query true, Sample.parameter "project" .path true] none none).2

theorem exists_networksDelete :
    ∃ call c', tableCall Sample.providers "google" Sample.table "delete" Sample.context =
      (.ok call, c') ∧ call.method = networksDelete := by
  have hany : (tableCall Sample.providers "google" Sample.table "delete" Sample.context).1.toOption.any
      (·.method == networksDelete) = true := by
    decide +kernel
  rcases htable : tableCall Sample.providers "google" Sample.table "delete" Sample.context with
    ⟨_ | call, c'⟩ <;> rw [htable] at hany
  · cases hany
  · exact ⟨call, c', rfl, eq_of_beq hany⟩

theorem reaches_deleteNetworks {call : Call} {c' : Context} (condition : Sql.Expr)
    (hcall : tableCall Sample.providers "google" Sample.table "delete" Sample.context = (.ok call, c'))
    (hmethod : call.method = networksDelete) (hvalues : isEqualities condition = true)
    (hcolumns : ∀ name ∈ Dict.keys (Dict.ofEntries (equalities condition)),
      (networksDelete.parameter? name).isSome = true) :
    Reaches Sample.providers "google" Sample.context call (deleteNetworks condition) := by
  refine .delete hcall (if_pos hvalues) (forM_eq_ok.2 fun name hname => ?_)
  rw [checkDeleteColumn, hmethod, hcolumns name hname]
  rfl

/-- Networks are deleted by project and name: without the project the error names it and not the name, and
with both the path is filled. -/
theorem required_parameters_checked_delete :
    let result (condition : Sql.Expr) :=
      (analyze Sample.providers "google" 0 (deleteNetworks condition) Sample.context).1
    (∃ missing, result (Sample.equals "network" "n") =
      .error (.validation (.missingParameters missing)) ∧
        "project" ∈ missing ∧ "network" ∉ missing) ∧
    ∀ template name,
      result (.and (Sample.equals "project" "p") (Sample.equals "network" "n")) ≠
        .error (.validation (.missingPathParameter name template)) := by
  intro result
  obtain ⟨call, c', hcall, hmethod⟩ := exists_networksDelete
  have hsorted : Dict.Sorted call.method.parameters := by
    rw [hmethod]
    exact List.pairwise_pair.2 (by decide)
  have hrequires : call.method.Requires "project" := ⟨_, by rw [hmethod]; rfl, rfl⟩
  constructor
  · have hreaches := reaches_deleteNetworks (Sample.equals "network" "n") hcall hmethod rfl (by decide)
    obtain ⟨missing, hresult, -, hmem⟩ := (required_parameters_checked hreaches hsorted 0).2.1
      ⟨"project", hrequires, by decide⟩
    refine ⟨missing, hresult, (hmem _).2 ⟨hrequires, by decide⟩, fun h => ?_⟩
    exact ((hmem _).1 h).2 (by decide)
  · intro template name
    have hreaches := reaches_deleteNetworks
      (.and (Sample.equals "project" "p") (Sample.equals "network" "n")) hcall hmethod rfl (by decide)
    refine ((required_parameters_checked hreaches hsorted 0).2.2 (fun name h => ?_)
      [.literal "projects/", .hole "project", .literal "/networks"] ?_ ?_ template).1 name
    · rw [← Method.mem_requiredNames hsorted, hmethod] at h
      have hnames : networksDelete.requiredNames = ["network", "project"] := by decide
      rw [hnames] at h
      exact (List.Perm.swap _ _ _).mem_iff.1 h
    · rw [hmethod]
      rfl
    · rw [hmethod]
      simp only [List.forall_mem_cons, PathTemplate.Piece.IsRead, PathTemplate.Piece.IsRequired]
      exact ⟨⟨by decide, trivial⟩, ⟨by decide, _, rfl, rfl, rfl⟩, ⟨by decide, trivial⟩,
        List.forall_mem_nil _⟩

end Analysis
end RestSql
