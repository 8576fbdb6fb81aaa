import RestSql.Proofs.FailedPlans
import RestSql.Proofs.Watching

/-!
# The results that are shown of a change

With SHOWRESULTS, a statement that changes something shows the response. If the statement also waits for
the end of the operation, the table is the last state of the operation as one row. Without that, it is the
array in the response that the schema of operations makes the array of the rows, if it has any items.
-/

namespace RestSql

/-! ## Rows of operations -/

namespace RestCall

/-- An item of an array in an object is not the object. -/
theorem ofItem_ne {fields : Fields} {key : String} {item : Json} {items : List Json}
    (hcomplete : Operation.isComplete (.object fields) = true)
    (h : Dict.find? fields key = some (.array (item :: items))) : Row.ofItem item ≠ fields := by
  have hmem := List.sizeOf_lt_of_mem (Dict.mem_of_find? h)
  intro heq
  cases item with
  | object inner =>
      obtain rfl : inner = fields := heq
      simp only [Prod.mk.sizeOf_spec, Json.array.sizeOf_spec, List.cons.sizeOf_spec,
        Json.object.sizeOf_spec] at hmem
      omega
  -- a value that is no object stands in a row of its own, and operations do not end in such rows
  | _ =>
      subst heq
      simp [Operation.isComplete, Json.field?, Json.fields?, Row.ofItem, Dict.find?] at hcomplete

theorem ofResponse_array {body : Json} {key : String} {items : List Json}
    (h : body.field? key = some (.array items)) :
    Row.ofResponse body (some key) = items.map Row.ofItem := by
  simp only [Row.ofResponse, h]

theorem exists_items_of_ofResponse {body : Json} {key : Option String} {row : Row} {rows : List Row}
    (h : Row.ofResponse body key = row :: rows) :
    (∃ fields, key = none ∧ body = .object fields) ∨ ∃ k fields item items, key = some k ∧
      body = .object fields ∧ Dict.find? fields k = some (.array (item :: items)) ∧
      row = Row.ofItem item := by
  unfold Row.ofResponse at h
  split at h
  · next k =>
    split at h
    · next items hitems =>
      cases items with
      | nil => cases h
      | cons item items =>
          cases h
          cases body with
          | object fields => exact .inr ⟨k, fields, item, items, rfl, rfl, hitems, rfl⟩
          | _ => cases hitems
    · cases h
  · split at h
    · exact .inl ⟨_, rfl, rfl⟩
    · cases h

/-- The rows that are shown of a complete operation are its fields exactly if the array of the rows has no
items in it. -/
theorem shownRows_eq_iff {body : Json} {key : Option String}
    (hcomplete : Operation.isComplete body = true) :
    shownRows body key = Row.ofResponse body none ↔
      ∀ k items, key = some k → body.field? k = some (.array items) → items = [] := by
  unfold shownRows
  cases hrows : Row.ofResponse body key with
  | nil =>
      refine iff_of_true rfl ?_
      rintro k items rfl hitems
      rw [ofResponse_array hitems] at hrows
      exact List.map_eq_nil_iff.1 hrows
  | cons row rows =>
      rcases exists_items_of_ofResponse hrows with ⟨fields, rfl, rfl⟩ |
        ⟨k, fields, item, items, rfl, rfl, hitems, rfl⟩
      · cases hrows
        exact iff_of_true rfl nofun
      · refine iff_of_false (fun heq => ?_) fun hnone => ?_
        · exact ofItem_ne hcomplete hitems (List.cons.inj heq).1
        · cases hnone k _ rfl hitems

end RestCall

/-! ## Statements that differ in their directives -/

/-- The statement changes something. -/
def Sql.Statement.changes : Sql.Statement → Bool
  | insert _ | delete _ | exec _ => true
  | _ => false

/-- The meaning with other directives, if it is a change. -/
def Analysis.withDirectives (d : Sql.Directives) : Analysis → Analysis
  | mutation kind t _ => mutation kind t d
  | a => a

namespace Analysis

open Sql (Directives Statement)

variable {ps : Providers} {current : String} {pageSize : Nat} {s : Statement} (d : Directives)

theorem ofInsert_withDirectives (c : Call) (s : Sql.Insert) :
    ofInsert c { s with directives := d } = withDirectives d <$> ofInsert c s := by
  unfold ofInsert
  dsimp only
  split
  · split
    · rfl
    · simp only [map_bind, map_pure]
      rfl
  · rfl

theorem ofDelete_withDirectives (c : Call) (s : Sql.Delete) :
    ofDelete c { s with directives := d } = withDirectives d <$> ofDelete c s := by
  simp only [ofDelete, map_bind, map_pure]
  rfl

theorem ofExec_withDirectives (c : Call) (s : Sql.Exec) :
    ofExec c { s with directives := d } = withDirectives d <$> ofExec c s := by
  simp only [ofExec, map_bind]
  refine bind_congr fun values => bind_congr fun body => ?_
  cases PreparedRequest.make c.service c.method values body with
  | error e => rfl
  | ok prepared =>
      cases body with
      | some body => rfl
      | none =>
          show Except.mapError Error.validation (checkBody c prepared >>= fun _ =>
              pure (mutation? .exec c prepared d)) =
            withDirectives d <$> Except.mapError Error.validation (checkBody c prepared >>= fun _ =>
              pure (mutation? .exec c prepared s.directives))
          cases checkBody c prepared <;> rfl

theorem map_ofExcept {α β ε : Type} (f : α → β) (wrap : ε → Error) (x : Except ε α) :
    f <$> Run.ofExcept wrap x = Run.ofExcept wrap (f <$> x) := by
  cases x <;> rfl

/-- Directives have no part in what a change means. -/
theorem analyze_withDirectives (hs : s.changes = true) (d : Directives) :
    analyze ps current pageSize (s.withDirectives d) =
      withDirectives d <$> analyze ps current pageSize s := by
  cases s with
  | insert s =>
      simp only [Statement.withDirectives, analyze, map_bind, map_ofExcept, ofInsert_withDirectives]
  | delete s =>
      simp only [Statement.withDirectives, analyze, map_bind, map_ofExcept, ofDelete_withDirectives]
  | exec s =>
      simp only [Statement.withDirectives, analyze, analyzeExec, ofExec_withDirectives]
      split
      · rfl
      · simp only [map_bind, map_ofExcept]
  | _ => cases hs

/-- What a change means carries its directives, and the rows of the response are looked for where the
schema of the response has an array. -/
theorem mutation_of_analyze (hs : s.changes = true) {c : Context} {a : Analysis}
    (h : (analyze ps current pageSize s c).1 = .ok a) :
    ∃ kind t d, a = .mutation kind t d ∧ s.directives? = some d ∧
      t.itemsKey = t.call.rowArray?.map Prod.fst := by
  cases s with
  | insert s =>
      obtain ⟨call, _, -, h⟩ := Run.bind_ok h
      obtain ⟨_, _, _, -, rfl, -⟩ := ofInsert_ok (Run.ofExcept_ok h)
      exact ⟨_, _, _, rfl, rfl, rfl⟩
  | delete s =>
      obtain ⟨call, _, -, h⟩ := Run.bind_ok h
      obtain ⟨_, _, rfl, -⟩ := ofDelete_ok (Run.ofExcept_ok h)
      exact ⟨_, _, _, rfl, rfl, rfl⟩
  | exec s =>
      simp only [analyze, analyzeExec] at h
      split at h
      · cases h
      · obtain ⟨call, _, -, h⟩ := Run.bind_ok h
        obtain ⟨_, _, _, rfl, -⟩ := ofExec_ok (Run.ofExcept_ok h)
        exact ⟨_, _, _, rfl, rfl, rfl⟩
  | _ => cases hs

end Analysis

namespace Session

open Instruction (awaitDirective monitoredVersion resultsDirective)

variable {s : Session} {text awaited : String}

/-- The texts are the same change, and its results are shown. Only the second one waits for the end. -/
def AwaitsToo (text awaited : String) : Prop :=
  ∃ statement plain waiting, Sql.Statement.ofText text = .ok statement ∧
    statement.changes = true ∧ statement.directives? = some plain ∧
    Sql.Statement.ofText awaited = .ok (statement.withDirectives waiting) ∧
    plain.isSet resultsDirective = true ∧ plain.isSet awaitDirective = false ∧
    waiting.isSet resultsDirective = true ∧ waiting.isSet awaitDirective = true

/-- The call that is made at once is watched if the statement waits for the end. -/
theorem build_awaited (h : AwaitsToo text awaited) {ps : Providers} {pageSize transaction : Nat}
    {c planned : Context} {p : Plan} {call : RestCall}
    (hplan : build ps pageSize text transaction c = (.ok p, planned))
    (hcall : p.instruction = .rest call)
    (hversion : Text.lower call.provider.version = monitoredVersion)
    (hoperation : call.method.response = some call.provider.operationType) :
    call.use = .mutation true ∧
      (∃ resolved : Call, resolved.method = call.method ∧ resolved.provider = call.provider ∧
        call.itemsKey = resolved.rowArray?.map Prod.fst) ∧
      ∃ p' quiet, build ps pageSize awaited transaction c = (.ok p', planned) ∧
        p'.instruction = .monitored call quiet true := by
  obtain ⟨statement, plain, waiting, ht, hchanges, hplain, ht', hshows, hnot, hshows', hwaits⟩ := h
  obtain ⟨_, a, i, hparsed, hnames, ha, hi, rfl⟩ := build_eq_ok.1 hplan
  cases ht.symm.trans hparsed
  obtain ⟨kind, t, d, rfl, hd, hkey⟩ := Analysis.mutation_of_analyze hchanges (congrArg Prod.fst ha)
  cases hplain.symm.trans hd
  -- without AWAIT the call is made at once
  simp only [Instruction.ofAnalysis, Instruction.ofMutation, hshows, hnot, Bool.not_false, if_true,
    Except.ok.injEq] at hi
  obtain rfl : t.toCall (.mutation true) = call := Instruction.rest.inj (hi.trans hcall)
  -- with it the operation is watched
  have hmonitored : Instruction.ofMutation t waiting = .ok (.monitored (t.toCall (.mutation true))
      (waiting.isSet Instruction.quietDirective) true) := by
    have hreturns : t.call.returnsOperation = true := beq_iff_eq.2 hoperation
    have hsame : ¬Text.lower t.call.provider.version ≠ monitoredVersion := not_not_intro hversion
    simp only [Instruction.ofMutation, hshows', hwaits, hreturns, Bool.not_true, if_true]
    rw [if_neg Bool.false_ne_true, if_neg hsame]
  have hnames' : (statement.withDirectives waiting).providerNames = statement.providerNames := by
    cases statement <;> rfl
  refine ⟨rfl, ⟨t.call, rfl, rfl, hkey⟩, _, _, build_eq_ok.2 ⟨_, .mutation kind t waiting, _, ht', ?_, ?_, hmonitored, rfl⟩, rfl⟩
  · rw [hnames']
    exact hnames
  · rw [Analysis.analyze_withDirectives hchanges, Run.map_apply, ha]
    rfl

/-! ## The two tables -/

/-- The call that a statement makes at once, and the response, if that is an operation that has an end
already. -/
def endedAtOnce? (s : Session) (text : String) : Option (RestCall × Json) := do
  let (planned, context) :=
    build s.providers s.pageSize text (s.transactions + 1) s.context
  let p ← planned.toOption
  let .rest call := p.instruction | none
  let body ← (call.send context).1.toOption
  if Text.lower call.provider.version = monitoredVersion ∧
      call.method.response = some call.provider.operationType ∧ Operation.isComplete body = true
  then some (call, body) else none

theorem endedAtOnce?_eq_some {call : RestCall} {body : Json}
    (h : s.endedAtOnce? text = some (call, body)) :
    ∃ p planned after,
      build s.providers s.pageSize text (s.transactions + 1) s.context = (.ok p, planned) ∧
      p.instruction = .rest call ∧ Text.lower call.provider.version = monitoredVersion ∧
      call.method.response = some call.provider.operationType ∧
      call.send planned = (.ok body, after) ∧ Operation.isComplete body = true := by
  rcases hplan : build s.providers s.pageSize text (s.transactions + 1) s.context with ⟨r, planned⟩
  simp only [endedAtOnce?, hplan, Option.bind_eq_bind, Option.bind_eq_some_iff] at h
  obtain ⟨p, hp, h⟩ := h
  cases hcall : p.instruction with
  | rest made =>
      simp only [hcall, Option.bind_eq_some_iff, Option.ite_none_right_eq_some] at h
      obtain ⟨answer, hanswer, ⟨hversion, hoperation, hcomplete⟩, ⟨⟩⟩ := h
      cases eq_ok_of_toOption hp
      exact ⟨p, planned, _, rfl, hcall, hversion, hoperation,
        Prod.ext (eq_ok_of_toOption hanswer) rfl, hcomplete⟩
  | _ => simp [hcall] at h

/-- A statement whose plan is made anew yields what the instruction yields. -/
theorem executeStatement_result (hnew : s.plans.find? text = none) {p : Plan} {planned : Context}
    (hplan : build s.providers s.pageSize text (s.transactions + 1) s.context = (.ok p, planned))
    {i : Instruction} (hi : p.instruction = i) {r : Except Error Output} {after : Context}
    (hexecute : i.execute s.settings planned = (r, after)) :
    (executeStatement text s).1.result = (outputOf r).result := by
  subst hi
  have h := plan_of_missing (PlanCache.get_of_find?_eq_none hnew) hplan
  rw [executeStatement_of_ok h (perform_of_execute hexecute)]

/-- A change is made once with SHOWRESULTS alone and once with AWAIT, too, and the response is an
operation that has an end. The statement that waits shows the operation as one row. The other one shows
the items of the array that the schema of the response makes the array of the rows, if there are any. So
the tables are equal exactly if there are none. -/
theorem results_awaited_iff (hawaits : AwaitsToo text awaited) (hnew : s.plans.find? text = none)
    (hnew' : s.plans.find? awaited = none) (hdry : s.settings.dryRun = false) {call : RestCall}
    {body : Json} (hended : s.endedAtOnce? text = some (call, body)) :
    (∃ resolved : Call, resolved.method = call.method ∧ resolved.provider = call.provider ∧
      call.itemsKey = resolved.rowArray?.map Prod.fst) ∧
    (executeStatement awaited s).1.result = some (.ofRows (Row.ofResponse body none)) ∧
    (executeStatement text s).1.result =
      some (.ofRows (RestCall.shownRows body call.itemsKey)) ∧
    ((executeStatement text s).1.result = (executeStatement awaited s).1.result ↔
      ∀ k items, call.itemsKey = some k → body.field? k = some (.array items) → items = []) := by
  obtain ⟨p, planned, after, hplan, hcall, hversion, hoperation, hsend, hcomplete⟩ :=
    endedAtOnce?_eq_some hended
  obtain ⟨huse, hkey, p', quiet, hplan', hcall'⟩ := build_awaited hawaits hplan hcall hversion hoperation
  have hawaited : (executeStatement awaited s).1.result =
      some (.ofRows (Row.ofResponse body none)) := by
    have hwatch : Operation.execute call s.settings quiet true planned = _ :=
      Operation.execute_of_watch hdry hsend
        (Operation.watch_of_isComplete hcomplete s.settings.patience 0 after)
    rw [executeStatement_result hnew' hplan' hcall' hwatch]
    rfl
  have hdirect : (executeStatement text s).1.result =
      some (.ofRows (RestCall.shownRows body call.itemsKey)) := by
    have hexecute : call.execute s.settings planned =
        (.ok (call.mutationOutput true body), after) := by
      rw [RestCall.execute, hdry, if_neg Bool.false_ne_true, huse]
      dsimp only
      rw [Run.bind_apply, hsend]
      rfl
    rw [executeStatement_result hnew hplan hcall hexecute]
    rfl
  refine ⟨hkey, hawaited, hdirect, ?_⟩
  rw [hawaited, hdirect, ← RestCall.shownRows_eq_iff hcomplete]
  refine ⟨fun h => congrArg ResultSet.rows (Option.some.inj h), fun h => ?_⟩
  rw [h]

theorem awaitsToo_of_strip {bare : String} {plain waiting : Sql.Directives}
    (ht : (Sql.strip text).toOption = some (bare, plain))
    (ht' : (Sql.strip awaited).toOption = some (bare, waiting))
    (hchanges : (Sql.Statement.ofText text).toOption.any Sql.Statement.changes = true)
    (hshows : plain.isSet resultsDirective = true) (hnot : plain.isSet awaitDirective = false)
    (hshows' : waiting.isSet resultsDirective = true)
    (hwaits : waiting.isSet awaitDirective = true) : AwaitsToo text awaited := by
  obtain ⟨statement, hstatement, hchanges⟩ := (Option.any_eq_true _ _).1 hchanges
  have hread := eq_ok_of_toOption hstatement
  obtain ⟨_, hstrip, hbare⟩ := bind_eq_ok.1 hread
  cases (eq_ok_of_toOption ht).symm.trans (mapError_eq_ok.1 hstrip)
  obtain ⟨read, hread', h⟩ := bind_eq_ok.1 hbare
  cases h
  refine ⟨_, plain, waiting, hread, hchanges, ?_, ?_, hshows, hnot, hshows', hwaits⟩
  · cases read <;> first | rfl | cases hchanges
  · refine bind_eq_ok.2 ⟨_, mapError_eq_ok.2 (eq_ok_of_toOption ht'), bind_eq_ok.2 ⟨read, hread', ?_⟩⟩
    cases read <;> rfl

/-- Networks can be deleted, and the operation that this starts may have warnings. -/
def deletions : Providers :=
  let resource : Resource :=
    { id := "networks", name := "networks", title := "", description := ""
      methods := [Sample.method "delete" "networks" "DELETE" [] none (some "Operation")] }
  let operation := Sample.schema "Operation" "object"
    [("endTime", .inline (Sample.schema "" "string" [] none [])),
      ("warnings", .inline (Sample.schema "" "array" [] none []))] none []
  let service : Service :=
    { entry := Sample.entry, baseAddress := "https://compute.test/"
      resources := [("networks", resource)], schemas := [("Operation", operation)] }
  [("google", .google (.loaded [Sample.entry] [("compute", service)]) (.fixed "token" "me") false)]

/-- A session that has not begun yet, in which all requests have the given response. -/
def answeredBy (response : String) : Session :=
  start (.initial "") deletions (.initial ⟨fun _ _ => .ok ⟨200, response⟩⟩ "google")

def shownDeletion : String := "DELETE /*+ SHOWRESULTS */ FROM compute.networks"

def awaitedDeletion : String := "DELETE /*+ SHOWRESULTS AWAIT */ FROM compute.networks"

theorem awaitsToo_deletion : AwaitsToo shownDeletion awaitedDeletion := by
  let plain : Sql.Directives := ⟨["SHOWRESULTS"]⟩
  let waiting : Sql.Directives := ⟨["SHOWRESULTS", "AWAIT"]⟩
  have h : (Sql.strip shownDeletion).toOption = some ("DELETE   FROM compute.networks", plain) ∧
      (Sql.strip awaitedDeletion).toOption = some ("DELETE   FROM compute.networks", waiting) ∧
      (Sql.Statement.ofText shownDeletion).toOption.any Sql.Statement.changes = true ∧
      plain.isSet resultsDirective = true ∧ plain.isSet awaitDirective = false ∧
      waiting.isSet resultsDirective = true ∧ waiting.isSet awaitDirective = true := by
    decide +kernel
  obtain ⟨hstrip, hstrip', hchanges, hshows, hnot, hshows', hwaits⟩ := h
  exact awaitsToo_of_strip hstrip hstrip' hchanges hshows hnot hshows' hwaits

/-- Without warnings the tables are equal. -/
theorem results_awaited_iff_no_warnings :
    let s := answeredBy "\x7b\x22endTime\x22: \x22now\x22\x7d"
    (executeStatement shownDeletion s).1.result = (executeStatement awaitedDeletion s).1.result := by
  intro s
  have h : (s.endedAtOnce? shownDeletion).any fun (call, body) =>
      (call.itemsKey.bind body.field?).isNone := by
    decide +kernel
  obtain ⟨⟨call, body⟩, hended, hnone⟩ := (Option.any_eq_true _ _).1 h
  refine (results_awaited_iff awaitsToo_deletion rfl rfl rfl hended).2.2.2.2 fun k items hk hitems => ?_
  rw [Option.isNone_iff_eq_none, hk, Option.bind_some, hitems] at hnone
  cases hnone

/-- With a warning the statement that does not wait shows the warning, and the other one shows the
operation. -/
theorem results_awaited_differ :
    let s := answeredBy
      "\x7b\x22endTime\x22: \x22now\x22, \x22warnings\x22: [\x7b\x22code\x22: \x22x\x22\x7d]\x7d"
    AwaitsToo shownDeletion awaitedDeletion ∧ (s.endedAtOnce? shownDeletion).isSome ∧
      (executeStatement shownDeletion s).1.result.map (·.columns) = some ["code"] ∧
      (executeStatement awaitedDeletion s).1.result.map (·.columns) =
        some ["endTime", "warnings"] ∧
      (executeStatement shownDeletion s).1.result ≠ (executeStatement awaitedDeletion s).1.result := by
  intro s
  have h : (s.endedAtOnce? shownDeletion).isSome = true ∧
      (executeStatement shownDeletion s).1.result.map (·.columns) = some ["code"] ∧
      (executeStatement awaitedDeletion s).1.result.map (·.columns) =
        some ["endTime", "warnings"] := by
    decide +kernel
  obtain ⟨hended, hshown, hawaited⟩ := h
  refine ⟨awaitsToo_deletion, hended, hshown, hawaited, fun heq => ?_⟩
  rw [heq, hawaited] at hshown
  exact absurd hshown (by decide)

end Session

end RestSql
