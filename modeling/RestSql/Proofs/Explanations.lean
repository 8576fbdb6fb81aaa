import RestSql.Proofs.Bodies
import RestSql.Proofs.FailedPlans
import RestSql.Proofs.JsonReading

/-!
# What EXPLAIN shows

An explanation plans every statement of a batch under the provider that is current beforehand, and it
executes none of them. So its lines show what an execution does as long as the current provider stays the
same, and after a USE for the statements that name their provider
(`Session.explain_shows_execution`).
-/

namespace RestSql

open Run

/-! ## Statements that name their provider -/

namespace Sql

/-- Nothing that is listed belongs to the current provider. -/
def Show.isQualified (s : Show) : Bool :=
  let target := s.target.getD ⟨[]⟩
  match s.kind with
  | "INSERT" | "METHODS" => target.third ≠ ""
  | "RESOURCES" => target.second ≠ ""
  | "SERVICES" | "AUTH" => target.last ≠ ""
  | "PROVIDERS" => false
  | _ => true

/-- No name in the statement is looked up in the current provider. -/
def Statement.isQualified : Statement → Bool
  | select s =>
    match s.source with
    | some (.table name _) => name.third ≠ ""
    | _ => true
  | insert s => s.table.third ≠ ""
  | delete s => s.table.third ≠ ""
  | exec s => s.method.fourth ≠ ""
  | «show» s => s.isQualified
  | describe d => d.table.third ≠ ""
  | auth a => a.provider ≠ ""
  | revoke provider | use provider => provider ≠ ""
  | sleep _ | unsupported _ => true

end Sql

theorem CallName.orElse_of_ne {name : String} (h : name ≠ "") (current : String) :
    orElse name current = name :=
  if_neg h

namespace Analysis

variable {ps : Providers} {pageSize : Nat}

theorem analyzeShow_of_isQualified {s : Sql.Show} (h : s.isQualified = true) (a b : String) :
    analyzeShow ps a s = analyzeShow ps b s := by
  unfold Sql.Show.isQualified at h
  unfold analyzeShow tableCall ofShow listing providerNamed CallName.ofResource
  split at h
  all_goals next hkind => simp_all [CallName.orElse_of_ne]

/-- The current provider has no part in what such a statement means. -/
theorem analyze_of_isQualified {s : Sql.Statement} (h : s.isQualified = true) (a b : String) :
    analyze ps a pageSize s = analyze ps b pageSize s := by
  have htable {name : Sql.Name} (hname : name.third ≠ "") (action : String) :
      tableCall ps a name action = tableCall ps b name action := by
    simp only [tableCall, CallName.ofResource, CallName.orElse_of_ne hname]
  have hnamed {name : String} (hname : name ≠ "") : providerNamed ps a name = providerNamed ps b name := by
    simp only [providerNamed, CallName.orElse_of_ne hname]
  cases s with
  | select s =>
      simp only [Sql.Statement.isQualified] at h
      simp only [analyze, analyzeSelect]
      split
      · rfl
      · next hsource =>
        rw [hsource] at h
        rw [htable (of_decide_eq_true h)]
      · rfl
  | insert s | delete s => simp only [analyze, htable (of_decide_eq_true h)]
  | exec s =>
      simp only [analyze, analyzeExec, CallName.ofMethod, CallName.orElse_of_ne (of_decide_eq_true h)]
  | «show» s => exact analyzeShow_of_isQualified h a b
  | describe d =>
      simp only [analyze, analyzeDescribe, CallName.ofResource,
        CallName.orElse_of_ne (of_decide_eq_true h)]
  | auth | revoke | use => simp only [analyze, hnamed (of_decide_eq_true h)]
  | sleep | unsupported => rfl

end Analysis

namespace Session

variable {s t : Session} {text : String}

theorem constant_build {ps : Providers} (hl : ps.Loaded) {pageSize : Nat}
    (h : ∀ statement, Sql.Statement.ofText text = .ok statement → statement.isQualified = true)
    (transaction : Nat) : Constant (build ps pageSize text transaction) := by
  refine closed_constant.ofExcept_bind fun statement hs => ?_
  refine (closed_constant.forM fun _ => ?_).bind fun _ => ?_
  · exact (closed_constant.ofExcept _ _).bind fun _ => constant_pure _
  · obtain ⟨r, hr⟩ := (Analysis.constant_analyze hl "" pageSize statement).bind fun a =>
      (closed_constant.ofExcept Error.plan (Instruction.ofAnalysis a)).bind fun i =>
        constant_pure (Plan.make statement.kind text i transaction)
    refine ⟨r, fun c => ?_⟩
    rw [get_bind_apply, Analysis.analyze_of_isQualified (h statement hs) c.current ""]
    exact hr c

theorem made_of_isQualified (hl : s.providers.Loaded) (hp : t.providers = s.providers)
    (hn : t.pageSize = s.pageSize)
    (h : ∀ statement, Sql.Statement.ofText text = .ok statement → statement.isQualified = true) :
    t.made text = s.made text := by
  obtain ⟨r, hr⟩ := constant_build hl h 0
  rw [made, made, hp, hn, hr, hr]

/-! ## Batches turn by turn -/

/-- Executing a batch moves on the number of the transaction, the context and the plans at hand. -/
theorem Sound.executeEach (h : s.Sound) (texts : List String) :
    ∃ context plans,
      (executeEach texts s).2 =
        { s with transactions := s.transactions + texts.length, context, plans } ∧
      (Session.executeEach texts s).2.Sound := by
  induction texts generalizing s with
  | nil => exact ⟨s.context, s.plans, rfl, h⟩
  | cons text more ih =>
      obtain ⟨plans, he, hsound⟩ := executeStatement_eq_outcome h text
      obtain ⟨context, plans, hmore, hend⟩ := ih hsound
      rw [executeEach_cons, he]
      refine ⟨context, plans, ?_, hend⟩
      rw [hmore, List.length_cons, Nat.add_right_comm, Nat.add_assoc]

/-- The output at a place of a batch is that of the statement there, after those before it. -/
theorem executeEach_turn {texts : List String} {i : Nat} (h : texts[i]? = some text) (s : Session) :
    let turn := (executeEach (texts.take i) s).2
    (executeEach texts s).1[i]? = some (executeStatement text turn).1 ∧
      (executeEach (texts.take (i + 1)) s).2 = (executeStatement text turn).2 := by
  induction texts generalizing i s with
  | nil => cases h
  | cons first more ih =>
      cases i with
      | zero =>
          cases h
          simp only [List.take_zero, List.take_succ_cons, executeEach_cons]
          exact ⟨rfl, rfl⟩
      | succ i =>
          simp only [List.take_succ_cons, executeEach_cons]
          exact ih h (executeStatement first s).2

/-! ## Lines -/

theorem lineMade_ok {line : String} (h : s.lineMade text = .ok line) :
    ∃ kind i, s.made text = .ok (kind, i) ∧ line = (Plan.make kind text i 0).explain := by
  obtain ⟨⟨kind, i⟩, hmade, rfl⟩ := map_eq_ok.1 h
  exact ⟨kind, i, hmade, rfl⟩

/-- The lines are those about the plans that would be made now. -/
theorem explainEach_eq (h : s.Sound) (texts : List String) :
    (explainEach texts s).1 = texts.mapM s.lineMade := by
  induction texts generalizing s with
  | nil => rfl
  | cons text more ih =>
      obtain ⟨plans, hline, hsound⟩ := line_eq_lineMade h text
      have hmoved : lineMade { s with transactions := s.transactions + 1, plans } = s.lineMade := rfl
      rw [explainEach_cons, step_bind, hline, List.mapM_cons]
      cases s.lineMade text with
      | error e => rfl
      | ok l =>
          dsimp only
          rw [step_bind, pure_apply, ih hsound, hmoved]
          cases more.mapM s.lineMade <;> rfl

end Session

/-- The request of the instruction is that of the target. -/
theorem Instruction.request?_ofAnalysis {a : Analysis} {i : Instruction} (h : ofAnalysis a = .ok i) :
    i.request? = a.target?.map (·.prepared.request) := by
  cases a with
  | mutation kind target d =>
      simp only [ofAnalysis, ofMutation] at h
      repeat' split at h
      all_goals
        cases h
        try rfl
  | _ =>
      cases h
      rfl

namespace Session

variable {s : Session} {text kind : String} {i : Instruction}

/-- The body of the request of an instruction that was made is the text of a well-formed value. -/
theorem exists_body_of_made (h : s.made text = .ok (kind, i)) :
    ∃ body : Option Json, i.request?.bind Request.body = body.map Json.write ∧
      ∀ v ∈ body, v.isWellFormed = true := by
  obtain ⟨statement, _, c, a, hparsed, -, ha, hi⟩ := made_ok h
  rw [Instruction.request?_ofAnalysis hi]
  cases ht : a.target? with
  | none => exact ⟨none, rfl, fun _ h => nomatch h⟩
  | some t =>
      have haccepted : Analysis.Accepted _ _ _ statement c t := ⟨a, ha, ht⟩
      exact haccepted.exists_body (Sql.Statement.isWellFormed_of_ofText hparsed)

/-- The line says the kind of a statement, what its instruction does, which for a call is the verb, the
address and the id of the method, and the body of the request, if that is plain or read back from its text
for another reason. -/
def Describes (line kind : String) (i : Instruction) : Prop :=
  ∃ (body : Option Json) (shown : String), i.request?.bind Request.body = body.map Json.write ∧
    line = kind ++ ": " ++ i.describe ++ shown ∧ (body = none → shown = "") ∧
    ∀ v, body = some v → v.isPlain Json.maxDepth = true ∨ Json.ofText? v.write = some v →
      shown = " body=" ++ v.write

theorem explain_make (kind text : String) (i : Instruction) (transaction : Nat) :
    (Plan.make kind text i transaction).explain = kind ++ ": " ++ i.describe ++
      ((i.request?.bind Request.json?).map fun body => " body=" ++ body.write).getD "" := by
  unfold Plan.explain
  cases hjson : i.request?.bind Request.json? <;> simp [Plan.make, hjson]

theorem describes_of_made (h : s.made text = .ok (kind, i)) (transaction : Nat) :
    Describes (Plan.make kind text i transaction).explain kind i := by
  obtain ⟨body, hbody, hwell⟩ := exists_body_of_made h
  have hjson : i.request?.bind Request.json? = body.bind fun v => Json.ofText? v.write := by
    have hread : i.request?.bind Request.json? = (i.request?.bind Request.body).bind Json.ofText? := by
      cases i.request? <;> rfl
    rw [hread, hbody, Option.bind_map]
    rfl
  refine ⟨body, _, hbody, explain_make kind text i transaction, ?_, ?_⟩
  · rintro rfl
    rw [hjson]
    rfl
  · rintro v rfl hv
    have hback : Json.ofText? v.write = some v :=
      hv.elim (Json.ofText?_write (hwell v rfl)) id
    rw [hjson, Option.bind_some, hback]
    rfl

theorem explain_of_ne_nil {query : String} (h : Sql.split query ≠ []) (hs : s.Sound) :
    (explain query s).1 = (Sql.split query).mapM s.lineMade := by
  rw [← explainEach_eq hs, explain]
  cases hsplit : Sql.split query with
  | nil => exact absurd hsplit h
  | cons text more => rfl

theorem explain_ok {query : String} (hs : s.Sound) :
    (∃ lines, (explain query s).1 = .ok lines) ↔
      Sql.split query ≠ [] ∧ ∀ text ∈ Sql.split query, ∃ planned, s.made text = .ok planned := by
  by_cases hne : Sql.split query = []
  · have hempty : (explain query s).1 = .error (.parse .empty) := by
      rw [explain, hne]
      rfl
    simp [hempty, hne]
  · have hline (text : String) : (∃ line, s.lineMade text = .ok line) ↔
        ∃ planned, s.made text = .ok planned := by
      simp only [lineMade, map_eq_ok]
      constructor
      · rintro ⟨_, planned, hmade, -⟩
        exact ⟨planned, hmade⟩
      · rintro ⟨planned, hmade⟩
        exact ⟨_, planned, hmade, rfl⟩
    simp only [explain_of_ne_nil hne hs, exists_mapM_eq_ok, hline, ne_eq, hne, not_false_eq_true,
      true_and]

/-- The line at a place of an explanation is that about the plan that would be made now. -/
theorem line_of_explain {query : String} (hs : s.Sound) {lines : List String}
    (h : (explain query s).1 = .ok lines) :
    lines.length = (Sql.split query).length ∧
      ∀ (i : Nat) text, (Sql.split query)[i]? = some text →
        ∃ line, lines[i]? = some line ∧ s.lineMade text = .ok line := by
  have hne : Sql.split query ≠ [] := ((explain_ok hs).1 ⟨lines, h⟩).1
  rw [explain_of_ne_nil hne hs, mapM_eq_ok] at h
  refine ⟨?_, fun i text htext => ?_⟩
  · have hlength := congrArg List.length h
    rw [List.length_map, List.length_map] at hlength
    exact hlength.symm
  · have hplace := congrArg (·[i]?) h
    simp only [List.getElem?_map, htext, Option.map_some] at hplace
    obtain ⟨line, hline, hok⟩ := Option.map_eq_some_iff.1 hplace.symm
    exact ⟨line, hline, hok.symm⟩

/-- The same is planned after a batch if the current provider is the same, or has no part in it. -/
theorem made_after (hs : s.Sound) (texts : List String)
    (h : (executeEach texts s).2.context.current = s.context.current ∨
      ∀ statement, Sql.Statement.ofText text = .ok statement → statement.isQualified = true) :
    made (executeEach texts s).2 text = s.made text := by
  obtain ⟨_, _, hend, -⟩ := hs.executeEach texts
  have hproviders : (executeEach texts s).2.providers = s.providers := by rw [hend]
  have hpageSize : (executeEach texts s).2.pageSize = s.pageSize := by rw [hend]
  rcases h with hcurrent | hqualified
  · rw [made_congr hs.loaded hproviders hpageSize hcurrent]
  · exact made_of_isQualified hs.loaded hproviders hpageSize hqualified

/-- What is done at the turn of a statement for which an instruction is planned then. -/
theorem performed_at_turn (hs : s.Sound) {texts : List String} {i : Nat} (htext : texts[i]? = some text)
    {kind : String} {instruction : Instruction}
    (hmade : made (executeEach (texts.take i) s).2 text = .ok (kind, instruction)) :
    ∃ out, (executeEach texts s).1[i]? = some out ∧
      performed s.settings instruction (s.transactions + i + 1)
        (executeEach (texts.take i) s).2.context =
          (out, (executeEach (texts.take (i + 1)) s).2.context) := by
  obtain ⟨hout, hnext⟩ := executeEach_turn htext s
  obtain ⟨context, plans, hturn, hsound⟩ := hs.executeEach (texts.take i)
  have hlength : (texts.take i).length = i := by
    rw [List.length_take, Nat.min_eq_left]
    exact Nat.le_of_lt (List.getElem?_eq_some_iff.1 htext).1
  obtain ⟨_, hstatement, -⟩ := executeStatement_eq_outcome hsound text
  rw [outcome, hmade] at hstatement
  rw [hout, hnext, hstatement, hturn, hlength]
  exact ⟨_, rfl, rfl⟩

/-- A batch is explained if every statement of it can be planned as things stand, and each line describes
what would be done for its statement now. If at the turn of a statement the current provider is the same,
or the statement names its provider, then just that is done for it. -/
theorem explain_shows_execution {start : Session} (hl : start.providers.Loaded)
    (hp : start.plans.entries = []) (h : Reached start s) (query : String) :
    let texts := Sql.split query
    let turn (i : Nat) : Session := (executeEach (texts.take i) s).2
    ((∃ lines, (explain query s).1 = .ok lines) ↔
      texts ≠ [] ∧ ∀ text ∈ texts, ∃ planned, s.made text = .ok planned) ∧
    ∀ lines, (explain query s).1 = .ok lines → lines.length = texts.length ∧
      ∀ (i : Nat) text, texts[i]? = some text → ∃ line kind instruction,
        lines[i]? = some line ∧ s.made text = .ok (kind, instruction) ∧
        Describes line kind instruction ∧
        ((turn i).context.current = s.context.current ∨
            (∀ statement, Sql.Statement.ofText text = .ok statement → statement.isQualified = true) →
          ∃ out, (execute query s).1[i]? = some out ∧
            performed s.settings instruction (s.transactions + i + 1) (turn i).context =
              (out, (turn (i + 1)).context)) := by
  intro texts turn
  have hs : s.Sound := h.sound (.of_no_plans hl hp)
  refine ⟨explain_ok hs, fun lines hlines => ?_⟩
  obtain ⟨hlength, hline⟩ := line_of_explain hs hlines
  refine ⟨hlength, fun i text htext => ?_⟩
  obtain ⟨line, hplace, hmadeLine⟩ := hline i text htext
  obtain ⟨kind, instruction, hmade, rfl⟩ := lineMade_ok hmadeLine
  refine ⟨_, kind, instruction, hplace, hmade, describes_of_made hmade 0, fun hsame => ?_⟩
  exact performed_at_turn hs htext ((made_after hs _ hsame).trans hmade)

end Session

namespace Sample

/-- Networks with a share and with arrays of tags, and lists of them. -/
def sharedSchemas : SchemaSet :=
  [("Network", schema "Network" "object"
      [("share", .inline (schema "" "number" [] none [])),
        ("tags", .inline (schema "" "array" [] (some (.inline (schema "" "array" [] none []))) []))]
      none []),
    ("NetworkList", schema "NetworkList" "object"
      [("items", .inline (schema "" "array" [] (some (.named "Network" false)) []))] none [])]

/-- A provider with the same methods at another address. -/
def otherProvider : Provider :=
  .google (.loaded [entry] [("compute",
    { service with baseAddress := "https://other.test/", schemas := sharedSchemas })])
    (.fixed "token" "me") false

end Sample

namespace Session

/-- A session with two providers, of which `google` is the current one. -/
def betweenProviders : Session :=
  start (.initial "") (Sample.providers ++ [("other", Sample.otherProvider)]) Sample.context

example : (explain "USE other; SLEEP 5" betweenProviders).1.toOption =
    some ["USE: Local use other", "SLEEP: Local sleep 5ms"] := by
  decide +kernel

def deleteThere : String :=
  "DELETE FROM google.compute.networks WHERE project = \x27p\x27 AND network = \x27n\x27"

/-- A statement that names its provider is shown as it is executed, also after another provider is used. -/
theorem explain_shows_execution_deleteThere :
    let query := "USE other; " ++ deleteThere
    let s := betweenProviders
    let turn := (executeEach ["USE other"] s).2
    ∃ lines line kind instruction out, (explain query s).1 = .ok lines ∧ lines[1]? = some line ∧
      Describes line kind instruction ∧ (execute query s).1[1]? = some out ∧
      (performed s.settings instruction 2 turn.context).1 = out := by
  intro query s turn
  have hchecks : ((explain query s).1.isOk && Sql.split query == ["USE other", deleteThere] &&
      (Sql.Statement.ofText deleteThere).toOption.all Sql.Statement.isQualified) = true := by
    decide +kernel
  simp only [Bool.and_eq_true, beq_iff_eq] at hchecks
  obtain ⟨⟨hexplained, hsplit⟩, hqualified⟩ := hchecks
  have hlines := eq_ok_of_isOk hexplained []
  have loaded : s.providers.Loaded := by
    intro e he
    rcases List.mem_cons.1 he with rfl | he
    · exact ⟨_, _, rfl⟩
    · obtain rfl := List.mem_singleton.1 he
      exact ⟨_, _, rfl⟩
  obtain ⟨-, hshown⟩ := explain_shows_execution loaded rfl .start query
  obtain ⟨-, hshown⟩ := hshown _ hlines
  rw [hsplit] at hshown
  obtain ⟨line, kind, instruction, hline, -, hdescribes, hexecuted⟩ := hshown 1 deleteThere rfl
  obtain ⟨out, hout, hperformed⟩ := hexecuted (.inr fun statement hs => by
    rwa [hs] at hqualified)
  exact ⟨_, line, kind, instruction, out, hlines, hline, hdescribes, hout, congrArg Prod.fst hperformed⟩

def deleteHere : String :=
  "DELETE FROM compute.networks WHERE project = \x27p\x27 AND network = \x27n\x27"

/-- An INSERT whose body has a fractional number of 17 digits. -/
def insertFraction : String :=
  "INSERT INTO other.compute.networks (project, data__share) SELECT \x27p\x27, 0.12345678901234501"

/-- After another provider is used, a statement that does not name its provider is executed with that one,
and its line shows the first one. A fractional number need not be shown as it is sent. -/
theorem not_explain_shows_turns :
    ((explain ("USE other; " ++ deleteHere) betweenProviders).1.toOption = some
        ["USE: Local use other",
          "DELETE: HttpRest DELETE https://compute.test/projects/p/networks?network=n " ++
            "(compute.networks.delete)"] ∧
      (execute ("USE other; " ++ deleteHere) betweenProviders).2.context.sent.map (·.url) =
        ["https://other.test/projects/p/networks?network=n"]) ∧
    (explain insertFraction betweenProviders).1.toOption = some
        ["INSERT: HttpRest POST https://other.test/projects/p/networks (compute.networks.insert) " ++
          "body=\x7b\x22share\x22:0.123456789012345\x7d"] ∧
      (execute insertFraction betweenProviders).2.context.sent.map (·.body) =
        [some "\x7b\x22share\x22:0.12345678901234501\x7d"] := by
  refine ⟨?_, ?_⟩
  · decide +kernel
  · decide +kernel

end Session
end RestSql
