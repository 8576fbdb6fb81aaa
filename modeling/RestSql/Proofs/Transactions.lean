import RestSql.Proofs.PlanReuse

/-!
# Numbers of transactions

A session is asked for one plan in each turn: to execute a statement or to explain it. The number of a
turn is taken before the plan is looked up, and the output of an execution carries it, whether the plan
was at hand, was made anew or could not be made, and whether or not its execution failed.

`Numbered` says this of a list of turns. A single turn keeps it going (`executeStatement_number`,
`line_number`), hence so does every run (`numbered_run`). No number is above the count of the turns, so
the numbers fit in a machine word as long as the count does.
-/

namespace RestSql.Session

/-! ## Turns -/

/-- A plan that a session was asked for. -/
structure Turn where
  text : String
  /-- The output of the execution; nothing if the plan was only to be explained. -/
  output : Option Output

/-- The turn in which a statement is executed. -/
def executeTurn (text : String) : StateM Session Turn :=
  return ⟨text, some (← executeStatement text)⟩

/-- The turns in which statements are explained, up to the first that has no plan. -/
def explainTurns : List String → StateM Session (List Turn)
  | [] => return []
  | text :: more => do
    match ← line text with
    | .error _ => return [⟨text, none⟩]
    | .ok _ => return ⟨text, none⟩ :: (← explainTurns more)

/-- The turns that a demand takes. -/
def turns : Demand → StateM Session (List Turn)
  | .execute text => (Sql.split text).mapM executeTurn
  | .explain text => explainTurns (Sql.split text)

def Reply.executed : Reply → List Output
  | .outputs list => list
  | .lines _ => []

/-! ## What the turns of a demand do -/

theorem executeTurn_apply (text : String) (s : Session) :
    executeTurn text s =
      (⟨text, some (executeStatement text s).1⟩, (executeStatement text s).2) := rfl

theorem executeTurns_apply (texts : List String) (s : Session) :
    (texts.mapM executeTurn s).2 = (texts.mapM executeStatement s).2 ∧
      (texts.mapM executeTurn s).1.filterMap Turn.output = (texts.mapM executeStatement s).1 := by
  induction texts generalizing s with
  | nil => exact ⟨rfl, rfl⟩
  | cons text more ih =>
      obtain ⟨hstate, houtputs⟩ := ih (executeStatement text s).2
      simp only [List.mapM_cons, step_bind, pure_apply, executeTurn_apply]
      exact ⟨hstate, by simp [houtputs]⟩

theorem explainTurns_apply (texts : List String) (s : Session) :
    (explainTurns texts s).2 = (explainEach texts s).2 ∧
      (explainTurns texts s).1.filterMap Turn.output = [] := by
  induction texts generalizing s with
  | nil => exact ⟨rfl, rfl⟩
  | cons text more ih =>
      simp only [explainTurns, explainEach_cons, step_bind]
      cases (line text s).1 with
      | error e => exact ⟨rfl, rfl⟩
      | ok l =>
          obtain ⟨hstate, houtputs⟩ := ih (line text s).2
          simp only [step_bind, pure_apply]
          exact ⟨hstate, by simp [houtputs]⟩

theorem turns_apply (d : Demand) (s : Session) :
    (turns d s).2 = (meet d s).2 ∧
      (turns d s).1.filterMap Turn.output = (meet d s).1.executed := by
  cases d with
  | execute text => exact executeTurns_apply (Sql.split text) s
  | explain text =>
      simp only [turns, meet, explain, step_bind, pure_apply]
      cases Sql.split text with
      | nil => exact ⟨rfl, rfl⟩
      | cons text more => exact explainTurns_apply (text :: more) s

theorem run_turns_apply (demands : List Demand) (s : Session) :
    (demands.mapM turns s).2 = (demands.mapM meet s).2 ∧
      (demands.mapM turns s).1.flatten.filterMap Turn.output =
        (demands.mapM meet s).1.flatMap Reply.executed := by
  induction demands generalizing s with
  | nil => exact ⟨rfl, rfl⟩
  | cons d demands ih =>
      obtain ⟨hstate, houtputs⟩ := turns_apply d s
      obtain ⟨hend, hlater⟩ := ih (meet d s).2
      simp only [List.mapM_cons, step_bind, pure_apply, hstate]
      exact ⟨hend, by simp [houtputs, hlater]⟩

/-! ## One turn -/

/-- However a plan is come by, it is asked for under the next number and has that number. -/
theorem plan_number (text : String) (s : Session) :
    (plan text s).2.transactions = s.transactions + 1 ∧
      ∀ p, (plan text s).1 = .ok p → p.transaction = s.transactions + 1 := by
  rcases hg : s.plans.get text with ⟨_ | p, plans⟩
  · rcases hb : build s.providers s.pageSize text (s.transactions + 1) s.context with ⟨r, context⟩
    rw [plan_of_missing hg hb]
    refine ⟨rfl, ?_⟩
    rintro p rfl
    rw [build_transaction, map_eq_pure_bind] at hb
    obtain ⟨q, _, -, hq⟩ := Run.bind_ok (congrArg Prod.fst hb)
    cases hq
    rfl
  · rw [plan_of_found hg]
    refine ⟨rfl, ?_⟩
    rintro _ ⟨⟩
    rfl

/-- An execution is answered under the next number, also if there is no plan to execute. -/
theorem executeStatement_number (text : String) (s : Session) :
    (executeStatement text s).2.transactions = s.transactions + 1 ∧
      (executeStatement text s).1.transaction = s.transactions + 1 := by
  obtain ⟨hcount, hplan⟩ := plan_number text s
  rcases hp : plan text s with ⟨_ | p, t⟩
  · rw [hp] at hcount
    rw [executeStatement_of_error hp]
    exact ⟨hcount, hcount⟩
  · rw [hp] at hcount hplan
    rcases hx : p.instruction.execute t.settings t.context with ⟨r, c⟩
    rw [executeStatement_of_ok hp (perform_of_execute hx)]
    exact ⟨hcount, hplan p rfl⟩

theorem line_number (text : String) (s : Session) :
    (line text s).2.transactions = s.transactions + 1 :=
  (plan_number text s).1

/-! ## Runs -/

/-- The outputs carry the numbers of their turns, which go on from `n`. -/
inductive Numbered : Nat → List Turn → Prop
  | nil (n : Nat) : Numbered n []
  | executed {n : Nat} {text : String} {out : Output} {later : List Turn}
      (number : out.transaction = n + 1) (h : Numbered (n + 1) later) :
      Numbered n (⟨text, some out⟩ :: later)
  | explained {n : Nat} {text : String} {later : List Turn} (h : Numbered (n + 1) later) :
      Numbered n (⟨text, none⟩ :: later)

namespace Numbered

variable {n : Nat} {log later : List Turn}

theorem append (h : Numbered n log) (hlater : Numbered (n + log.length) later) :
    Numbered n (log ++ later) := by
  induction h with
  | nil n => exact hlater
  | executed number _ ih =>
      rw [List.length_cons, Nat.add_comm _ 1, ← Nat.add_assoc] at hlater
      exact .executed number (ih hlater)
  | explained _ ih =>
      rw [List.length_cons, Nat.add_comm _ 1, ← Nat.add_assoc] at hlater
      exact .explained (ih hlater)

theorem number_of_turn (h : Numbered n log) {i : Nat} {turn : Turn} {out : Output}
    (hi : log[i]? = some turn) (hout : turn.output = some out) : out.transaction = n + i + 1 := by
  induction h generalizing i with
  | nil n => cases hi
  | executed number _ ih =>
      cases i with
      | zero =>
          cases hi
          cases hout
          exact number
      | succ i => rw [ih hi, Nat.add_assoc _ 1 i, Nat.add_comm 1 i]
  | explained _ ih =>
      cases i with
      | zero =>
          cases hi
          cases hout
      | succ i => rw [ih hi, Nat.add_assoc _ 1 i, Nat.add_comm 1 i]

theorem lt_of_mem (h : Numbered n log) : ∀ out ∈ log.filterMap Turn.output, n < out.transaction := by
  intro out hmem
  obtain ⟨turn, hturn, hout⟩ := List.mem_filterMap.1 hmem
  obtain ⟨i, hi⟩ := List.mem_iff_getElem?.1 hturn
  rw [h.number_of_turn hi hout]
  omega

theorem pairwise_lt (h : Numbered n log) :
    (log.filterMap Turn.output).Pairwise (·.transaction < ·.transaction) := by
  induction h with
  | nil n => exact .nil
  | executed number h ih =>
      simp only [List.filterMap_cons, List.pairwise_cons, number]
      exact ⟨h.lt_of_mem, ih⟩
  | explained _ ih =>
      simp only [List.filterMap_cons]
      exact ih

end Numbered

/-- The computation takes turns that are numbered on, and counts them. -/
def Counts (x : StateM Session (List Turn)) : Prop :=
  ∀ s : Session, Numbered s.transactions (x s).1 ∧
    (x s).2.transactions = s.transactions + (x s).1.length

theorem counts_nil : Counts (pure []) :=
  fun s => ⟨.nil s.transactions, rfl⟩

theorem Counts.append {x y : StateM Session (List Turn)} (hx : Counts x) (hy : Counts y) :
    Counts (do return (← x) ++ (← y)) := by
  intro s
  obtain ⟨hnumbered, hcount⟩ := hx s
  obtain ⟨hlater, hend⟩ := hy (x s).2
  rw [hcount] at hlater hend
  refine ⟨hnumbered.append hlater, hend.trans ?_⟩
  show _ = s.transactions + ((x s).1 ++ (y (x s).2).1).length
  rw [List.length_append, Nat.add_assoc]

theorem counts_executeTurns (texts : List String) : Counts (texts.mapM executeTurn) := by
  induction texts with
  | nil => exact counts_nil
  | cons text more ih =>
      intro s
      obtain ⟨hcount, hnumber⟩ := executeStatement_number text s
      obtain ⟨hlater, hend⟩ := ih (executeStatement text s).2
      rw [hcount] at hlater hend
      simp only [List.mapM_cons, step_bind, pure_apply, executeTurn_apply, List.length_cons]
      exact ⟨.executed hnumber hlater, by rw [hend]; omega⟩

theorem counts_explainTurns (texts : List String) : Counts (explainTurns texts) := by
  induction texts with
  | nil => exact counts_nil
  | cons text more ih =>
      intro s
      have hcount := line_number text s
      simp only [explainTurns, step_bind]
      cases (line text s).1 with
      | error e => exact ⟨.explained (.nil _), hcount⟩
      | ok l =>
          obtain ⟨hlater, hend⟩ := ih (line text s).2
          rw [hcount] at hlater hend
          simp only [step_bind, pure_apply, List.length_cons]
          exact ⟨.explained hlater, by rw [hend]; omega⟩

theorem counts_turns (d : Demand) : Counts (turns d) := by
  cases d with
  | execute text => exact counts_executeTurns (Sql.split text)
  | explain text => exact counts_explainTurns (Sql.split text)

theorem numbered_run (demands : List Demand) : Counts (List.flatten <$> demands.mapM turns) := by
  induction demands with
  | nil => exact counts_nil
  | cons d demands ih =>
      rw [List.mapM_cons]
      exact (counts_turns d).append ih

/-- Whatever a session is asked to execute and to explain: there is one turn for each plan that it was asked
for, the output of an execution has the number of turns up to its own as its number, and so the numbers
of the outputs increase. -/
theorem transactions_increase (c : Config) (ps : Providers) (context : Context)
    (demands : List Demand) :
    let (replies, s) := demands.mapM meet (start c ps context)
    let (log, t) := demands.mapM turns (start c ps context)
    let outputs := replies.flatMap Reply.executed
    s = t ∧ outputs = log.flatten.filterMap Turn.output ∧ s.transactions = log.flatten.length ∧
      (∀ i turn out, log.flatten[i]? = some turn → turn.output = some out →
        out.transaction = i + 1) ∧
      outputs.Pairwise (·.transaction < ·.transaction) := by
  obtain ⟨hstate, houtputs⟩ := run_turns_apply demands (start c ps context)
  obtain ⟨hnumbered, hcount⟩ := numbered_run demands (start c ps context)
  have hzero : (start c ps context).transactions = 0 := rfl
  rw [hzero] at hnumbered hcount
  refine ⟨hstate.symm, houtputs.symm, ?_, ?_, houtputs ▸ hnumbered.pairwise_lt⟩
  · exact (congrArg transactions hstate).symm.trans (hcount.trans (Nat.zero_add _))
  · intro i turn out hi hout
    rw [hnumbered.number_of_turn hi hout, Nat.zero_add]

end RestSql.Session
