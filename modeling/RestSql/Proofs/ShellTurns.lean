import Mathlib.Data.List.DropRight
import RestSql.CommandLine.Program
import RestSql.Proofs.FailedPlans
import RestSql.Proofs.StatementScan
import RestSql.Proofs.Transactions

/-!
# What the shell executes

The shell reads line by line. It decides by the end of a line alone whether what it has read is executed,
and the lines are cut into statements only then. `turns` are the texts that it executes in this way.

Where each turn ends its last statement, the statements are those of all the lines in one text, as a file
with these lines has them (`Sql.split_join`). A line that ends with a semicolon inside quotes or a comment
parts a turn that the scan of the whole text does not part.
-/

namespace RestSql.Program

/-! ## Turns -/

/-- The line ends what is read, so that it is executed. -/
def closes (line : String) : Bool :=
  (Text.trimmed line).toList.getLast? = some ';'

/-- What waits after a line. -/
def left (waiting line : String) : String :=
  if closes line then "" else waiting ++ line

/-- What is executed after a line. -/
def taken (waiting line : String) : List String :=
  if closes line then [waiting ++ line] else []

/-- The texts that are executed while lines are read. -/
def turns (waiting : String) : List String → List String
  | [] => []
  | line :: more =>
    if waiting = "" ∧ Text.trimmed line ∈ farewells then []
    else taken waiting line ++ turns (left waiting line) more

/-- No line ends the shell. -/
def Stays (waiting : String) : List String → Prop
  | [] => True
  | line :: more =>
    ¬(waiting = "" ∧ Text.trimmed line ∈ farewells) ∧ Stays (left waiting line) more

theorem rdropWhile_cons {α : Type} (p : α → Bool) (a : α) (l : List α) :
    (a :: l).rdropWhile p =
      if l.rdropWhile p = [] then (if p a then [] else [a]) else a :: l.rdropWhile p := by
  simp only [List.rdropWhile, List.reverse_cons, List.dropWhile_append, List.isEmpty_iff,
    List.reverse_eq_nil_iff]
  split
  · cases h : p a <;> simp [h]
  · rw [List.reverse_append]
    rfl

/-- The turns are the lines up to the last one that closes a turn. -/
theorem join_turns {waiting : String} {lines : List String} (h : Stays waiting lines) :
    String.join (turns waiting lines) =
      if lines.rdropWhile (!closes ·) = [] then ""
      else waiting ++ String.join (lines.rdropWhile (!closes ·)) := by
  induction lines generalizing waiting with
  | nil => rfl
  | cons line more ih =>
      obtain ⟨hstay, h⟩ := h
      rw [turns, if_neg hstay, rdropWhile_cons, String.join_append, ih h, taken, left]
      generalize more.rdropWhile (!closes ·) = kept
      cases closes line <;> cases kept <;> simp [String.append_assoc]

/-! ## What a run executes -/

/-- The desk comes to be another one while statements are executed one after the other; all else that
happens is that something is printed. -/
inductive Executes (c : Config) : Desk → List String → Desk → Prop
  | done (d : Desk) : Executes c d [] d
  | said {d e : Desk} {texts : List String} (text : String)
      (h : Executes c (say text d).2 texts e) : Executes c d texts e
  | printed {d e : Desk} {texts : List String} (p : Printed)
      (h : Executes c (put c p d).2 texts e) : Executes c d texts e
  | statement {d e : Desk} {texts : List String} (text : String)
      (h : Executes c { d with session := (Session.executeStatement text d.session).2 } texts e) :
      Executes c d (text :: texts) e

section

variable {c : Config} {d e e' : Desk} {texts more : List String}

theorem Executes.append (h : Executes c d texts e) (hmore : Executes c e more e') :
    Executes c d (texts ++ more) e' := by
  induction h with
  | done => exact hmore
  | said text _ ih => exact .said text (ih hmore)
  | printed p _ ih => exact .printed p (ih hmore)
  | statement text _ ih => exact .statement text (ih hmore)

theorem transactions_put (p : Printed) (d : Desk) :
    (put c p d).2.session.transactions = d.session.transactions := by
  unfold put
  cases c.outputFile <;> rfl

/-- The session has numbered the statements, and nothing else. -/
theorem Executes.transactions (h : Executes c d texts e) :
    e.session.transactions = d.session.transactions + texts.length := by
  induction h with
  | done => rfl
  | said text _ ih => exact ih
  | printed p _ ih => rw [ih, transactions_put]
  | statement text _ ih =>
      rw [ih, (Session.executeStatement_number _ _).1, List.length_cons]
      omega

theorem executes_each (texts : List String) (d : Desk) :
    Executes c d texts { d with session := (Session.executeEach texts d.session).2 } := by
  induction texts generalizing d with
  | nil => exact .done d
  | cons text texts ih =>
      rw [Session.executeEach_cons]
      exact .statement text (ih { d with session := (Session.executeStatement text d.session).2 })

theorem bind_of_ok {α β : Type} {x : Program α} {a : α} (h : x d = (.ok a, e)) (f : α → Program β) :
    (x >>= f) d = f a e := by
  show (ExceptT.bindCont f (x d).1) (x d).2 = _
  rw [h]
  rfl

theorem put_each (outputs : List Output) (d : Desk) :
    ∃ e, (outputs.forM fun out => put c (c.print out) : Program Unit) d = (.ok (), e) ∧
      Executes c d [] e := by
  induction outputs generalizing d with
  | nil => exact ⟨d, rfl, .done d⟩
  | cons out outputs ih =>
      obtain ⟨e, he, hexec⟩ := ih (put c (c.print out) d).2
      exact ⟨e, he, .printed _ hexec⟩

theorem execute_executes (c : Config) (text : String) (d : Desk) :
    ∃ failed e, execute c text d = (.ok failed, e) ∧ Executes c d (Sql.split text) e := by
  have hsession : inSession (Session.execute text) d =
      (.ok (Session.executeEach (Sql.split text) d.session).1,
        { d with session := (Session.executeEach (Sql.split text) d.session).2 }) := rfl
  obtain ⟨e, he, hput⟩ := put_each (c := c) (Session.executeEach (Sql.split text) d.session).1
    { d with session := (Session.executeEach (Sql.split text) d.session).2 }
  refine ⟨_, e, (bind_of_ok hsession _).trans (bind_of_ok he _), ?_⟩
  exact List.append_nil (Sql.split text) ▸ (executes_each _ d).append hput

theorem takeLine_executes {waiting line : String} (h : ¬(waiting = "" ∧ Text.trimmed line ∈ farewells))
    (c : Config) (d : Desk) :
    ∃ e, takeLine c waiting line d = (.ok (some (left waiting line)), e) ∧
      Executes c d ((taken waiting line).flatMap Sql.split) e := by
  rw [takeLine, if_neg h, left, taken, closes]
  by_cases hcloses : (Text.trimmed line).toList.getLast? = some ';'
  · obtain ⟨failed, e, he, hexec⟩ := execute_executes c (waiting ++ line) d
    rw [if_pos hcloses, if_pos (decide_eq_true hcloses), if_pos (decide_eq_true hcloses),
      List.flatMap_singleton]
    exact ⟨e, bind_of_ok he _, hexec⟩
  · rw [if_neg hcloses, if_neg (by simpa using hcloses), if_neg (by simpa using hcloses)]
    exact ⟨d, rfl, .done d⟩

theorem takeLines_executes (c : Config) (waiting : String) (lines : List String) (d : Desk) :
    ∃ e, takeLines c waiting lines d = (.ok (), e) ∧
      Executes c d ((turns waiting lines).flatMap Sql.split) e := by
  induction lines generalizing waiting d with
  | nil => exact ⟨_, rfl, .said (prompt waiting ++ "\n") (.done _)⟩
  | cons line more ih =>
      rw [turns]
      by_cases hend : waiting = "" ∧ Text.trimmed line ∈ farewells
      · have hline (d : Desk) : takeLine c waiting line d = (.ok none, d) := by
          rw [takeLine, if_pos hend]
          rfl
        rw [if_pos hend]
        exact ⟨_, bind_of_ok (hline (say (prompt waiting) d).2) _, .said (prompt waiting) (.done _)⟩
      · obtain ⟨e, he, hexec⟩ := takeLine_executes hend c (say (prompt waiting) d).2
        obtain ⟨e', he', hmore⟩ := ih (left waiting line) e
        rw [if_neg hend, List.flatMap_append]
        exact ⟨e', (bind_of_ok he _).trans he', .said (prompt waiting) (hexec.append hmore)⟩

/-- After the greeting the shell executes the statements of its turns. If no line ends it, and every turn
but the last ends a statement, these are the statements of the lines up to the last one that ends with a
semicolon, in one text. -/
theorem shell_executes {c : Config} {d e : Desk} (hopen : openShell c d = (.ok (), e)) (input : String) :
    ∃ e', shell c input d = (.ok 0, e') ∧
      Executes c e ((turns "" (linesOf input)).flatMap Sql.split) e' ∧
      (Stays "" (linesOf input) →
        (∀ text ∈ (turns "" (linesOf input)).dropLast, Sql.EndsStatement text.toList) →
        Executes c e (Sql.split (String.join ((linesOf input).rdropWhile (!closes ·)))) e') := by
  obtain ⟨e', he', hexec⟩ := takeLines_executes c "" (linesOf input) e
  refine ⟨e', (bind_of_ok hopen _).trans (bind_of_ok he' _), hexec, fun hstay hends => ?_⟩
  have hjoin : String.join (turns "" (linesOf input)) =
      String.join ((linesOf input).rdropWhile (!closes ·)) := by
    rw [join_turns hstay]
    split <;> simp [*]
  rw [← hjoin, Sql.split_join hends]
  exact hexec

end

/-- A desk at the start of a run, in a session that knows no provider. -/
def bareDesk : Desk :=
  { session := .start (.initial "") [] (.initial .unreachable "google"), output := "", errors := "" }

/-- A statement over two lines, a second one and a line that is never executed. -/
theorem shell_executes_lines :
    ∃ e e', openShell (.initial "") bareDesk = (.ok (), e) ∧
      shell (.initial "") "SHOW -- all\nAUTH; \nSLEEP 0;\nSHOW" bareDesk = (.ok 0, e') ∧
      Executes (.initial "") e ["SHOW -- all\nAUTH", "SLEEP 0"] e' := by
  have hlines : linesOf "SHOW -- all\nAUTH; \nSLEEP 0;\nSHOW" =
      ["SHOW -- all\n", "AUTH; \n", "SLEEP 0;\n", "SHOW"] := by decide +kernel
  have hturns : turns "" ["SHOW -- all\n", "AUTH; \n", "SLEEP 0;\n", "SHOW"] =
      ["SHOW -- all\nAUTH; \n", "SLEEP 0;\n"] := by decide +kernel
  have hsplit : Sql.split (String.join (["SHOW -- all\n", "AUTH; \n", "SLEEP 0;\n", "SHOW"].rdropWhile
      (!closes ·))) = ["SHOW -- all\nAUTH", "SLEEP 0"] := by decide +kernel
  obtain ⟨e', hshell, -, hexec⟩ := @shell_executes (.initial "") bareDesk _ rfl
    "SHOW -- all\nAUTH; \nSLEEP 0;\nSHOW"
  rw [hlines, hturns, hsplit] at hexec
  refine ⟨_, e', rfl, hshell, hexec ?_ ?_⟩
  · exact ⟨by decide +kernel, by decide +kernel, by decide +kernel, by decide +kernel, trivial⟩
  · intro text htext
    obtain rfl : text = "SHOW -- all\nAUTH; \n" := by simpa using htext
    have hblanks : ∀ c ∈ [' ', '\n'], Text.isBlank c = true :=
      List.forall_mem_cons.2 ⟨rfl, List.forall_mem_singleton.2 rfl⟩
    exact ⟨"SHOW -- all\nAUTH".toList, _, by decide +kernel, hblanks, by decide +kernel⟩

/-- The first line of this statement ends with a semicolon inside quotes. The shell executes two texts, and
neither of them is the statement. -/
theorem not_executes_quoted_semicolon :
    ¬∀ (c : Config) (d e e' : Desk) (input : String), openShell c d = (.ok (), e) →
      Stays "" (linesOf input) → shell c input d = (.ok 0, e') →
      Executes c e (Sql.split (String.join ((linesOf input).rdropWhile (!closes ·)))) e' := by
  intro hall
  have hlines : linesOf "SELECT 'a;\nb';\n" = ["SELECT 'a;\n", "b';\n"] := by decide +kernel
  have hstatements : (turns "" ["SELECT 'a;\n", "b';\n"]).flatMap Sql.split =
      ["SELECT 'a;", "b';"] := by decide +kernel
  have hsplit : Sql.split (String.join (["SELECT 'a;\n", "b';\n"].rdropWhile (!closes ·))) =
      ["SELECT 'a;\nb'"] := by decide +kernel
  have hopen : ∃ e, openShell (.initial "") bareDesk = (.ok (), e) := ⟨_, rfl⟩
  obtain ⟨e, hopen⟩ := hopen
  obtain ⟨e', hlast, htwo⟩ := takeLines_executes (.initial "") "" (linesOf "SELECT 'a;\nb';\n") e
  have hone := hall (.initial "") bareDesk e e' "SELECT 'a;\nb';\n" hopen ?_
    ((bind_of_ok hopen _).trans (bind_of_ok hlast _))
  · rw [hlines, hstatements] at htwo
    rw [hlines, hsplit] at hone
    have hcount := htwo.transactions.symm.trans hone.transactions
    simp at hcount
  · rw [hlines]
    exact ⟨by decide +kernel, by decide +kernel, trivial⟩

end RestSql.Program
