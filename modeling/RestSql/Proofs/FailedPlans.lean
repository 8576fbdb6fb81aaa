import RestSql.Proofs.Planning

/-!
# Statements without a plan

A statement for which no plan can be made is answered with the error. It takes the number of a
transaction and a lookup that misses, and has no other effect: what is executed after it yields the same
without it, under numbers that are lower by one.
-/

namespace RestSql

/-- The output under the next number. -/
def Output.next (out : Output) : Output :=
  { out with transaction := out.transaction + 1 }

/-- The cache after a lookup that misses. -/
def PlanCache.missed (c : PlanCache) : PlanCache :=
  { c with misses := c.misses + 1 }

theorem PlanCache.get_of_find?_eq_none {c : PlanCache} {text : String} (h : c.find? text = none) :
    c.get text = (none, c.missed) := by
  unfold get
  rw [h]
  rfl

namespace Session

variable {s t : Session} {text : String}

theorem Reached.sound {start : Session} (h : Reached start s) (hs : start.Sound) : s.Sound := by
  induction h with
  | start => exact hs
  | executed _ text ih =>
      obtain ⟨_, he, hsound⟩ := executeStatement_eq_outcome ih text
      rw [he]
      exact hsound
  | planned _ text ih =>
      obtain ⟨_, _, hp, hplans, -⟩ := plan_eq_made ih.loaded ih.current text
      rw [hp]
      exact ih.with_plans rfl hplans
  | looked _ text ih => exact ih.with_plans rfl (PlanCache.Each.get ih.current text)

/-- A plan that is found never fails, so where there is no plan none is at hand, and none is kept. -/
theorem plan_error (h : s.Sound) {e : Error} (he : (plan text s).1 = .error e) :
    plan text s =
      (.error e, { s with transactions := s.transactions + 1, plans := s.plans.missed }) := by
  obtain ⟨r, hb, hr⟩ := build_eq_made h.loaded text (s.transactions + 1)
  have hfound := s.plans.fst_get text
  rcases hg : s.plans.get text with ⟨_ | p, plans⟩
  · rw [hg] at hfound
    have hplan := plan_of_missing hg hb
    rw [PlanCache.get_of_find?_eq_none hfound.symm] at hg
    cases hg
    rw [hplan] at he ⊢
    cases he
    rfl
  · rw [plan_of_found hg] at he
    cases he

/-- The second session differs from the first in the plans at hand, and it is one transaction ahead. -/
structure Ahead (s t : Session) : Prop where
  sound : s.Sound
  soundAhead : t.Sound
  same : ∃ plans, t = { s with transactions := s.transactions + 1, plans }

theorem outcome_next (s : Session) (plans : PlanCache) (text : String) :
    outcome { s with transactions := s.transactions + 1, plans } text =
      ((s.outcome text).1.next, (s.outcome text).2) := by
  have hmade : made { s with transactions := s.transactions + 1, plans } text = s.made text := rfl
  unfold outcome
  rw [hmade]
  cases s.made text with
  | error e => rfl
  | ok planned => rfl

/-- One transaction ahead, a statement yields the same under the next number. -/
theorem Ahead.statement (h : Ahead s t) (text : String) :
    (executeStatement text t).1 = (executeStatement text s).1.next ∧
      Ahead (executeStatement text s).2 (executeStatement text t).2 := by
  obtain ⟨plans, rfl⟩ := h.same
  obtain ⟨_, hs, hsound⟩ := executeStatement_eq_outcome h.sound text
  obtain ⟨_, ht, hsoundAhead⟩ := executeStatement_eq_outcome h.soundAhead text
  rw [outcome_next] at ht hsoundAhead
  rw [hs, ht]
  exact ⟨rfl, hsound, hsoundAhead, _, rfl⟩

/-! ## Batches -/

/-- Executes statements one after the other. -/
def executeEach (texts : List String) : StateM Session (List Output) :=
  texts.mapM executeStatement

theorem executeEach_cons (text : String) (more : List String) (s : Session) :
    executeEach (text :: more) s =
      ((executeStatement text s).1 :: (executeEach more (executeStatement text s).2).1,
        (executeEach more (executeStatement text s).2).2) := by
  rw [executeEach, List.mapM_cons]
  rfl

theorem executeEach_append (before after : List String) (s : Session) :
    executeEach (before ++ after) s =
      ((executeEach before s).1 ++ (executeEach after (executeEach before s).2).1,
        (executeEach after (executeEach before s).2).2) := by
  rw [executeEach, List.mapM_append]
  rfl

theorem length_executeEach (texts : List String) (s : Session) :
    (executeEach texts s).1.length = texts.length := by
  induction texts generalizing s with
  | nil => rfl
  | cons text more ih =>
      rw [executeEach_cons]
      exact congrArg (· + 1) (ih _)

theorem Reached.executeEach {start : Session} (h : Reached start s) (texts : List String) :
    Reached start (executeEach texts s).2 := by
  induction texts generalizing s with
  | nil => exact h
  | cons text more ih =>
      rw [executeEach_cons]
      exact ih (h.executed text)

/-- One transaction ahead, a batch yields the same under the next numbers. -/
theorem Ahead.batch (h : Ahead s t) (texts : List String) :
    (executeEach texts t).1 = (executeEach texts s).1.map Output.next ∧
      Ahead (executeEach texts s).2 (executeEach texts t).2 := by
  induction texts generalizing s t with
  | nil => exact ⟨rfl, h⟩
  | cons text more ih =>
      obtain ⟨hout, hahead⟩ := h.statement text
      obtain ⟨houts, hend⟩ := ih hahead
      rw [executeEach_cons, executeEach_cons, hout, houts]
      exact ⟨rfl, hend⟩

/-- A statement of a batch for which no plan can be made sends nothing and leaves the plans at hand and the
context as they are. The other statements yield what they yield without it, under numbers that are one
higher after it. -/
theorem failed_plan_without_effect {config : Config} {ps : Providers} {context : Context}
    (h : ps.Loaded) {s : Session} (hs : Reached (start config ps context) s)
    {batch : String} {before after : List String} (hb : Sql.split batch = before ++ text :: after)
    {e : Error} (he : (plan text (executeEach before s).2).1 = .error e) :
    let t := (executeEach before s).2
    (executeStatement text t).2 =
        { t with transactions := t.transactions + 1
                 plans := { t.plans with misses := t.plans.misses + 1 } } ∧
      ∃ earlier failed later u v,
        execute batch s = (earlier ++ failed :: later.map Output.next, u) ∧
        executeEach (before ++ after) s = (earlier ++ later, v) ∧
        earlier.length = before.length ∧ later.length = after.length ∧
        failed.error = some e ∧ u.context = v.context := by
  intro t
  have ht : t.Sound := (hs.executeEach before).sound (.of_no_plans h rfl)
  have hfailed := executeStatement_of_error (plan_error ht he)
  have hahead : Ahead t (executeStatement text t).2 := by
    rw [hfailed]
    exact ⟨ht, ht.with_plans rfl ht.current, _, rfl⟩
  obtain ⟨hlater, hend⟩ := hahead.batch after
  obtain ⟨_, hsame⟩ := hend.same
  refine ⟨by rw [hfailed]; rfl, (executeEach before s).1, (executeStatement text t).1,
    (executeEach after t).1, (executeEach after (executeStatement text t).2).2,
    (executeEach after t).2, ?_, executeEach_append before after s, length_executeEach _ _,
    length_executeEach _ _, by rw [hfailed]; rfl, by rw [hsame]⟩
  show executeEach (Sql.split batch) s = _
  rw [hb, executeEach_append, executeEach_cons, hlater]

/-- No provider is known under the name that the second of three statements uses. -/
theorem failed_plan_without_effect_pauses :
    let s := start (.initial "")
      [("google", .google (.loaded [] []) (.fixed "token" "me") false)]
      (.initial .unreachable "google")
    ∃ earlier failed later u,
      execute "SLEEP 5; USE nowhere; SLEEP 7" s = ([earlier, failed, Output.next later], u) ∧
      (executeEach ["SLEEP 5", "SLEEP 7"] s).1 = [earlier, later] ∧ failed.error.isSome := by
  intro s
  have hb : Sql.split "SLEEP 5; USE nowhere; SLEEP 7" =
      ["SLEEP 5"] ++ "USE nowhere" :: ["SLEEP 7"] := by decide +kernel
  have hfails : (plan "USE nowhere" (executeEach ["SLEEP 5"] s).2).1.isOk = false := by
    decide +kernel
  cases he : (plan "USE nowhere" (executeEach ["SLEEP 5"] s).2).1 with
  | ok p =>
      rw [he] at hfails
      cases hfails
  | error e =>
      obtain ⟨-, earlier, failed, later, u, v, hbatch, hrest, hearlier, hlater, herror, -⟩ :=
        failed_plan_without_effect (.singleton ⟨[], [], rfl⟩) (s := s) .start hb he
      obtain ⟨out, rfl⟩ := List.length_eq_one_iff.1 hearlier
      obtain ⟨last, rfl⟩ := List.length_eq_one_iff.1 hlater
      exact ⟨out, failed, last, u, hbatch, congrArg Prod.fst hrest, by rw [herror]; rfl⟩

end Session
end RestSql
