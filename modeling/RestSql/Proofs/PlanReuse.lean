import RestSql.Proofs.Accepted

/-!
# The reuse of plans cannot be observed

A session keeps plans and uses them again for the same text. Beside it stands a session that forgets all
plans before each lookup, so that every lookup misses. The two give the same answers and leave the same
context behind, whatever is executed and explained and in which order.

The invariant is `Session.PlansCurrent`: every plan at hand is what would be made now for its text. Only
the current provider decides what is made (`Session.steady_build`), and the plans are forgotten when it
changes.
-/

namespace RestSql.Session

/-! ## What would be made now -/

/-- The kind and the instruction of a new plan for a statement. -/
def made (s : Session) (text : String) : Except Error (String × Instruction) :=
  (build s.providers s.pageSize text 0 s.context).1.map fun p => (p.kind, p.instruction)

/-- Every plan at hand is what would be made now for its text. -/
def PlansCurrent (s : Session) : Prop :=
  s.plans.Each fun text p => s.made text = .ok (p.kind, p.instruction)

/-- The number of the transaction is all that two new plans for a text differ in. -/
theorem build_transaction (ps : Providers) (pageSize : Nat) (text : String) (transaction : Nat) :
    build ps pageSize text transaction = (·.rebind transaction) <$> build ps pageSize text 0 := by
  simp only [build, map_bind, map_pure]
  rfl

theorem build_eq_made {s : Session} (h : s.providers.Loaded) (text : String) (transaction : Nat) :
    ∃ r, build s.providers s.pageSize text transaction s.context = (r, s.context) ∧
      match r with
      | .error e => s.made text = .error e
      | .ok p => s.made text = .ok (p.kind, p.instruction) ∧ p.transaction = transaction := by
  obtain ⟨r, hr⟩ := steady_build h s.context.current s.pageSize text 0
  rw [build_transaction, map_eq_pure_bind, Run.bind_apply, made, hr s.context rfl]
  cases r with
  | error e => exact ⟨_, rfl, rfl⟩
  | ok p => exact ⟨_, rfl, rfl, rfl⟩

theorem made_congr {s t : Session} (h : s.providers.Loaded) (hp : t.providers = s.providers)
    (hn : t.pageSize = s.pageSize) (hc : t.context.current = s.context.current) :
    t.made = s.made := by
  funext text
  obtain ⟨r, hr⟩ := steady_build h s.context.current s.pageSize text 0
  rw [made, made, hp, hn, hr s.context rfl, hr t.context hc]

/-- A plan is for a statement with a meaning. -/
theorem build_ok {ps : Providers} {pageSize : Nat} {text : String} {transaction : Nat} {c : Context}
    {p : Plan} (h : (build ps pageSize text transaction c).1 = .ok p) :
    ∃ statement current c' a, Sql.Statement.ofText text = .ok statement ∧ statement.kind = p.kind ∧
      (Analysis.analyze ps current pageSize statement c').1 = .ok a ∧
      Instruction.ofAnalysis a = .ok p.instruction := by
  obtain ⟨statement, _, hparsed, h⟩ := Run.bind_ok h
  obtain ⟨_, _, -, h⟩ := Run.bind_ok h
  obtain ⟨context, c, -, h⟩ := Run.bind_ok h
  obtain ⟨a, _, ha, h⟩ := Run.bind_ok h
  obtain ⟨i, _, hi, h⟩ := Run.bind_ok h
  cases h
  exact ⟨statement, context.current, c, a, Run.ofExcept_ok (congrArg Prod.fst hparsed), rfl,
    congrArg Prod.fst ha, Run.ofExcept_ok (congrArg Prod.fst hi)⟩

theorem made_ok {s : Session} {text kind : String} {i : Instruction} (h : s.made text = .ok (kind, i)) :
    ∃ statement current c a, Sql.Statement.ofText text = .ok statement ∧ statement.kind = kind ∧
      (Analysis.analyze s.providers current s.pageSize statement c).1 = .ok a ∧
      Instruction.ofAnalysis a = .ok i := by
  rw [made] at h
  cases hb : (build s.providers s.pageSize text 0 s.context).1 with
  | error e =>
      rw [hb] at h
      cases h
  | ok p =>
      rw [hb] at h
      cases h
      exact build_ok hb

/-- A text whose plan cannot be made has no plan at hand. -/
theorem PlansCurrent.find?_eq_none {s : Session} (h : s.PlansCurrent) {text : String} {e : Error}
    (he : s.made text = .error e) : s.plans.find? text = none := by
  cases hf : s.plans.find? text with
  | none => rfl
  | some p => cases he.symm.trans (PlanCache.Each.find? h hf)

/-! ## Steps of a session -/

section

variable {α β : Type} (s t : Session)

theorem pure_apply (a : α) : (pure a : StateM Session α) s = (a, s) := rfl

theorem step_bind (x : StateM Session α) (f : α → StateM Session β) :
    (x >>= f) s = f (x s).1 (x s).2 := rfl

theorem get_apply : (get : StateM Session Session) s = (s, s) := rfl

theorem set_apply : (set t : StateM Session PUnit) s = ((), t) := rfl

theorem modify_apply (f : Session → Session) :
    (modify f : StateM Session PUnit) s = ((), f s) := rfl

theorem run_apply (x : Run α) :
    run x s = ((x s.context).1, { s with context := (x s.context).2 }) := rfl

end

/-! ## Looking up a plan -/

theorem plan_of_found {s : Session} {text : String} {p : Plan} {plans : PlanCache}
    (h : s.plans.get text = (some p, plans)) :
    plan text s = (.ok (p.rebind (s.transactions + 1)),
      { s with transactions := s.transactions + 1
               plans := plans.replace text (p.rebind (s.transactions + 1)) }) := by
  simp only [plan, step_bind, modify_apply, get_apply, set_apply, pure_apply, h]

theorem plan_of_missing {s : Session} {text : String} {plans : PlanCache} {r : Except Error Plan}
    {context : Context} (h : s.plans.get text = (none, plans))
    (hb : build s.providers s.pageSize text (s.transactions + 1) s.context = (r, context)) :
    plan text s = (r,
      { s with transactions := s.transactions + 1
               context
               plans := match r with
                 | .error _ => plans
                 | .ok p => plans.insert text p }) := by
  simp only [plan, step_bind, modify_apply, get_apply, set_apply, h, run_apply, hb]
  cases r <;> rfl

/-- Found or made anew, a plan is what would be made now, under the next number; and what is kept
afterwards would be made now, too. -/
theorem plan_eq_made {s : Session} (hl : s.providers.Loaded) (h : s.PlansCurrent) (text : String) :
    ∃ r plans, plan text s = (r, { s with transactions := s.transactions + 1, plans }) ∧
      plans.Each (fun text p => s.made text = .ok (p.kind, p.instruction)) ∧
      match r with
      | .error e => s.made text = .error e
      | .ok p => s.made text = .ok (p.kind, p.instruction) ∧ p.transaction = s.transactions + 1 := by
  have hget := PlanCache.Each.get h text
  have hfound := s.plans.fst_get text
  rcases hg : s.plans.get text with ⟨_ | p, plans⟩ <;> rw [hg] at hget hfound
  -- no plan is at hand, and a new one is kept if there is one
  · obtain ⟨r, hb, hr⟩ := build_eq_made hl text (s.transactions + 1)
    refine ⟨_, _, plan_of_missing hg hb, ?_⟩
    cases r with
    | error e => exact ⟨hget, hr⟩
    | ok p => exact ⟨hget.insert hr.1, hr⟩
  -- the plan at hand is used again under the next number
  · have hp := PlanCache.Each.find? h hfound.symm
    exact ⟨_, _, plan_of_found hg, PlanCache.Each.replace hget hp, hp, rfl⟩

/-! ## Executing a statement -/

/-- What the reuse of plans relies on. -/
structure Sound (s : Session) : Prop where
  loaded : s.providers.Loaded
  current : s.PlansCurrent

/-- Only a change of the current provider can outdate a plan. -/
theorem Sound.with_plans {s : Session} (h : s.Sound) {transactions : Nat} {context : Context}
    {plans : PlanCache} (hc : context.current = s.context.current)
    (hp : plans.Each fun text p => s.made text = .ok (p.kind, p.instruction)) :
    Sound { s with transactions, context, plans } := by
  refine ⟨h.loaded, ?_⟩
  unfold PlansCurrent
  rw [made_congr (t := { s with transactions, context, plans }) h.loaded rfl rfl hc]
  exact hp

theorem Sound.of_no_plans {s : Session} (h : s.providers.Loaded) (hp : s.plans.entries = []) :
    s.Sound :=
  ⟨h, fun e he => by rw [hp] at he; cases he⟩

/-- The output of an instruction under the number of a transaction, and the context after it. -/
def performed (settings : CallSettings) (instruction : Instruction) (transaction : Nat)
    (c : Context) : Output × Context :=
  let (r, c) := instruction.execute settings c
  let out := match r with
    | .ok out => out
    | .error e => .ofError e
  ({ out with transaction }, c)

/-- The output of a statement and the context after it, as they are without any plan at hand. -/
def outcome (s : Session) (text : String) : Output × Context :=
  match s.made text with
  | .error e => ({ Output.ofError e with transaction := s.transactions + 1 }, s.context)
  | .ok (_, instruction) => performed s.settings instruction (s.transactions + 1) s.context

theorem perform_eq (p : Plan) (s : Session) :
    perform p s =
      let (out, context) := performed s.settings p.instruction p.transaction s.context
      (out, { s with context }) := by
  simp only [perform, step_bind, get_apply, run_apply, pure_apply]
  rfl

/-- The output that the result of an execution gives. -/
def outputOf : Except Error Output → Output
  | .ok out => out
  | .error e => .ofError e

theorem perform_of_execute {p : Plan} {s : Session} {r : Except Error Output} {c : Context}
    (h : p.instruction.execute s.settings s.context = (r, c)) :
    perform p s =
      ({ outputOf r with transaction := p.transaction }, { s with context := c }) := by
  rw [perform_eq, performed, h]
  cases r <;> rfl

theorem executeStatement_of_error {s t : Session} {text : String} {e : Error}
    (h : plan text s = (.error e, t)) :
    executeStatement text s = ({ Output.ofError e with transaction := t.transactions }, t) := by
  simp only [executeStatement, step_bind, h, get_apply, pure_apply]

theorem executeStatement_of_ok {s t u : Session} {text : String} {p : Plan} {out : Output}
    (h : plan text s = (.ok p, t)) (hp : perform p t = (out, u)) :
    executeStatement text s = (out,
      let plans := u.plans.replace text (p.record out)
      { u with plans := if u.context.current = t.context.current then plans else plans.clear }) := by
  simp only [executeStatement, step_bind, h, get_apply, hp, modify_apply, pure_apply]
  by_cases hc : u.context.current = t.context.current <;> simp [hc]

/-- A statement yields what it would yield without plans at hand, and the invariant is kept. -/
theorem executeStatement_eq_outcome {s : Session} (h : s.Sound) (text : String) :
    ∃ plans, executeStatement text s = ((s.outcome text).1,
        { s with transactions := s.transactions + 1, context := (s.outcome text).2, plans }) ∧
      Sound { s with transactions := s.transactions + 1, context := (s.outcome text).2, plans } := by
  obtain ⟨r, plans, hplan, heach, hr⟩ := plan_eq_made h.loaded h.current text
  cases r with
  | error e =>
      simp only [outcome, hr]
      exact ⟨plans, executeStatement_of_error hplan, h.with_plans rfl heach⟩
  | ok p =>
      obtain ⟨hmade, hnumber⟩ := hr
      simp only [outcome, hmade, ← hnumber]
      have hperform := perform_eq p { s with transactions := p.transaction, plans }
      rw [← hnumber] at hplan
      refine ⟨_, executeStatement_of_ok hplan hperform, ?_⟩
      -- the plans survive only if the provider is still the current one
      split
      · rename_i hc
        exact h.with_plans hc (PlanCache.Each.replace heach hmade)
      · exact Sound.of_no_plans h.loaded rfl

/-! ## Explaining a statement -/

/-- The line about the plan of a statement. -/
def line (text : String) : StateM Session (Except Error String) :=
  return (← plan text).map Plan.explain

/-- The line about the plan that would be made now. -/
def lineMade (s : Session) (text : String) : Except Error String :=
  (s.made text).map fun (kind, instruction) => (Plan.make kind text instruction 0).explain

theorem line_of_plan {s t : Session} {text : String} {r : Except Error Plan}
    (h : plan text s = (r, t)) : line text s = (r.map Plan.explain, t) := by
  simp only [line, step_bind, h, pure_apply]

/-- A plan is explained as if it were new, and the invariant is kept. -/
theorem line_eq_lineMade {s : Session} (h : s.Sound) (text : String) :
    ∃ plans, line text s = (s.lineMade text, { s with transactions := s.transactions + 1, plans }) ∧
      Sound { s with transactions := s.transactions + 1, plans } := by
  obtain ⟨r, plans, hplan, heach, hr⟩ := plan_eq_made h.loaded h.current text
  have hline : r.map Plan.explain = s.lineMade text := by
    cases r with
    | error e =>
        rw [lineMade, hr]
        rfl
    | ok p =>
        rw [lineMade, hr.1]
        rfl
  rw [← hline]
  exact ⟨plans, line_of_plan hplan, h.with_plans rfl heach⟩

/-! ## A session that finds no plan -/

/-- Forgets all plans, so that the next lookup misses. -/
def forget : StateM Session Unit :=
  modify fun s => { s with plans := s.plans.clear }

/-- Executes the statements of a text; no plan is found. -/
def executeAnew (text : String) : StateM Session (List Output) :=
  (Sql.split text).mapM fun text => do
    forget
    executeStatement text

/-- The lines about the plans of some statements, up to the first that has none; no plan is found. -/
def explainEachAnew : List String → StateM Session (Except Error (List String))
  | [] => return .ok []
  | text :: more => do
    forget
    match ← plan text with
    | .error e => return .error e
    | .ok p => return (← explainEachAnew more).map (p.explain :: ·)

/-- The lines about the plans of the statements of a text; no plan is found. -/
def explainAnew (text : String) : StateM Session (Except Error (List String)) :=
  match Sql.split text with
  | [] => return .error (.parse .empty)
  | texts => explainEachAnew texts

/-- What a session is asked to do. -/
inductive Demand
  | execute (text : String)
  | explain (text : String)

/-- What a session answers. -/
inductive Reply
  | outputs (list : List Output)
  | lines (result : Except Error (List String))

/-- Meets a demand. -/
def meet : Demand → StateM Session Reply
  | .execute text => return .outputs (← execute text)
  | .explain text => return .lines (← explain text)

/-- Meets a demand; no plan is found. -/
def meetAnew : Demand → StateM Session Reply
  | .execute text => return .outputs (← executeAnew text)
  | .explain text => return .lines (← explainAnew text)

/-! ## The two sessions side by side -/

/-- The sessions differ in nothing but the plans at hand. -/
def SameButPlans (s t : Session) : Prop :=
  ∃ plans, t = { s with plans }

/-- Started in sessions that differ only in the plans at hand, the computations have the same result and
end in such sessions. -/
def Agree {α : Type} (x y : StateM Session α) : Prop :=
  ∀ s t, s.Sound → t.Sound → SameButPlans s t →
    (x s).1 = (y t).1 ∧ (x s).2.Sound ∧ (y t).2.Sound ∧ SameButPlans (x s).2 (y t).2

theorem agree_pure {α : Type} (a : α) : Agree (pure a) (pure a) :=
  fun _ _ hs ht h => ⟨rfl, hs, ht, h⟩

theorem Agree.bind {α β : Type} {x y : StateM Session α} {f g : α → StateM Session β}
    (h : Agree x y) (hf : ∀ a, Agree (f a) (g a)) : Agree (x >>= f) (y >>= g) := by
  intro s t hs ht hst
  obtain ⟨hr, hs, ht, hst⟩ := h s t hs ht hst
  have hy : (y >>= g) t = g (x s).1 (y t).2 := by
    rw [hr]
    rfl
  rw [hy]
  exact hf (x s).1 (x s).2 (y t).2 hs ht hst

theorem agree_mapM {α β : Type} {f g : α → StateM Session β} (h : ∀ a, Agree (f a) (g a))
    (l : List α) : Agree (l.mapM f) (l.mapM g) := by
  induction l with
  | nil => exact agree_pure []
  | cons a l ih =>
      rw [List.mapM_cons, List.mapM_cons]
      exact (h a).bind fun b => ih.bind fun bs => agree_pure (b :: bs)

/-- Plans may be forgotten at any time. -/
theorem Agree.forget {α : Type} {x y : StateM Session α} (h : Agree x y) :
    Agree x (do forget; y) := by
  intro s t hs ht hst
  obtain ⟨plans, rfl⟩ := hst
  exact h s _ hs (.of_no_plans hs.loaded rfl) ⟨plans.clear, rfl⟩

/-- A step agrees with itself if its result and the context after it do not depend on the plans at
hand. -/
theorem agree_self {α : Type} {x : StateM Session α} (f : Session → α × Context)
    (hf : ∀ s plans, f { s with plans } = f s)
    (hx : ∀ s, s.Sound → ∃ plans,
      x s = ((f s).1, { s with transactions := s.transactions + 1, context := (f s).2, plans }) ∧
        Sound { s with transactions := s.transactions + 1, context := (f s).2, plans }) :
    Agree x x := by
  intro s t hs ht hst
  obtain ⟨plans, hxs, hs⟩ := hx s hs
  obtain ⟨others, hxt, ht⟩ := hx t ht
  obtain ⟨_, rfl⟩ := hst
  rw [hf] at hxt ht
  rw [hxs, hxt]
  exact ⟨rfl, hs, ht, others, rfl⟩

theorem agree_executeStatement (text : String) :
    Agree (executeStatement text) (executeStatement text) :=
  agree_self (outcome · text) (fun _ _ => rfl) fun _ hs => executeStatement_eq_outcome hs text

theorem agree_line (text : String) : Agree (line text) (line text) :=
  agree_self (fun s => (s.lineMade text, s.context)) (fun _ _ => rfl) fun _ hs =>
    line_eq_lineMade hs text

theorem explainEach_cons (text : String) (more : List String) :
    explainEach (text :: more) = line text >>= fun
      | .error e => pure (.error e)
      | .ok l => return (← explainEach more).map (l :: ·) := by
  funext s
  simp only [explainEach, line, step_bind, pure_apply]
  rcases plan text s with ⟨_ | _, _⟩ <;> rfl

theorem explainEachAnew_cons (text : String) (more : List String) :
    explainEachAnew (text :: more) = (do forget; line text) >>= fun
      | .error e => pure (.error e)
      | .ok l => return (← explainEachAnew more).map (l :: ·) := by
  funext s
  simp only [explainEachAnew, line, step_bind, pure_apply]
  rcases plan text (forget s).2 with ⟨_ | _, _⟩ <;> rfl

theorem agree_explainEach (texts : List String) :
    Agree (explainEach texts) (explainEachAnew texts) := by
  induction texts with
  | nil => exact agree_pure (Except.ok [])
  | cons text more ih =>
      rw [explainEach_cons, explainEachAnew_cons]
      refine (agree_line text).forget.bind fun r => ?_
      cases r with
      | error e => exact agree_pure (Except.error e)
      | ok l => exact ih.bind fun r => agree_pure (r.map (l :: ·))

theorem agree_explain (text : String) : Agree (explain text) (explainAnew text) := by
  unfold explain explainAnew
  cases Sql.split text with
  | nil => exact agree_pure (Except.error (Error.parse .empty))
  | cons text more => exact agree_explainEach (text :: more)

theorem agree_execute (text : String) : Agree (execute text) (executeAnew text) :=
  agree_mapM (fun text => (agree_executeStatement text).forget) (Sql.split text)

theorem agree_meet (d : Demand) : Agree (meet d) (meetAnew d) := by
  cases d with
  | execute text => exact (agree_execute text).bind fun outs => agree_pure (Reply.outputs outs)
  | explain text => exact (agree_explain text).bind fun r => agree_pure (Reply.lines r)

/-- Whatever is executed and explained, the answers, the requests and the context are those of a session
that finds no plan. Every plan at hand is what would be made now, and no plan is at hand for a text whose
plan cannot be made. -/
theorem reuse_unobservable (c : Config) (ps : Providers) (context : Context) (h : ps.Loaded)
    (demands : List Demand) :
    let (replies, s) := demands.mapM meet (start c ps context)
    let (repliesAnew, t) := demands.mapM meetAnew (start c ps context)
    replies = repliesAnew ∧ s.context = t.context ∧ s.PlansCurrent ∧
      ∀ text e, s.made text = .error e → s.plans.find? text = none := by
  have hs : (start c ps context).Sound := .of_no_plans h rfl
  obtain ⟨hr, hs, -, plans, ht⟩ := agree_mapM agree_meet demands _ _ hs hs ⟨_, rfl⟩
  exact ⟨hr, (congrArg Session.context ht).symm, hs.current,
    fun text e he => hs.current.find?_eq_none he⟩

theorem reuse_unobservable_pauses :
    let ps : Providers := [("google", .google (.loaded [] []) (.fixed "token" "me") false)]
    let s := start (.initial "") ps (.initial Script.empty.network "google")
    let demands := [Demand.execute "SLEEP 5; USE google; SLEEP 5", .explain "SLEEP 5"]
    ps.Loaded ∧ (demands.mapM meet s).1 = (demands.mapM meetAnew s).1 := by
  have loaded : Providers.Loaded
      [("google", .google (.loaded [] []) (.fixed "token" "me") false)] := by
    intro e he
    obtain rfl := List.mem_singleton.1 he
    exact ⟨[], [], rfl⟩
  exact ⟨loaded, (reuse_unobservable _ _ _ loaded _).1⟩

end RestSql.Session
