import RestSql.Proofs.Calls
import RestSql.Proofs.PlanReuse

/-!
# What planning leaves alone

To make a plan, documents about services may have to be read: requests are sent, copies are written and
what was read is remembered. Nothing else changes. So in every state that a session can reach, each plan
at hand was made under the current provider, wherever the services of the providers come from
(`Session.Reached.plansMade`).
-/

namespace RestSql

/-! ## Runs that keep a part of the context -/

namespace Run

variable {α β γ ε : Type} {view : Context → γ}

/-- The run leaves what `view` shows of the context as it is, whether it fails or not. -/
def Keeps (view : Context → γ) (x : Run α) : Prop :=
  ∀ c : Context, view (x c).2 = view c

theorem get_bind_apply (f : Context → Run α) (c : Context) : (get >>= f) c = f c c := by
  rw [bind_apply]
  rfl

theorem bind_eq_ok {x : Run α} {f : α → Run β} {c c'' : Context} {b : β} :
    (x >>= f) c = (.ok b, c'') ↔ ∃ a c', x c = (.ok a, c') ∧ f a c' = (.ok b, c'') := by
  rw [bind_apply]
  rcases x c with ⟨e | a, c'⟩
  · exact iff_of_false nofun nofun
  · refine ⟨fun h => ⟨a, c', rfl, h⟩, ?_⟩
    rintro ⟨_, _, ⟨⟩, h⟩
    exact h

theorem keeps_pure (a : α) : Keeps view (pure a) := fun _ => rfl

theorem keeps_throw (e : Error) : Keeps view (throw e : Run α) := fun _ => rfl

theorem keeps_get : Keeps view (get : Run Context) := fun _ => rfl

theorem keeps_modify {f : Context → Context} (h : ∀ c, view (f c) = view c) :
    Keeps view (modify f : Run PUnit) := h

theorem Keeps.bind {x : Run α} {f : α → Run β} (hx : Keeps view x) (hf : ∀ a, Keeps view (f a)) :
    Keeps view (x >>= f) := by
  intro c
  have hx := hx c
  rw [bind_apply]
  rcases h : x c with ⟨e | a, c'⟩ <;> rw [h] at hx
  · exact hx
  · exact (hf a c').trans hx

theorem closed_keeps (view : Context → γ) : Closed fun _ => Keeps view :=
  ⟨keeps_pure, keeps_throw, Keeps.bind⟩

theorem keeps_fetch (h : ∀ c sent, view { c with sent } = view c) (r : Request) :
    Keeps view (fetch r) := by
  intro c
  rw [fetch_apply]
  exact h c _

end Run

open Run

/-! ## Plans -/

/-- The context but for requests, files and documents that were read. -/
def Context.settled (c : Context) : Context :=
  { c with sent := [], files := [], libraries := [] }

theorem Run.keeps_write {path text : String} : Keeps Context.settled (modify fun c =>
    match c.files.write path text c.clock with
    | .ok files => { c with files }
    | .error _ => c : Run PUnit) :=
  keeps_modify fun c => by split <;> rfl

theorem DocumentSource.keeps_read (d : DocumentSource) (url name : String) :
    Keeps Context.settled (d.read url name) := by
  refine keeps_get.bind fun c => ((closed_keeps _).ofExcept _ _).bind fun copy => ?_
  split
  · exact keeps_pure _
  · refine (closed_keeps _).guard ((keeps_fetch (fun _ _ => rfl) _).bind fun response => ?_)
    -- whatever the status of the response, what is left to do is to write the copy
    dsimp only
    repeat' split
    · exact (keeps_throw _).bind fun _ => keeps_write.bind fun _ => keeps_pure _
    all_goals exact keeps_write.bind fun _ => keeps_pure _

theorem Run.keeps_setLibrary (provider : String) (library : Library) :
    Keeps Context.settled (modify fun c => c.setLibrary provider library : Run PUnit) :=
  fun _ => rfl

namespace Provider

theorem keeps_directory (p : Provider) : Keeps Context.settled p.directory := by
  unfold directory
  split
  · exact keeps_pure _
  · refine keeps_get.bind fun c => ?_
    dsimp only
    split
    · exact keeps_pure _
    · refine (DocumentSource.keeps_read _ _ _).bind fun text => ?_
      split
      · exact keeps_throw _
      · exact (keeps_setLibrary _ _).bind fun _ => keeps_pure _

theorem keeps_load (p : Provider) (e : ServiceEntry) : Keeps Context.settled (p.load e) := by
  unfold load
  split
  · split
    · exact keeps_pure _
    · exact keeps_throw _
  · refine keeps_get.bind fun c => ?_
    dsimp only
    split
    · exact keeps_pure _
    · refine (DocumentSource.keeps_read _ _ _).bind fun text => ?_
      split
      · exact keeps_throw _
      · exact (keeps_setLibrary _ _).bind fun _ => keeps_pure _

theorem keeps_service (p : Provider) (key : String) : Keeps Context.settled (p.service key) :=
  p.keeps_directory.bind fun _ => ((closed_keeps _).ofExcept _ _).bind fun e => p.keeps_load e

theorem keeps_resource (p : Provider) (service resource : String) :
    Keeps Context.settled (p.resource service resource) := by
  refine (p.keeps_service service).bind fun s => ?_
  split
  · exact keeps_pure _
  · exact keeps_throw _

end Provider

/-- Planning sends requests, writes copies and remembers documents, and does nothing else. -/
theorem Session.keeps_build (ps : Providers) (pageSize : Nat) (text : String) (transaction : Nat) :
    Keeps Context.settled (build ps pageSize text transaction) :=
  (closed_keeps _).build (fun _ p _ => p.keeps_resource) (fun hf => keeps_get.bind hf) _ _ _

namespace Session

/-- A plan is made of a statement whose provider names are known and which has a meaning. -/
theorem build_eq_ok {ps : Providers} {pageSize : Nat} {text : String} {transaction : Nat}
    {c c' : Context} {p : Plan} :
    build ps pageSize text transaction c = (.ok p, c') ↔
      ∃ statement a i, Sql.Statement.ofText text = .ok statement ∧
        (statement.providerNames.forM fun name => do
          let _ ← Run.ofExcept .resolution (ps.named name) : Run PUnit) c = (.ok (), c) ∧
        Analysis.analyze ps c.current pageSize statement c = (.ok a, c') ∧
        Instruction.ofAnalysis a = .ok i ∧ p = .make statement.kind text i transaction := by
  have hclosed := closed_keeps (id : Context → Context)
  constructor
  · intro h
    obtain ⟨statement, c₁, hparsed, h⟩ := Run.bind_eq_ok.1 h
    obtain ⟨⟨⟩, c₂, hnames, h⟩ := Run.bind_eq_ok.1 h
    obtain ⟨_, _, hget, h⟩ := Run.bind_eq_ok.1 h
    obtain ⟨a, c₃, ha, h⟩ := Run.bind_eq_ok.1 h
    obtain ⟨i, c₄, hi, hmade⟩ := Run.bind_eq_ok.1 h
    cases hget
    cases hmade
    rw [ofExcept_apply, Prod.mk.injEq] at hparsed hi
    obtain ⟨hparsed, rfl⟩ := hparsed
    obtain ⟨hi, rfl⟩ := hi
    -- the checks of the names leave the context as it is
    have hcheck (name : String) : Keeps id (do
        let _ ← Run.ofExcept .resolution (ps.named name) : Run PUnit) :=
      (hclosed.ofExcept _ _).bind fun _ => keeps_pure _
    have hkept := hclosed.forM (l := statement.providerNames) hcheck c
    rw [hnames] at hkept
    obtain rfl : c₂ = c := hkept
    exact ⟨statement, a, i, mapError_eq_ok.1 hparsed, hnames, ha, mapError_eq_ok.1 hi, rfl⟩
  · rintro ⟨statement, a, i, hparsed, hnames, ha, hi, rfl⟩
    have hdone : Run.ofExcept Error.plan (Instruction.ofAnalysis a) c' = (.ok i, c') := by
      rw [hi]
      rfl
    refine Run.bind_eq_ok.2 ⟨statement, c, by rw [hparsed]; rfl, Run.bind_eq_ok.2 ⟨_, c, hnames, ?_⟩⟩
    refine Run.bind_eq_ok.2 ⟨c, c, rfl, Run.bind_eq_ok.2 ⟨a, c', ha, ?_⟩⟩
    exact Run.bind_eq_ok.2 ⟨i, c', hdone, rfl⟩

/-! ## The plans at hand -/

/-- The instruction was made for the text under the current provider, maybe at a time when less was known
of the services. -/
def Made (ps : Providers) (pageSize : Nat) (current text : String) (instruction : Instruction) : Prop :=
  ∃ transaction p, ∃ c : Context, c.current = current ∧
    (build ps pageSize text transaction c).1 = .ok p ∧ p.instruction = instruction

/-- Every plan at hand was made under the current provider. -/
def PlansMade (s : Session) : Prop :=
  s.plans.Each fun text p => Made s.providers s.pageSize s.context.current text p.instruction

variable {s : Session}

theorem PlansMade.of_no_plans (h : s.plans.entries = []) : s.PlansMade :=
  fun e he => by rw [h] at he; cases he

/-- A lookup changes the context as planning changes it, and the plan that is found or made was made under
the current provider, like all plans at hand after it. -/
theorem PlansMade.plan (h : s.PlansMade) (text : String) :
    ∃ r context plans, Session.plan text s =
        (r, { s with transactions := s.transactions + 1, context, plans }) ∧
      context.settled = s.context.settled ∧
      PlansMade { s with transactions := s.transactions + 1, context, plans } ∧
      match r with
      | .error e => (build s.providers s.pageSize text (s.transactions + 1) s.context).1 = .error e
      | .ok p => Made s.providers s.pageSize s.context.current text p.instruction := by
  have hget := PlanCache.Each.get h text
  have hfound := s.plans.fst_get text
  rcases hg : s.plans.get text with ⟨_ | p, plans⟩ <;> rw [hg] at hget hfound
  -- no plan is at hand, and a new one is kept if there is one
  · rcases hb : build s.providers s.pageSize text (s.transactions + 1) s.context with ⟨r, context⟩
    have hsettled := keeps_build s.providers s.pageSize text (s.transactions + 1) s.context
    rw [hb] at hsettled
    have hcurrent : context.current = s.context.current := congrArg (·.current) hsettled
    refine ⟨r, context, _, plan_of_missing hg hb, hsettled, ?_⟩
    unfold PlansMade
    rw [hcurrent]
    cases r with
    | error e => exact ⟨hget, rfl⟩
    | ok p =>
        have hmade : Made s.providers s.pageSize s.context.current text p.instruction :=
          ⟨_, p, s.context, rfl, by rw [hb], rfl⟩
        exact ⟨hget.insert hmade, hmade⟩
  -- the plan at hand is used again
  · have hp := PlanCache.Each.find? h hfound.symm
    exact ⟨_, s.context, _, plan_of_found hg, rfl, PlanCache.Each.replace hget hp, hp⟩

/-- A statement leaves the context that its planning leaves, or that the execution of what was planned
leaves after it. -/
theorem PlansMade.executeStatement (h : s.PlansMade) (text : String) :
    ∃ (planned context : Context) (out : Output) (plans : PlanCache),
      Session.executeStatement text s =
        (out, { s with transactions := s.transactions + 1, context, plans }) ∧
      planned.settled = s.context.settled ∧
      PlansMade { s with transactions := s.transactions + 1, context, plans } ∧
      (context = planned ∧ (∃ e,
          (build s.providers s.pageSize text (s.transactions + 1) s.context).1 = .error e) ∨
        ∃ instruction r, Made s.providers s.pageSize s.context.current text instruction ∧
          instruction.execute s.settings planned = (r, context) ∧
          out.error = (outputOf r).error) := by
  obtain ⟨r, planned, plans, hplan, hsettled, hplans, hmade⟩ := h.plan text
  cases r with
  | error e =>
      exact ⟨planned, planned, _, plans, executeStatement_of_error hplan, hsettled, hplans,
        .inl ⟨rfl, e, hmade⟩⟩
  | ok p =>
      rcases hx : p.instruction.execute s.settings planned with ⟨r, context⟩
      refine ⟨planned, context, _, _, executeStatement_of_ok hplan (perform_of_execute hx), hsettled,
        ?_, .inr ⟨p.instruction, r, hmade, hx, rfl⟩⟩
      -- the plans survive only if the provider is still the current one
      split
      · rename_i hc
        have hcurrent : planned.current = s.context.current := congrArg (·.current) hsettled
        unfold PlansMade at hplans ⊢
        rw [hc]
        refine PlanCache.Each.replace hplans ?_
        rw [hcurrent]
        exact hmade
      · exact .of_no_plans rfl

/-! ## States that are reached -/

/-- The session may be in this state some time after its start. -/
inductive Reached (start : Session) : Session → Prop
  | start : Reached start start
  | executed {s : Session} (h : Reached start s) (text : String) :
    Reached start (executeStatement text s).2
  | planned {s : Session} (h : Reached start s) (text : String) : Reached start (plan text s).2
  | looked {s : Session} (h : Reached start s) (text : String) : Reached start (cachedPlan text s).2

theorem Reached.plansMade {start : Session} (h : Reached start s) (hs : start.PlansMade) :
    s.PlansMade := by
  induction h with
  | start => exact hs
  | executed _ text ih =>
      obtain ⟨_, _, _, _, he, -, hplans, -⟩ := ih.executeStatement text
      rw [he]
      exact hplans
  | planned _ text ih =>
      obtain ⟨_, _, _, hp, -, hplans, -⟩ := ih.plan text
      rw [hp]
      exact hplans
  | looked _ text ih => exact PlanCache.Each.get ih text

theorem Reached.unchanged {start : Session} (h : Reached start s) (hs : start.PlansMade) :
    s.providers = start.providers ∧ s.settings = start.settings := by
  induction h with
  | start => exact ⟨rfl, rfl⟩
  | executed h text ih =>
      obtain ⟨_, _, _, _, he, -⟩ := (h.plansMade hs).executeStatement text
      rw [he]
      exact ih
  | planned h text ih =>
      obtain ⟨_, _, _, hp, -⟩ := (h.plansMade hs).plan text
      rw [hp]
      exact ih
  | looked h text ih => exact ih

end Session
end RestSql
