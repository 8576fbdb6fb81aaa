import RestSql.Session

/-!
# Properties of runs that are kept by putting runs together

Analysis is put together from checks and from lookups of resources. So what holds of such lookups holds of
analysis (`Run.Closed.analyze`), if it is kept by the ways in which runs are put together.
-/

namespace RestSql

namespace Run

/-- Results and errors have the property, and runs that follow each other keep it. -/
structure Closed (P : (α : Type) → Run α → Prop) : Prop where
  returns {α : Type} (a : α) : P α (pure a)
  fails {α : Type} (e : Error) : P α (throw e)
  bind {α β : Type} {x : Run α} {f : α → Run β} (hx : P α x) (hf : ∀ a, P β (f a)) : P β (x >>= f)

namespace Closed

variable {P : (α : Type) → Run α → Prop} {α β ε : Type}

theorem ofExcept (h : Closed P) (wrap : ε → Error) (x : Except ε α) : P α (ofExcept wrap x) := by
  cases x with
  | error e => exact h.fails (wrap e)
  | ok a => exact h.returns a

/-- What follows a check only has to have the property for a value that passes it. -/
theorem ofExcept_bind (h : Closed P) {wrap : ε → Error} {x : Except ε α} {f : α → Run β}
    (hf : ∀ a, x = .ok a → P β (f a)) : P β (Run.ofExcept wrap x >>= f) := by
  cases x with
  | error e => exact h.fails (wrap e)
  | ok a => exact hf a rfl

theorem guard (h : Closed P) {p : Prop} [Decidable p] {e : Error} {x : Run α} (hx : P α x) :
    P α (do
      if p then throw e
      x) := by
  split
  · exact h.fails e
  · exact hx

theorem forM (h : Closed P) {l : List α} {f : α → Run PUnit} (hf : ∀ a, P PUnit (f a)) :
    P PUnit (l.forM f) := by
  induction l with
  | nil => exact h.returns _
  | cons a l ih =>
      show P PUnit (f a >>= fun _ => l.forM f)
      exact h.bind (hf a) fun _ => ih

/-! ## Statements -/

variable {ps : Providers}

theorem resolve (h : Closed P)
    (hps : ∀ name p, ps.named name = .ok p → ∀ service resource, P _ (p.resource service resource))
    (name : CallName) (action : String) : P _ (Call.resolve ps name action) := by
  refine h.guard (h.ofExcept_bind fun p hp => ?_)
  refine h.bind (hps _ p hp _ _) fun (s, r) => ?_
  exact h.bind (h.ofExcept _ _) fun _ => h.returns _

open Analysis in
theorem analyze (h : Closed P)
    (hps : ∀ name p, ps.named name = .ok p → ∀ service resource, P _ (p.resource service resource))
    (current : String) (pageSize : Nat) (s : Sql.Statement) :
    P _ (analyze ps current pageSize s) := by
  have hcall (name : CallName) (action : String) {f : Call → Run Analysis} (hf : ∀ c, P _ (f c)) :
      P _ (Call.resolve ps name action >>= f) :=
    h.bind (h.resolve hps name action) hf
  cases s with
  | select s =>
      simp only [Analysis.analyze, analyzeSelect]
      split
      · exact h.ofExcept _ _
      · exact hcall _ _ fun _ => h.ofExcept _ _
      · exact h.returns _
  | insert s => exact hcall _ _ fun _ => h.ofExcept _ _
  | delete s => exact hcall _ _ fun _ => h.ofExcept _ _
  | exec s => exact h.guard (hcall _ _ fun _ => h.ofExcept _ _)
  | «show» s =>
      simp only [Analysis.analyze, analyzeShow]
      split
      · exact hcall _ _ fun _ => h.ofExcept _ _
      · exact h.ofExcept _ _
  | describe d =>
      refine h.ofExcept_bind fun p hp => ?_
      exact h.bind (hps _ p hp _ _) fun _ => h.ofExcept _ _
  | auth a => exact h.bind (h.ofExcept _ _) fun _ => h.returns _
  | revoke name => exact h.bind (h.ofExcept _ _) fun _ => h.returns _
  | use name => exact h.bind (h.ofExcept _ _) fun _ => h.returns _
  | sleep e => exact h.ofExcept _ _
  | unsupported kind => exact h.fails _

/-- The plan of a statement is made from the analysis, under the provider that is current. -/
theorem build (h : Closed P)
    (hps : ∀ name p, ps.named name = .ok p → ∀ service resource, P _ (p.resource service resource))
    (hget : ∀ {f : Context → Run Plan}, (∀ c, P Plan (f c)) → P Plan (get >>= f))
    (pageSize : Nat) (text : String) (transaction : Nat) :
    P _ (Session.build ps pageSize text transaction) := by
  refine h.bind (h.ofExcept _ _) fun statement => ?_
  refine h.bind (h.forM fun _ => h.bind (h.ofExcept _ _) fun _ => h.returns _) fun _ => hget fun c => ?_
  exact h.bind (h.analyze hps _ _ _) fun _ => h.bind (h.ofExcept _ _) fun _ => h.returns _

end Closed

end Run
end RestSql
