import RestSql.Proofs.Closed

/-!
# Planning stays out of the context

If the services of all providers are at hand, a plan is made without a request or a file, and all that
it reads of the context is the current provider. `Run.Steady` says this of a run, and `Run.Constant` that
it reads nothing at all. Both are kept by the ways in which runs are put together, and so resolution and
analysis are constant, and `Session.build`, which reads the current provider for them, is steady.
-/

namespace RestSql

/-! ## Constant and steady runs -/

namespace Run

variable {α β ε : Type} {current : String}

/-- The run has the same result in all contexts, and leaves them as they are. -/
def Constant (x : Run α) : Prop :=
  ∃ r, ∀ c : Context, x c = (r, c)

/-- The run has the same result in all contexts with this current provider, and leaves them as they
are. -/
def Steady (current : String) (x : Run α) : Prop :=
  ∃ r, ∀ c : Context, c.current = current → x c = (r, c)

theorem Constant.steady {x : Run α} (h : Constant x) : Steady current x := by
  obtain ⟨r, hr⟩ := h
  exact ⟨r, fun c _ => hr c⟩

theorem bind_apply (x : Run α) (f : α → Run β) (c : Context) :
    (x >>= f) c = match x c with
      | (.ok a, c) => f a c
      | (.error e, c) => (.error e, c) := by
  show (ExceptT.bind x f : Run β) c = _
  unfold ExceptT.bind ExceptT.mk
  simp only [bind, StateT.bind]
  rcases x c with ⟨_ | _, _⟩ <;> rfl

theorem map_apply (f : α → β) (x : Run α) (c : Context) :
    (f <$> x) c = ((x c).1.map f, (x c).2) := by
  rw [map_eq_pure_bind, bind_apply]
  rcases x c with ⟨_ | a, c'⟩ <;> rfl

theorem fst_bind_of_ok {x : Run α} {a : α} {c : Context} (h : (x c).1 = .ok a) (f : α → Run β) :
    ((x >>= f) c).1 = (f a (x c).2).1 := by
  rw [bind_apply]
  rcases hx : x c with ⟨r, c'⟩
  rw [hx] at h
  cases h
  rfl

theorem constant_pure (a : α) : Constant (pure a) :=
  ⟨.ok a, fun _ => rfl⟩

theorem constant_throw (e : Error) : Constant (throw e : Run α) :=
  ⟨.error e, fun _ => rfl⟩

theorem Constant.bind {x : Run α} {f : α → Run β} (hx : Constant x) (hf : ∀ a, Constant (f a)) :
    Constant (x >>= f) := by
  obtain ⟨r, hr⟩ := hx
  cases r with
  | error e => exact ⟨.error e, fun c => by rw [bind_apply, hr]⟩
  | ok a =>
      obtain ⟨r, hfr⟩ := hf a
      exact ⟨r, fun c => by rw [bind_apply, hr]; exact hfr c⟩

theorem closed_constant : Closed fun _ => Constant :=
  ⟨constant_pure, constant_throw, Constant.bind⟩

theorem Constant.bind_steady {x : Run α} {f : α → Run β} (hx : Constant x)
    (hf : ∀ a, Steady current (f a)) : Steady current (x >>= f) := by
  obtain ⟨r, hr⟩ := hx
  cases r with
  | error e => exact ⟨.error e, fun c _ => by rw [bind_apply, hr]⟩
  | ok a =>
      obtain ⟨r, hfr⟩ := hf a
      exact ⟨r, fun c hc => by rw [bind_apply, hr]; exact hfr c hc⟩

/-- A run that reads the context is steady if it only needs the current provider of it. -/
theorem steady_get {f : Context → Run β} (g : Run β) (hf : ∀ c, c.current = current → f c = g)
    (hg : Constant g) : Steady current (get >>= f) := by
  obtain ⟨r, hr⟩ := hg
  refine ⟨r, fun c hc => ?_⟩
  rw [bind_apply]
  show f c c = (r, c)
  rw [hf c hc]
  exact hr c

end Run

open Run

/-! ## Providers with their services at hand -/

/-- The services of the provider are at hand. -/
def Provider.Loaded (p : Provider) : Prop :=
  ∃ directory services, p.catalog = .loaded directory services

/-- The services of all providers are at hand. -/
def Providers.Loaded (ps : Providers) : Prop :=
  ∀ e ∈ ps, e.2.Loaded

theorem Providers.Loaded.singleton {name : String} {p : Provider} (h : p.Loaded) :
    Providers.Loaded [(name, p)] := by
  intro e he
  obtain rfl := List.mem_singleton.1 he
  exact h

theorem Providers.mem_of_named {ps : Providers} {name : String} {p : Provider}
    (h : ps.named name = .ok p) : (name, p) ∈ ps := by
  unfold named at h
  split at h
  · next q hq =>
    cases h
    exact Dict.mem_of_find? hq
  · cases h

theorem Providers.Loaded.named {ps : Providers} (h : ps.Loaded) {name : String} {p : Provider}
    (hp : ps.named name = .ok p) : p.Loaded :=
  h _ (mem_of_named hp)

namespace Provider.Loaded

variable {p : Provider}

theorem constant_directory (h : p.Loaded) : Constant p.directory := by
  obtain ⟨directory, services, hc⟩ := h
  unfold Provider.directory
  rw [hc]
  exact constant_pure _

theorem constant_load (h : p.Loaded) (e : ServiceEntry) : Constant (p.load e) := by
  obtain ⟨directory, services, hc⟩ := h
  unfold Provider.load
  rw [hc]
  dsimp only
  split
  · exact constant_pure _
  · exact constant_throw _

theorem constant_service (h : p.Loaded) (key : String) : Constant (p.service key) :=
  h.constant_directory.bind fun _ => (closed_constant.ofExcept _ _).bind fun e => h.constant_load e

theorem constant_resource (h : p.Loaded) (service resource : String) :
    Constant (p.resource service resource) := by
  refine (h.constant_service service).bind fun s => ?_
  split
  · exact constant_pure _
  · exact constant_throw _

end Provider.Loaded

/-! ## Statements -/

variable {ps : Providers}

/-- What a statement means does not depend on the context, once the current provider is given. -/
theorem Analysis.constant_analyze (h : ps.Loaded) (now : String) (pageSize : Nat)
    (s : Sql.Statement) : Constant (analyze ps now pageSize s) :=
  closed_constant.analyze (fun _ _ hp => (h.named hp).constant_resource) now pageSize s

/-- The plan of a statement depends on the current provider alone. -/
theorem Session.steady_build (h : ps.Loaded) (current : String) (pageSize : Nat) (text : String)
    (transaction : Nat) : Steady current (build ps pageSize text transaction) := by
  refine (closed_constant.ofExcept _ _).bind_steady fun statement => ?_
  refine (closed_constant.forM fun _ => ?_).bind_steady fun _ => ?_
  · exact (closed_constant.ofExcept _ _).bind fun _ => constant_pure _
  · refine steady_get _ (fun c hc => by rw [hc]) ?_
    exact (Analysis.constant_analyze h _ _ _).bind fun _ =>
      (closed_constant.ofExcept _ _).bind fun _ => constant_pure _

end RestSql
