import RestSql.Proofs.SentValues

/-!
# Which rows a query keeps

The WHERE clause of a query is used twice: the equations that it joins by AND are sent, and the rows that
come back are filtered, where conditions on parameters always hold (`Filter.ofRows_eq_relax`). This is
compared with the whole clause, read over the cells of a row and the values that were sent.
-/

namespace RestSql

namespace Filter

/-! ## Filters over cells -/

/-- The filter holds of cells, given by their columns. -/
def holds (cell : String → Option Json) : Filter → Bool
  | always => true
  | compare column op value =>
    match cell column with
    | none => false
    | some v => !v.isNull && op.holds v value
  | like columns pattern negated => columns.any (fun c => likeCell pattern (cell c)) != negated
  | isNull column negated => ((cell column).map Json.isNull).getD true != negated
  | and l r => holds cell l && holds cell r
  | or l r => holds cell l || holds cell r
  | not f => !holds cell f

theorem keeps_eq_holds (row : Row) (f : Filter) : f.keeps row = f.holds row.cell? := by
  induction f with
  | always | compare | like | isNull => rfl
  | and l r hl hr => rw [keeps, holds, hl, hr]
  | or l r hl hr => rw [keeps, holds, hl, hr]
  | not f ih => rw [keeps, holds, ih]

variable (skip : String → Bool)

/-- The filter in which every condition on a column with `skip` holds. -/
def relax : Filter → Filter
  | always => always
  | compare column op value => if skip column then always else compare column op value
  | like columns pattern negated => if columns.any skip then always else like columns pattern negated
  | isNull column negated => if skip column then always else isNull column negated
  | and l r => and (relax l) (relax r)
  | or l r => or (relax l) (relax r)
  | not f => not (relax f)

/-- Every condition on a column with `skip` has the property. -/
def EachOn (P : Filter → Prop) : Filter → Prop
  | always => True
  | compare column op value => skip column → P (compare column op value)
  | like columns pattern negated => columns.any skip → P (like columns pattern negated)
  | isNull column negated => skip column → P (isNull column negated)
  | and l r => EachOn P l ∧ EachOn P r
  | or l r => EachOn P l ∧ EachOn P r
  | not f => EachOn P f

/-- No condition on a column with `skip` stands below NOT. -/
def Unnegated : Filter → Prop
  | and l r => Unnegated l ∧ Unnegated r
  | or l r => Unnegated l ∧ Unnegated r
  | not f => EachOn skip (fun _ => False) f
  | _ => True

variable {skip}

theorem EachOn.imp {P Q : Filter → Prop}
    (hpq : ∀ condition : Filter, condition.columns.any skip → P condition → Q condition) {f : Filter}
    (h : f.EachOn skip P) : f.EachOn skip Q := by
  induction f with
  | always => trivial
  | compare column | isNull column =>
      intro hs
      exact hpq _ (List.any_eq_true.2 ⟨column, List.mem_cons_self, hs⟩) (h hs)
  | like => exact fun hs => hpq _ hs (h hs)
  | and l r hl hr => exact ⟨hl h.1, hr h.2⟩
  | or l r hl hr => exact ⟨hl h.1, hr h.2⟩
  | not f ih => exact ih h

variable {cell other : String → Option Json}

/-- A filter reads no cells but those of its columns. -/
theorem holds_congr {f : Filter} (h : ∀ c ∈ f.columns, other c = cell c) :
    f.holds other = f.holds cell := by
  induction f with
  | always => rfl
  | compare column op value => rw [holds, holds, h column List.mem_cons_self]
  | like columns pattern negated =>
      have hany : columns.any (likeCell pattern ∘ other) = columns.any (likeCell pattern ∘ cell) := by
        have hmap : columns.map other = columns.map cell := List.map_congr_left h
        rw [← List.any_map, ← List.any_map, hmap]
      exact congrArg (· != negated) hany
  | isNull column negated => rw [holds, holds, h column List.mem_cons_self]
  | and l r hl hr =>
      rw [holds, holds, hl fun c hc => h c (List.mem_append_left _ hc),
        hr fun c hc => h c (List.mem_append_right _ hc)]
  | or l r hl hr =>
      rw [holds, holds, hl fun c hc => h c (List.mem_append_left _ hc),
        hr fun c hc => h c (List.mem_append_right _ hc)]
  | not f ih => rw [holds, holds, ih h]

section

variable (hcell : ∀ c, skip c = false → other c = cell c)

include hcell

/-- If the conditions that are dropped hold, dropping them changes nothing. -/
theorem holds_relax_of_eachOn {f : Filter} (h : f.EachOn skip fun a => a.holds cell = true) :
    (f.relax skip).holds other = f.holds cell := by
  have hsingle : ∀ column, ¬skip column = true → ∀ c ∈ [column], other c = cell c := by
    intro column hs c hc
    obtain rfl := List.mem_singleton.1 hc
    exact hcell c (eq_false_of_ne_true hs)
  induction f with
  | always => rfl
  | compare column op value =>
      rw [relax]
      split
      · next hs => exact (h hs).symm
      · next hs => exact holds_congr (hsingle column hs)
  | like columns pattern negated =>
      rw [relax]
      split
      · next hs => exact (h hs).symm
      · next hs =>
        refine holds_congr fun c hc => hcell c (eq_false_of_ne_true fun hc' => hs ?_)
        exact List.any_eq_true.2 ⟨c, hc, hc'⟩
  | isNull column negated =>
      rw [relax]
      split
      · next hs => exact (h hs).symm
      · next hs => exact holds_congr (hsingle column hs)
  | and l r hl hr => rw [relax, holds, holds, hl h.1, hr h.2]
  | or l r hl hr => rw [relax, holds, holds, hl h.1, hr h.2]
  | not f ih => rw [relax, holds, holds, ih h]

/-- If no dropped condition is negated, dropping them loses nothing. -/
theorem holds_relax_of_holds {f : Filter} (hf : f.Unnegated skip) (h : f.holds cell = true) :
    (f.relax skip).holds other = true := by
  induction f with
  | not f ih =>
      rw [relax, holds, holds_relax_of_eachOn hcell (EachOn.imp (fun _ _ => False.elim) hf)]
      exact h
  | and l r hl hr =>
      rw [holds, Bool.and_eq_true] at h
      rw [relax, holds, hl hf.1 h.1, hr hf.2 h.2]
      rfl
  | or l r hl hr =>
      rw [holds, Bool.or_eq_true] at h
      rw [relax, holds, Bool.or_eq_true]
      exact h.imp (hl hf.1) (hr hf.2)
  | always => rfl
  | compare | like | isNull =>
      refine (holds_relax_of_eachOn hcell ?_).trans h
      exact fun _ => h

end

/-! ## Filters of expressions -/

theorem relax_ofComparison (skip : String → Bool) (column : String) (op : Sql.CompareOp)
    (l : Sql.Literal) : (ofComparison column op l).relax skip =
      if skip column then always else ofComparison column op l := by
  cases op <;> simp [ofComparison, relax]

/-- Both sides of AND and OR are relaxed for themselves. -/
theorem relax_both {ε : Type} (skip : String → Bool) (join : Filter → Filter → Filter)
    (hjoin : ∀ l r, (join l r).relax skip = join (l.relax skip) (r.relax skip))
    (x y : Except ε Filter) :
    (do return join (← x.map (relax skip)) (← y.map (relax skip))) =
      Except.map (relax skip) (do return join (← x) (← y)) := by
  rcases x with _ | l
  · rfl
  · rcases y with _ | r
    · rfl
    · exact congrArg Except.ok (hjoin l r).symm

/-- Skipping columns relaxes the filter. -/
theorem ofRows_eq_relax (skip : String → Bool) : (e : Sql.Expr) →
    ofRows skip e = (ofRows (fun _ => false) e).map (relax skip)
  | .and l r => by
      have hl := ofRows_eq_relax skip l
      have hr := ofRows_eq_relax skip r
      simp only [ofRows, ofExpr] at hl hr ⊢
      rw [hl, hr]
      exact relax_both skip .and (fun _ _ => rfl) _ _
  | .or l r => by
      have hl := ofRows_eq_relax skip l
      have hr := ofRows_eq_relax skip r
      simp only [ofRows, ofExpr] at hl hr ⊢
      rw [hl, hr]
      exact relax_both skip .or (fun _ _ => rfl) _ _
  | .not e => by
      have he := ofRows_eq_relax skip e
      simp only [ofRows, ofExpr] at he ⊢
      rw [he]
      cases ofExpr .rows (fun _ => false) e <;> rfl
  | .isNull e negated => by
      cases e with
      | column q name => rfl
      | _ => rfl
  | .comparison l op r => by
      simp only [ofRows, ofExpr]
      cases comparison? l op r with
      | none => rfl
      | some c =>
          obtain ⟨column, op, literal⟩ := c
          exact congrArg Except.ok (relax_ofComparison skip column op literal).symm
  | .column _ _ => rfl
  | .literal _ => rfl
  | .call _ _ => rfl

end Filter

/-! ## Queries -/

/-- The name is that of a parameter of the method. -/
def Call.hasParameter (c : Call) (name : String) : Bool :=
  (c.method.parameter? name).isSome

/-- The cell of a row; that of a parameter is the value that is sent for it. -/
def Target.cell? (t : Target) (row : Row) (column : String) : Option Json :=
  if t.call.hasParameter column then
    t.prepared.parameters.valueAt (t.call.placeOf column) column
  else row.cell? column

theorem Target.cell?_of_not_parameter {t : Target} {column : String}
    (h : t.call.hasParameter column = false) (row : Row) :
    row.cell? column = t.cell? row column := by
  rw [cell?, h]
  rfl

namespace Analysis

/-- The condition is an equation that is joined by AND to the rest of the clause, with a value that is not
null and no other value for the column. -/
def IsOnlyEquation (e : Sql.Expr) (condition : Filter) : Prop :=
  ∃ column v, condition = .compare column .eq v ∧ (column, v) ∈ equations e ∧ v.isNull = false ∧
    ∀ v', (column, v') ∈ equations e → v' = v

section

variable {ps : Providers} {current : String} {pageSize : Nat} {s : Sql.Select} {c : Context}
  {t : Target} {e : Sql.Expr}

/-- Such an equation holds of the value that is sent for its column. -/
theorem Accepted.holds_onlyEquation (h : Accepted ps current pageSize (.select s) c t)
    (he : s.condition = some e) {condition : Filter} (hc : IsOnlyEquation e condition)
    (hp : condition.columns.any t.call.hasParameter) (row : Row) :
    condition.holds (t.cell? row) = true := by
  obtain ⟨column, v, rfl, hmem, hnull, honly⟩ := hc
  have hs : supplied (.select s) = equations e := by
    rw [supplied, he]
    rfl
  have hparameter : t.call.hasParameter column = true := by
    rwa [Filter.columns, List.any_cons, List.any_nil, Bool.or_false] at hp
  obtain ⟨v', hlast⟩ := exists_lastFor hmem
  obtain rfl := honly v' hlast.mem
  rw [← hs] at hlast
  have hvalue := h.valueAt_last hlast
  obtain ⟨p, hpp⟩ := Option.isSome_iff_exists.1 hparameter
  have hplace := Call.placeOf_parameter hpp
  have hform : (t.call.placeOf column).form v' = v' := by
    rw [hplace]
    cases p.place <;> rfl
  rw [hform] at hvalue
  simp only [Filter.holds, Target.cell?, hparameter, if_true, hvalue, hnull]
  exact Json.sameCell_self v'

/-- The filter of an accepted query is the whole WHERE clause in which conditions on parameters count as
holding. If none of them is negated, no row is lost of which the whole clause holds; and if each of them
holds of what is sent, be it that it says what is sent, the rows that are kept are those of which the
whole clause holds. -/
theorem keeps_iff {shape : Shape}
    (h : (analyze ps current pageSize (.select s) c).1 = .ok (.select t shape)) :
    (s.condition = none → shape.filter = none) ∧
    ∀ e, s.condition = some e → ∃ f whole,
      shape.filter = some f ∧ Filter.ofRows (fun _ => false) e = .ok whole ∧
      ∀ row : Row,
        (whole.Unnegated t.call.hasParameter →
          f.keeps row = (whole.relax t.call.hasParameter).keeps row ∧
          (whole.holds (t.cell? row) = true → f.keeps row = true)) ∧
        (whole.EachOn t.call.hasParameter (fun condition =>
            condition.holds (t.cell? row) = true ∨ IsOnlyEquation e condition) →
          f.keeps row = whole.holds (t.cell? row)) := by
  have haccepted : Accepted ps current pageSize (.select s) c t := ⟨_, h, rfl⟩
  obtain ⟨schema, shape', values, hshape, hcondition, -⟩ := haccepted.select
  cases h.symm.trans hshape
  refine ⟨fun hn => ?_, fun e he => ?_⟩
  · rw [hn] at hcondition
    exact (congrArg Prod.snd (Except.ok.inj hcondition)).symm
  · rw [he] at hcondition
    obtain ⟨f, hf, hfilter, -⟩ := condition_ok hcondition
    rw [Filter.ofRows_eq_relax] at hf
    cases hw : Filter.ofRows (fun _ => false) e with
    | error part =>
        rw [hw] at hf
        cases hf
    | ok whole =>
        rw [hw] at hf
        cases hf
        refine ⟨whole.relax t.call.hasParameter, whole, hfilter, rfl, fun row => ?_⟩
        have hcell : ∀ column, t.call.hasParameter column = false →
            row.cell? column = t.cell? row column :=
          fun column hc => Target.cell?_of_not_parameter hc row
        rw [Filter.keeps_eq_holds]
        refine ⟨fun hu => ⟨rfl, Filter.holds_relax_of_holds hcell hu⟩, fun heach => ?_⟩
        refine Filter.holds_relax_of_eachOn hcell (heach.imp fun condition hp => ?_)
        rintro (hholds | honly)
        · exact hholds
        · exact haccepted.holds_onlyEquation he honly hp row

end

/-- A query of the networks of a project under one more condition. -/
def networksWhere (condition : Sql.Expr) : Sql.Select :=
  { directives := ⟨[]⟩, items := [.star], source := some (.table Sample.table none)
    condition := some (.and (Sample.equals "project" "p") condition), orderBy := [], limit := none }

/-- The query is accepted, and its meaning has the property. -/
def selects (condition : Sql.Expr) (P : Target → Shape → Bool) : Bool :=
  match (analyze Sample.providers "google" 0 (.select (networksWhere condition)) Sample.context).1 with
  | .ok (.select t shape) => P t shape
  | _ => false

theorem exists_of_selects {condition : Sql.Expr} {P : Target → Shape → Bool}
    (h : selects condition P = true) :
    ∃ t shape, (analyze Sample.providers "google" 0 (.select (networksWhere condition))
      Sample.context).1 = .ok (.select t shape) ∧ P t shape = true := by
  unfold selects at h
  split at h
  · next t shape ha => exact ⟨t, shape, ha, h⟩
  · cases h

/-- A condition on the name of a network is no condition on a parameter, so the rows that are kept are
those of which the whole clause holds. -/
theorem keeps_iff_name :
    ∃ t shape f, (analyze Sample.providers "google" 0
        (.select (networksWhere (Sample.equals "name" "n"))) Sample.context).1 =
          .ok (.select t shape) ∧
      shape.filter = some f ∧ ∀ row : Row, f.keeps row =
        (Filter.and (.compare "project" .eq (.string "p"))
          (.compare "name" .eq (.string "n"))).holds (t.cell? row) := by
  have h : selects (Sample.equals "name" "n") (fun t _ => !t.call.hasParameter "name") = true := by
    decide +kernel
  obtain ⟨t, shape, ha, hname⟩ := exists_of_selects h
  obtain ⟨f, whole, hf, hw, hrows⟩ := (keeps_iff ha).2 _ rfl
  cases hw
  refine ⟨t, shape, f, ha, hf, fun row => (hrows row).2 ⟨fun _ => .inr ?_, fun hp => ?_⟩⟩
  · refine ⟨"project", .string "p", rfl, List.mem_cons_self, rfl, fun v' hv' => ?_⟩
    simpa [equations, conjuncts, equation?, Sample.equals, Sql.Literal.toJson] using hv'
  · rw [hp] at hname
    cases hname

/-- A condition on a parameter that is not sent: all networks are kept, though there is nothing of which
the condition could hold. -/
theorem not_keeps_iff :
    ∃ t shape f whole, ∃ row : Row, (analyze Sample.providers "google" 0
        (.select (networksWhere (.comparison (.column none "maxResults") .gt
          (.literal (.integer 5))))) Sample.context).1 = .ok (.select t shape) ∧
      shape.filter = some f ∧
      Filter.ofRows (fun _ => false) (.and (Sample.equals "project" "p")
        (.comparison (.column none "maxResults") .gt (.literal (.integer 5)))) = .ok whole ∧
      t.call.hasParameter "maxResults" ∧ t.prepared.parameters.valueAt .query "maxResults" = none ∧
      f.keeps row = true ∧ whole.holds (t.cell? row) = false := by
  have h : selects (.comparison (.column none "maxResults") .gt (.literal (.integer 5)))
      (fun t shape => t.call.hasParameter "maxResults" &&
        (t.prepared.parameters.valueAt .query "maxResults").isNone &&
        shape.filter.any (fun f => f.keeps [("name", .string "n")]) &&
        !(Filter.and (.compare "project" .eq (.string "p"))
          (.compare "maxResults" .gt (.ofInt 5))).holds (t.cell? [("name", .string "n")])) = true := by
    decide +kernel
  obtain ⟨t, shape, ha, h⟩ := exists_of_selects h
  simp only [Bool.and_eq_true, Option.isNone_iff_eq_none, Option.any_eq_true,
    Bool.not_eq_true'] at h
  obtain ⟨⟨⟨hp, hnone⟩, f, hf, hkeeps⟩, hwhole⟩ := h
  exact ⟨t, shape, f, _, _, ha, hf, rfl, hp, hnone, hkeeps, hwhole⟩

end Analysis
end RestSql
