import RestSql.Proofs.DisplayedTexts

/-!
# Display texts keep the meaning

Read from its display text, an expression is a filter of rows if it was one, and keeps the same rows
(`Sql.Expr.text_keeps_meaning`). The text of a NOT over an AND lacks the parentheses that this takes
(`Sql.Expr.not_text_keeps_meaning`).
-/

namespace RestSql

open Sql (Expr CompareOp Literal)
open Sql.Expr (conjoin reread)

namespace Filter

variable {skip : String → Bool} {e l r : Expr} {op : CompareOp}

/-- Which rows the expression keeps as a filter of fetched rows; none if it is no filter. -/
def rowTest? (skip : String → Bool) (e : Expr) : Option (Row → Bool) :=
  (ofRows skip e).toOption.map fun f row => f.keeps row

theorem rowTest?_and (skip : String → Bool) (l r : Expr) : rowTest? skip (.and l r) =
    (rowTest? skip l).bind fun p => (rowTest? skip r).map fun q row => p row && q row := by
  unfold rowTest? ofRows
  rw [ofExpr]
  cases ofExpr .rows skip l with
  | error _ => rfl
  | ok f =>
      cases ofExpr .rows skip r with
      | error _ => rfl
      | ok g => rfl

theorem rowTest?_or (skip : String → Bool) (l r : Expr) : rowTest? skip (.or l r) =
    (rowTest? skip l).bind fun p => (rowTest? skip r).map fun q row => p row || q row := by
  unfold rowTest? ofRows
  rw [ofExpr]
  cases ofExpr .rows skip l with
  | error _ => rfl
  | ok f =>
      cases ofExpr .rows skip r with
      | error _ => rfl
      | ok g => rfl

theorem rowTest?_not (skip : String → Bool) (e : Expr) :
    rowTest? skip (.not e) = (rowTest? skip e).map fun p row => !p row := by
  unfold rowTest? ofRows
  rw [ofExpr]
  cases ofExpr .rows skip e <;> rfl

theorem rowTest?_comparison (skip : String → Bool) (l r : Expr) (op : CompareOp) :
    rowTest? skip (.comparison l op r) = (comparison? l op r).map fun (column, op, value) row =>
      skip column || keeps row (ofComparison column op value) := by
  unfold rowTest? ofRows
  rw [ofExpr]
  cases comparison? l op r with
  | none => rfl
  | some c =>
      obtain ⟨column, op, value⟩ := c
      cases h : skip column <;> simp [h, keeps, Except.toOption]

/-- How AND is associated makes no difference. -/
theorem rowTest?_conjoin (skip : String → Bool) (l r : Expr) :
    rowTest? skip (l.conjoin r) = rowTest? skip (.and l r) := by
  induction r using Sql.Expr.induction with
  | and a b iha _ =>
      rw [conjoin, rowTest?_and, iha, rowTest?_and, rowTest?_and, rowTest?_and]
      cases rowTest? skip l with
      | none => rfl
      | some p =>
          cases rowTest? skip a with
          | none => rfl
          | some q => cases rowTest? skip b <;> simp [Bool.and_assoc]
  | _ => rfl

/-- The sides of a comparison stay what they are, and a literal is read back. -/
theorem comparison?_reread (hl : l.isOperand = true) (hr : r.isOperand = true) (op : CompareOp) :
    comparison? (reread l) op (reread r) =
      (comparison? l op r).map fun (column, op, value) => (column, op, value.reread) := by
  cases l with
  | column | literal =>
      cases r with
      | column | literal | call | or => rfl
      | _ => cases hr
  | call | or => rfl
  | _ => cases hl

theorem literal_of_comparison? {column : String} {op' : CompareOp} {value : Literal}
    (h : comparison? l op r = some (column, op', value)) : l = .literal value ∨ r = .literal value := by
  unfold comparison? at h
  split at h
  · cases h
    exact .inr rfl
  · cases h
    exact .inl rfl
  · cases h

theorem rowTest?_comparison_reread (h : (Expr.comparison l op r).isShownAt false = true)
    (skip : String → Bool) :
    rowTest? skip (reread (.comparison l op r)) = rowTest? skip (.comparison l op r) := by
  simp only [Sql.Expr.isShownAt, Bool.and_eq_true] at h
  obtain ⟨⟨⟨hlop, hlshown⟩, hrop, hrshown⟩, hpattern⟩ := h
  rw [reread, rowTest?_comparison, rowTest?_comparison, comparison?_reread hlop hrop]
  cases hcompared : comparison? l op r with
  | none => rfl
  | some c =>
      obtain ⟨column, op, value⟩ := c
      rw [hcompared] at hpattern
      have hvalue : value.isShown = true := by
        rcases literal_of_comparison? hcompared with rfl | rfl
        · exact hlshown
        · exact hrshown
      refine congrArg some (funext fun row => ?_)
      dsimp only
      rw [keeps_reread hvalue hpattern]

/-- What is read from the display text keeps the rows that the expression keeps. -/
theorem rowTest?_reread (skip : String → Bool) (e : Expr) :
    e.isShownAt false = true → rowTest? skip (reread e) = rowTest? skip e := by
  induction e using Sql.Expr.induction with
  | column q name => exact fun _ => rfl
  | literal l => exact fun _ => rfl
  | call f args => exact fun _ => rfl
  | comparison l op r => exact fun h => rowTest?_comparison_reread h skip
  | and l r hl hr =>
      intro h
      rw [Sql.Expr.isShownAt, Bool.and_eq_true] at h
      rw [reread, rowTest?_conjoin, rowTest?_and, rowTest?_and, hl h.1, hr h.2]
  | or l r hl hr =>
      intro h
      rw [Sql.Expr.isShownAt, Bool.and_eq_true] at h
      rw [reread, rowTest?_or, rowTest?_or, hl h.1, hr h.2]
  | not e he =>
      intro h
      rw [Sql.Expr.isShownAt, Bool.and_eq_true] at h
      rw [reread, rowTest?_not, rowTest?_not, he h.2]
  | isNull e negated =>
      intro h
      rw [Sql.Expr.isShownAt, Bool.and_eq_true] at h
      cases e with
      | column | literal | call | or => rfl
      | _ => cases h.1

end Filter

namespace Sql.Expr

open RestSql.Filter (rowTest?)

/-- From its display text an expression that was read is read again, to the end, as an expression that is a
filter of rows if this one is and keeps the same rows, whatever columns are skipped. AND comes back
associated to the left, and numbers without a fraction as integers. -/
theorem text_keeps_meaning {cs rest : List Char} {e : Expr} (h : read cs = some (e, rest))
    (hshown : e.isShown = true) :
    read e.text.toList = some (e.reread, []) ∧ ∀ skip, rowTest? skip e.reread = rowTest? skip e :=
  ⟨read_text (yields_read cs e rest h) hshown, fun skip => Filter.rowTest?_reread skip e hshown⟩

theorem text_keeps_meaning_nested :
    ∃ e,
      read "NOT (NOT a.b = 'it''s' OR c > 2.0) AND (x LIKE 1.50 AND (y IS NOT NULL OR -3.00 <> z))".toList =
        some (e, []) ∧
      e.text = "not (not a.b = 'it''s' or c > 2) and x like 1.5 and (y is not null or -3 != z)" ∧
      e.isShown = true ∧ (rowTest? (fun _ => false) e).isSome = true ∧
      read e.text.toList = some (e.reread, []) ∧ ∀ skip, rowTest? skip e.reread = rowTest? skip e := by
  have hread : ((read
      "NOT (NOT a.b = 'it''s' OR c > 2.0) AND (x LIKE 1.50 AND (y IS NOT NULL OR -3.00 <> z))".toList).map
        fun r => (r.2, r.1.text, r.1.isShown, (rowTest? (fun _ => false) r.1).isSome)) =
      some ([], "not (not a.b = 'it''s' or c > 2) and x like 1.5 and (y is not null or -3 != z)", true,
        true) := by
    decide +kernel
  obtain ⟨⟨e, rest⟩, he, hfacts⟩ := Option.map_eq_some_iff.1 hread
  obtain ⟨rfl, htext, hshown, hfilter⟩ := by simpa only [Prod.mk.injEq] using hfacts
  exact ⟨e, he, htext, hshown, hfilter, text_keeps_meaning he hshown⟩

/-- The text of a NOT over an AND is that of an AND whose left side is the NOT. -/
theorem not_text_keeps_meaning : ¬∀ (cs rest : List Char) (e : Expr), read cs = some (e, rest) →
    ∃ e', read e.text.toList = some (e', []) ∧ ∀ skip, rowTest? skip e' = rowTest? skip e := by
  intro h
  let row : Row := [("a", .ofInt 2), ("b", .ofInt 1)]
  let keeps (e : Expr) : Option Bool := (rowTest? (fun _ => false) e).map fun p => p row
  have hrow : ((read "NOT (a = 1 AND b = 2)".toList).bind fun r =>
      (read r.1.text.toList).map fun r' => (keeps r.1, keeps r'.1)) = some (some true, some false) := by
    decide +kernel
  obtain ⟨⟨e, rest⟩, he, hrow⟩ := Option.bind_eq_some_iff.1 hrow
  obtain ⟨e', hread, hsame⟩ := h _ rest e he
  have hkeeps : keeps e' = keeps e := congrArg (Option.map fun p => p row) (hsame _)
  dsimp only at hrow
  rw [hread] at hrow
  obtain ⟨htrue, hfalse⟩ := Prod.mk.inj (Option.some.inj hrow)
  cases htrue.symm.trans (hkeeps.symm.trans hfalse)

end Sql.Expr
end RestSql
