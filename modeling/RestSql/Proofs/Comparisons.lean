import RestSql.Proofs.CellOrder

/-!
# The operators of a comparison

The filters `column op literal` with the eight operators look at one cell. Equality is decided for all
values, by the cell texts where there is no order, and the orderings hold only where there is one. So `<=`
says that `<` or `=` holds if cell and literal are comparable, and the other relations between the operators
hold for every cell that is not null (`operators_consistent`).
-/

namespace RestSql

namespace Json

/-- Values that have an order: two texts, two truth values, or two that are numbers or read as numbers. -/
inductive Comparable : Json → Json → Prop
  | texts (s t : String) : Comparable (string s) (string t)
  | flags (b c : Bool) : Comparable (bool b) (bool c)
  | numbers {v w : Json} {x y : Binary64} (hv : v.number? = some x) (hw : w.number? = some y)
    (hx : x.isNaN = false) (hy : y.isNaN = false) : Comparable v w

variable {v w : Json}

theorem compare?_ne_none (h : Comparable v w) : compare? v w ≠ none := by
  cases h with
  | texts s t => exact Option.some_ne_none _
  | flags b c => exact Option.some_ne_none _
  | numbers hv hw hx hy =>
      by_cases hs : ∃ s t, v = string s ∧ w = string t
      · obtain ⟨s, t, rfl, rfl⟩ := hs
        exact Option.some_ne_none _
      -- truth values are no numbers
      have hb : ∀ b c, v = bool b → w ≠ bool c := by
        rintro b c rfl -
        cases hv
      rw [compare?_of_ne (fun s t hv hw => hs ⟨s, t, hv, hw⟩) hb, hv, hw]
      exact (Binary64.compare?_eq_some hx hy).trans_ne (Option.some_ne_none _)

theorem comparable_of_compare? {o : Ordering} (h : compare? v w = some o) : Comparable v w := by
  by_cases hs : ∃ s t, v = string s ∧ w = string t
  · obtain ⟨s, t, rfl, rfl⟩ := hs
    exact .texts s t
  by_cases hb : ∃ b c, v = bool b ∧ w = bool c
  · obtain ⟨b, c, rfl, rfl⟩ := hb
    exact .flags b c
  rw [compare?_of_ne (fun s t hv hw => hs ⟨s, t, hv, hw⟩) fun b c hv hw => hb ⟨b, c, hv, hw⟩] at h
  obtain ⟨x, hx, h⟩ := Option.bind_eq_some_iff.1 h
  obtain ⟨y, hy, h⟩ := Option.bind_eq_some_iff.1 h
  unfold Binary64.compare? at h
  split at h
  · cases h
  · next hnan =>
    obtain ⟨hxn, hyn⟩ := Bool.or_eq_false_iff.1 (Bool.eq_false_iff.2 hnan)
    exact .numbers hx hy hxn hyn

theorem compare?_eq_none_iff : compare? v w = none ↔ ¬Comparable v w := by
  constructor
  · exact fun h hc => compare?_ne_none hc h
  · intro h
    cases ho : compare? v w with
    | none => rfl
    | some o => exact absurd (comparable_of_compare? ho) h

end Json

open Json (Comparable)

namespace Sql.CompareOp

variable {v w : Json}

/-- An operator that is read off the order, or off the cell texts: all but LIKE and NOT LIKE. -/
def isOrdering : CompareOp → Bool
  | like | notLike => false
  | _ => true

theorem holds_notEq (v w : Json) : notEq.holds v w = !eq.holds v w := rfl

theorem holds_of_comparable (h : Comparable v w) :
    ∃ o : Ordering, (eq.holds v w = true ↔ o = .eq) ∧ (lt.holds v w = true ↔ o = .lt) ∧
      (gt.holds v w = true ↔ o = .gt) ∧ (ltEq.holds v w = true ↔ o = .lt ∨ o = .eq) ∧
      (gtEq.holds v w = true ↔ o = .gt ∨ o = .eq) := by
  obtain ⟨o, ho⟩ := Option.ne_none_iff_exists'.1 (Json.compare?_ne_none h)
  refine ⟨o, ?_⟩
  simp [holds, Json.sameCell, ho]

theorem holds_of_not_comparable (h : ¬Comparable v w) :
    (eq.holds v w = true ↔ v.cellText = w.cellText) ∧ lt.holds v w = false ∧ gt.holds v w = false ∧
      ltEq.holds v w = false ∧ gtEq.holds v w = false := by
  simp [holds, Json.sameCell, Json.compare?_eq_none_iff.2 h]

/-- Two values are in at most one of the relations `<`, `=` and `>`. -/
theorem holds_exclusive (v w : Json) :
    ¬(lt.holds v w = true ∧ eq.holds v w = true) ∧ ¬(gt.holds v w = true ∧ eq.holds v w = true) ∧
      ¬(lt.holds v w = true ∧ gt.holds v w = true) := by
  by_cases h : Comparable v w
  · obtain ⟨o, heq, hlt, hgt, -⟩ := holds_of_comparable h
    rw [heq, hlt, hgt]
    cases o <;> simp
  · obtain ⟨-, hlt, hgt, -⟩ := holds_of_not_comparable h
    simp [hlt, hgt]

end Sql.CompareOp

namespace Filter

open Sql (CompareOp Literal)

variable {row : Row} {column : String} {cell : Json}

theorem ofRows_comparison {skip : String → Bool} (hskip : skip column = false)
    (qualifier : Option String) (op : CompareOp) (l : Literal) :
    ofRows skip (.comparison (.column qualifier column) op (.literal l)) =
      .ok (ofComparison column op l) := by
  simp [ofRows, ofExpr, comparison?, hskip]

theorem ofComparison_of_isOrdering {op : CompareOp} (hop : op.isOrdering = true) (column : String)
    (l : Literal) : ofComparison column op l = .compare column op l.toJson := by
  cases op <;> first | rfl | cases hop

theorem keeps_ofComparison (hcell : row.cell? column = some cell) (hnull : cell ≠ .null)
    {op : CompareOp} (hop : op.isOrdering = true) (l : Literal) :
    keeps row (ofComparison column op l) = op.holds cell l.toJson := by
  have hpresent : cell.isNull = false := by
    cases cell <;> first | rfl | exact absurd rfl hnull
  simp [ofComparison_of_isOrdering hop, keeps, hcell, hpresent]

theorem keeps_notLike (row : Row) (column : String) (l : Literal) :
    keeps row (ofComparison column .notLike l) = !keeps row (ofComparison column .like l) := by
  simp [ofComparison, keeps]

/-- A cell that is not there, or is null, is in no relation with a literal, and matches no pattern. -/
theorem keeps_ofComparison_of_missing (h : row.cell? column = none ∨ row.cell? column = some .null)
    {op : CompareOp} (hop : op ≠ .notLike) (l : Literal) :
    keeps row (ofComparison column op l) = false := by
  rcases h with h | h <;> cases op <;>
    first | exact absurd rfl hop | simp [ofComparison, keeps, likeCell, h, Json.isNull]

/-- The comparisons of a column with a literal have filters, and these fit together on every row. On a cell
that is not null, `!=` is the contrary of `=` and NOT LIKE that of LIKE, and at most one of `<`, `=` and `>`
holds. If cell and literal are comparable, `<=` holds just if `<` or `=` does, and `>=` just if `>` or `=`
does; if not, none of the four orderings holds, and `=` compares the texts. Where the cell is missing or
null, no operator holds. NOT LIKE is left open there. -/
theorem operators_consistent (qualifier : Option String) (column : String) (l : Literal) :
    ∃ filter : CompareOp → Filter,
      (∀ op, ofRows (fun _ => false) (.comparison (.column qualifier column) op (.literal l)) =
        .ok (filter op)) ∧
      ∀ row : Row, let holds := fun op => (filter op).keeps row = true
        (∀ cell, row.cell? column = some cell → cell ≠ .null →
          (holds .notEq ↔ ¬holds .eq) ∧ (holds .notLike ↔ ¬holds .like) ∧
          ¬(holds .lt ∧ holds .eq) ∧ ¬(holds .gt ∧ holds .eq) ∧ ¬(holds .lt ∧ holds .gt) ∧
          (Comparable cell l.toJson →
            (holds .ltEq ↔ holds .lt ∨ holds .eq) ∧ (holds .gtEq ↔ holds .gt ∨ holds .eq)) ∧
          (¬Comparable cell l.toJson →
            ¬holds .lt ∧ ¬holds .ltEq ∧ ¬holds .gt ∧ ¬holds .gtEq ∧
              (holds .eq ↔ cell.cellText = l.toJson.cellText))) ∧
        (row.cell? column = none ∨ row.cell? column = some .null →
          ∀ op, op ≠ .notLike → ¬holds op) := by
  refine ⟨fun op => ofComparison column op l, fun op => ofRows_comparison rfl qualifier op l,
    fun row => ⟨fun cell hcell hnull => ?_, fun hmissing op hop => ?_⟩⟩
  · have hkeeps (op : CompareOp) (hop : op.isOrdering = true) :
        keeps row (ofComparison column op l) = op.holds cell l.toJson :=
      keeps_ofComparison hcell hnull hop l
    dsimp only
    rw [keeps_notLike, hkeeps .notEq rfl, hkeeps .eq rfl, hkeeps .lt rfl, hkeeps .ltEq rfl,
      hkeeps .gt rfl, hkeeps .gtEq rfl]
    refine ⟨by simp [CompareOp.holds_notEq], by simp, ?_⟩
    obtain ⟨hlt, hgt, hboth⟩ := CompareOp.holds_exclusive cell l.toJson
    refine ⟨hlt, hgt, hboth, fun hc => ?_, fun hc => ?_⟩
    · obtain ⟨o, heq, hlt, hgt, hle, hge⟩ := CompareOp.holds_of_comparable hc
      rw [heq, hlt, hgt, hle, hge]
      exact ⟨Iff.rfl, Iff.rfl⟩
    · obtain ⟨heq, hlt, hgt, hle, hge⟩ := CompareOp.holds_of_not_comparable hc
      simp [heq, hlt, hgt, hle, hge]
  · exact Bool.eq_false_iff.1 (keeps_ofComparison_of_missing hmissing hop l)

/-- A text that reads as a number is comparable with a number. -/
theorem operators_consistent_size :
    let row : Row := [("size", .string "7")]
    Comparable (.string "7") (.ofInt 9) ∧
      ∃ le lt eq, ofRows (fun _ => false)
          (.comparison (.column none "size") .ltEq (.literal (.integer 9))) = .ok le ∧
        ofRows (fun _ => false)
          (.comparison (.column none "size") .lt (.literal (.integer 9))) = .ok lt ∧
        ofRows (fun _ => false)
          (.comparison (.column none "size") .eq (.literal (.integer 9))) = .ok eq ∧
        (le.keeps row = true ↔ lt.keeps row = true ∨ eq.keeps row = true) := by
  intro row
  have hseven : Binary64.ofText? "7" = some (.ofInt 7) := by decide +kernel
  have hcomparable : Comparable (.string "7") (.ofInt 9) :=
    .numbers hseven rfl (Binary64.isNaN_ofInt 7) (Binary64.isNaN_ofInt 9)
  obtain ⟨filter, hfilter, hrow⟩ := operators_consistent none "size" (.integer 9)
  obtain ⟨-, -, -, -, -, hle, -⟩ := (hrow row).1 (.string "7") rfl (by simp)
  exact ⟨hcomparable, filter .ltEq, filter .lt, filter .eq, hfilter _, hfilter _, hfilter _,
    (hle hcomparable).1⟩

/-- A truth value is equal to the text that it is shown as, and it is not less than or equal to it. -/
theorem not_ltEq_of_eq :
    ∃ le lt eq, ofRows (fun _ => false)
        (.comparison (.column none "enabled") .ltEq (.literal (.string "true"))) = .ok le ∧
      ofRows (fun _ => false)
        (.comparison (.column none "enabled") .lt (.literal (.string "true"))) = .ok lt ∧
      ofRows (fun _ => false)
        (.comparison (.column none "enabled") .eq (.literal (.string "true"))) = .ok eq ∧
      ¬(le.keeps [("enabled", .bool true)] = true ↔
        lt.keeps [("enabled", .bool true)] = true ∨ eq.keeps [("enabled", .bool true)] = true) := by
  refine ⟨_, _, _, ofRows_comparison rfl _ _ _, ofRows_comparison rfl _ _ _,
    ofRows_comparison rfl _ _ _, ?_⟩
  decide

end Filter
end RestSql
