import RestSql.Number.DecimalReader
import RestSql.Row
import RestSql.Sql.Expr

/-!
The order of cells. Two texts are compared as texts and two truth values as such; other values are
compared as numbers, a text being one if it reads as one.
-/

namespace RestSql

namespace Json

/-- The number that a value is or reads as. -/
def number? : Json → Option Binary64
  | number n => some n.toBinary
  | string s => Binary64.ofText? s
  | _ => none

/-- The order of two values, if they have one. -/
def compare? (a b : Json) : Option Ordering :=
  match a, b with
  | string s, string t => some (compareOfLessAndEq s t)
  | bool s, bool t => some (compare s.toNat t.toNat)
  | _, _ =>
    match a.number?, b.number? with
    | some x, some y => x.compare? y
    | _, _ => none

/-- A value with the order of its cell text where `compare?` has none. -/
def compareCells (a b : Json) : Ordering :=
  (compare? a b).getD (compareOfLessAndEq a.cellText b.cellText)

/-- The order in which rows are sorted: missing and null cells first. -/
def sortOrder (a b : Option Json) : Ordering :=
  match a.filter (!isNull ·), b.filter (!isNull ·) with
  | none, none => .eq
  | none, some _ => .lt
  | some _, none => .gt
  | some a, some b => compareCells a b

/-- Two values are equal: by their order, or by their cell text if they have none. -/
def sameCell (a b : Json) : Bool :=
  match compare? a b with
  | some o => o == .eq
  | none => a.cellText == b.cellText

theorem compare?_self {v : Json} {o : Ordering} (h : compare? v v = some o) : o = .eq := by
  unfold compare? at h
  split at h
  · cases h
    rw [compareOfLessAndEq, if_neg (String.lt_irrefl _), if_pos rfl]
  · cases h
    exact Std.ReflCmp.compare_self
  · split at h
    · next x y hx hy =>
      cases hx.symm.trans hy
      unfold Binary64.compare? at h
      split at h
      · cases h
      · cases h
        exact Std.ReflCmp.compare_self
    · cases h

theorem sameCell_self (v : Json) : v.sameCell v = true := by
  unfold sameCell
  split
  · next o ho => exact beq_iff_eq.2 (compare?_self ho)
  · exact beq_self_eq_true _

end Json

/-- The comparison `a op b`. LIKE is none. -/
def Sql.CompareOp.holds (op : Sql.CompareOp) (a b : Json) : Bool :=
  match op with
  | eq => a.sameCell b
  | notEq => !a.sameCell b
  | lt => a.compare? b == some .lt
  | ltEq => a.compare? b == some .lt || a.compare? b == some .eq
  | gt => a.compare? b == some .gt
  | gtEq => a.compare? b == some .gt || a.compare? b == some .eq
  | like => false
  | notLike => false

end RestSql
