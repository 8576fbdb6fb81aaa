import RestSql.Proofs.Comparisons
import RestSql.Proofs.IntegerComparisons
import RestSql.Proofs.NumberTexts

/-!
# What a displayed number is compared with

Where a number is read back as an integer, the filter of a comparison is another one, and it keeps the same
rows (`Filter.keeps_reread`). The two numbers have the same rank, so they are in the same order with every
value that has an order with one of them. A value without one is compared by its text, and its text is that
of neither number: a text that is written for a number would be read as one
(`Json.cellText_ne_of_compare?_eq_none`).
-/

namespace RestSql

/-! ## The texts of numbers in cells -/

namespace Binary64

variable {x : Binary64} {negative : Bool}

theorem isNaN_ofDecimal (negative : Bool) (digits : Nat) (exp : Int) :
    (ofDecimal negative digits exp).isNaN = false := by
  unfold ofDecimal
  split
  · rfl
  · dsimp only
    split
    · rfl
    · split
      · rfl
      · split <;> exact isNaN_ofRatio _ _ _

/-- The text is an exponent, or there is none. -/
def IsExponent (cs : List Char) : Prop :=
  cs = [] ∨ ∃ sign ds, (sign = '-' ∨ sign = '+') ∧ AreDigits ds ∧ cs = 'e' :: sign :: ds

theorem exists_exponentOf? {cs : List Char} (h : IsExponent cs) : ∃ e, exponentOf? cs = some e := by
  rcases h with rfl | ⟨sign, ds, hsign, hds, rfl⟩
  · exact ⟨0, rfl⟩
  · have hall : (ds.isEmpty || !ds.all Char.isDigit) = false := by
      simp [List.all_eq_true.2 hds.2, hds.1]
    rcases hsign with rfl | rfl
    · simp [exponentOf?, hall]
    · simp [exponentOf?, hall]

theorem IsExponent.takeWhile {cs : List Char} (h : IsExponent cs) :
    cs.takeWhile Char.isDigit = [] ∧ cs.dropWhile Char.isDigit = cs := by
  rcases h with rfl | ⟨sign, ds, -, -, rfl⟩ <;> exact ⟨rfl, rfl⟩

/-- Digits, maybe with a point among them and an exponent after them, are read as a number. -/
theorem exists_ofUnsigned? {whole tail : List Char} {fraction : Option (List Char)}
    (hwhole : AreDigits whole) (hfraction : ∀ ds ∈ fraction, AreDigits ds) (htail : IsExponent tail) :
    ∃ y, ofUnsigned? negative (whole ++ (Decimal.pointed fraction ++ tail)) = some y ∧ y.isNaN = false := by
  obtain ⟨e, he⟩ := exists_exponentOf? htail
  obtain ⟨htake, hdrop⟩ := htail.takeWhile
  have hne : whole.isEmpty = false := List.isEmpty_eq_false_iff.2 hwhole.1
  cases fraction with
  | none =>
      refine ⟨ofDecimal negative (Text.naturalOf (whole ++ [])) (e - 0), ?_, isNaN_ofDecimal _ _ _⟩
      have hpoint : ∀ r, tail ≠ '.' :: r := by
        rintro r rfl
        rcases htail with h | ⟨sign, ds, -, -, h⟩ <;> cases h
      have hread : exponentOf? (([] : List Char) ++ tail) = some e := he
      rw [ofUnsigned?, Decimal.pointed, List.nil_append, List.takeWhile_append_of_pos hwhole.2,
        List.dropWhile_append_of_pos hwhole.2, htake, hdrop, List.append_nil]
      dsimp only
      split
      · next r => exact absurd rfl (hpoint _)
      · simp [hne, he]
  | some ds =>
      refine ⟨ofDecimal negative (Text.naturalOf (whole ++ ds)) (e - ds.length), ?_, isNaN_ofDecimal _ _ _⟩
      have hds := (hfraction ds rfl).2
      have hpoint : ('.' :: (ds ++ tail)).takeWhile Char.isDigit = [] ∧
          ('.' :: (ds ++ tail)).dropWhile Char.isDigit = '.' :: (ds ++ tail) := ⟨rfl, rfl⟩
      have hmore : (ds ++ tail).takeWhile Char.isDigit = ds ∧ (ds ++ tail).dropWhile Char.isDigit = tail := by
        rw [List.takeWhile_append_of_pos hds, List.dropWhile_append_of_pos hds, htake, hdrop, List.append_nil]
        exact ⟨rfl, rfl⟩
      rw [ofUnsigned?, Decimal.pointed, List.cons_append, List.takeWhile_append_of_pos hwhole.2,
        List.dropWhile_append_of_pos hwhole.2, hpoint.1, hpoint.2, List.append_nil]
      simp only [hmore, hne, he, Bool.false_and, Bool.false_eq_true, if_false, Option.map_some]

end Binary64

section

variable {d : Decimal}

/-- The text consists of digits, a point with digits after it and an exponent, of which the latter two may be
missing. -/
def IsUnsigned (cs : List Char) : Prop :=
  ∃ whole fraction tail, AreDigits whole ∧ (∀ ds ∈ fraction, AreDigits ds) ∧ Binary64.IsExponent tail ∧
    cs = whole ++ (Decimal.pointed fraction ++ tail)

theorem isUnsigned_place (h : AreDigits d.digits) : IsUnsigned (JsonNumber.layout.place d).toList := by
  obtain ⟨hwhole, hfraction⟩ := Decimal.areDigits_parts h
  rw [Decimal.toList_place]
  cases hparts : d.parts.2 with
  | some fraction =>
      rw [hparts] at hfraction
      exact ⟨d.parts.1, some fraction, [], hwhole, hfraction, .inl rfl, by simp [Decimal.pointed]⟩
  | none =>
      refine ⟨d.parts.1, some ['0'], [], hwhole, ?_, .inl rfl, rfl⟩
      rintro ds ⟨⟩
      exact ⟨by simp, by simp⟩

theorem isUnsigned_scientific (h : AreDigits d.digits) : IsUnsigned (DecimalLayout.scientific d).toList := by
  obtain ⟨c, ds, hds, hc⟩ := h.exists_cons
  have hdigits := (List.forall_mem_cons.1 (hds ▸ h.2)).2
  have hwhole : AreDigits [c] := ⟨by simp, by simpa using hc⟩
  have htail : Binary64.IsExponent
      ((if d.point - 1 < 0 then "e-" else "e+") ++ Text.ofNat (d.point - 1).natAbs).toList := by
    have hnumber : AreDigits (Nat.toDigits 10 (d.point - 1).natAbs) :=
      ⟨Nat.toDigits_ne_nil, fun c => Text.isDigit_of_mem_toDigits⟩
    rw [String.toList_append, Text.ofNat, String.toList_ofList]
    split
    · exact .inr ⟨'-', _, .inl rfl, hnumber, rfl⟩
    · exact .inr ⟨'+', _, .inr rfl, hnumber, rfl⟩
  unfold DecimalLayout.scientific
  rw [hds]
  dsimp only [List.take_succ_cons, List.take_zero, List.drop_succ_cons, List.drop_zero]
  rw [String.append_assoc, String.append_assoc, String.toList_append, String.toList_append]
  cases ds with
  | nil => exact ⟨[c], none, _, hwhole, by simp, htail, by simp [Decimal.pointed]⟩
  | cons e es =>
      refine ⟨[c], some (e :: es), _, hwhole, ?_, htail, by simp [Decimal.pointed]⟩
      rintro more ⟨⟩
      exact ⟨by simp, hdigits⟩

end

namespace Binary64

variable {x : Binary64}

/-- The text that a finite number has in a cell is read as a number. -/
theorem exists_ofText?_write (hfinite : x.isFinite = true) :
    ∃ y, ofText? (JsonNumber.layout.write x) = some y ∧ y.isNaN = false := by
  obtain ⟨cs, hcs, htext⟩ : ∃ cs, IsUnsigned cs ∧
      (JsonNumber.layout.write x).toList = (if x.negative then ['-'] else []) ++ cs := by
    have hdigits := x.areDigits_shortest JsonNumber.layout.tie
    have hmagnitude : ∀ placed : Bool, IsUnsigned (if placed then
        JsonNumber.layout.place (x.shortest JsonNumber.layout.tie)
      else DecimalLayout.scientific (x.shortest JsonNumber.layout.tie)).toList := by
      rintro (_ | _)
      · exact isUnsigned_scientific hdigits
      · exact isUnsigned_place hdigits
    have hsign (s : String) : ((if x.negative then "-" else "") ++ s).toList =
        (if x.negative then ['-'] else []) ++ s.toList := by
      rw [String.toList_append]
      cases x.negative <;> rfl
    unfold DecimalLayout.write
    simp only [isNaN_of_isFinite hfinite, hfinite, Bool.false_eq_true, if_false, Bool.not_true, hsign]
    exact ⟨_, hmagnitude _, rfl⟩
  obtain ⟨whole, fraction, tail, hwhole, hfraction, htail, rfl⟩ := hcs
  obtain ⟨y, hy, hnan⟩ := @exists_ofUnsigned? x.negative _ _ _ hwhole hfraction htail
  obtain ⟨c, ds, rfl, hc⟩ := hwhole.exists_cons
  exact ⟨y, (ofText?_of_digit hc htext).trans hy, hnan⟩

end Binary64

/-! ## Numbers with the same value -/

/-- The number is finite, and its text in a cell is read as a number. -/
structure JsonNumber.IsReadable (m : JsonNumber) : Prop where
  finite : m.isFinite = true
  text : ∃ y, Binary64.ofText? m.write = some y ∧ y.isNaN = false

namespace Json

variable {v : Json} {m k : JsonNumber}

theorem compare?_number (v : Json) (m : JsonNumber) :
    compare? v (number m) = v.number?.bind fun x => x.compare? m.toBinary :=
  compare?_of_ne (fun _ _ _ => nofun) (fun _ _ _ => nofun)

/-- Numbers of the same rank are in the same order with every value. -/
theorem compare?_congr_rank (hm : m.isFinite = true) (hk : k.isFinite = true)
    (hrank : m.toBinary.rank = k.toBinary.rank) (v : Json) :
    compare? v (number m) = compare? v (number k) := by
  rw [compare?_number, compare?_number]
  refine congrArg (Option.bind v.number?) (funext fun x => ?_)
  rw [Binary64.compare?, Binary64.compare?, JsonNumber.isNaN_toBinary hm, JsonNumber.isNaN_toBinary hk, hrank]

/-- A value that has no order with a number is not shown as the number. -/
theorem cellText_ne_of_compare?_eq_none (hm : m.IsReadable) (h : compare? v (number m) = none) :
    v.cellText ≠ m.write := by
  rw [compare?_number] at h
  have hnone {y : Binary64} (hy : v.number? = some y) : y.isNaN = true := by
    rw [hy, Option.bind_some] at h
    refine Bool.not_eq_false _ ▸ fun hnan => ?_
    rw [Binary64.compare?_eq_some hnan (JsonNumber.isNaN_toBinary hm.finite)] at h
    cases h
  obtain ⟨c, cs, hc, hstart⟩ := JsonNumber.startsNumber_write hm.finite
  have hletter {d : Char} {ds : List Char} (hd : v.cellText.toList = d :: ds) (hlt : 0x39 < d.toNat) :
      v.cellText ≠ m.write := by
    intro heq
    rw [heq, hc] at hd
    cases hd
    rcases hstart with rfl | hdigit
    · revert hlt
      decide
    · exact absurd (Sql.toNat_of_isDigit hdigit).2 (Nat.not_le.2 hlt)
  have hother (hnull : v ≠ null) (hnumber : CellKind.of (some v) ≠ .number)
      (htext : CellKind.of (some v) ≠ .text) : v.cellText ≠ m.write := by
    obtain ⟨-, d, ds, hd, hlt⟩ := exists_cellText_of_other hnull hnumber htext
    exact hletter hd hlt
  cases v with
  | string s =>
      rintro rfl
      obtain ⟨y, hy, hnan⟩ := hm.text
      cases hnan.symm.trans (hnone hy)
  | number k =>
      have hnan := hnone rfl
      cases k with
      | integer k => cases (Binary64.isNaN_ofInt k).symm.trans hnan
      | float y =>
          refine @hletter 'n' "ull".toList ?_ (by decide)
          show (JsonNumber.layout.write y).toList = _
          have hnan : y.isNaN = true := hnan
          rw [DecimalLayout.write, if_pos hnan]
          rfl
  | null => exact @hletter 'n' "ull".toList rfl (by decide)
  | bool | array | object => exact hother (by simp) (by simp [CellKind.of]) (by simp [CellKind.of])

theorem sameCell_congr_rank (hm : m.IsReadable) (hk : k.IsReadable)
    (hrank : m.toBinary.rank = k.toBinary.rank) (v : Json) :
    v.sameCell (number m) = v.sameCell (number k) := by
  have hcompare := compare?_congr_rank hm.finite hk.finite hrank v
  rw [sameCell, sameCell]
  cases h : compare? v (number m) with
  | some o => rw [← hcompare, h]
  | none =>
      have hm := cellText_ne_of_compare?_eq_none hm h
      have hk := cellText_ne_of_compare?_eq_none hk (hcompare ▸ h)
      rw [← hcompare, h]
      exact (beq_eq_false_iff_ne.2 hm).trans (beq_eq_false_iff_ne.2 hk).symm

end Json

/-- No operator tells numbers of the same rank apart. -/
theorem Sql.CompareOp.holds_congr_rank {m k : JsonNumber} (hm : m.IsReadable) (hk : k.IsReadable)
    (hrank : m.toBinary.rank = k.toBinary.rank) (op : CompareOp) (v : Json) :
    op.holds v (.number m) = op.holds v (.number k) := by
  have hcompare := Json.compare?_congr_rank hm.finite hk.finite hrank v
  have hsame := Json.sameCell_congr_rank hm hk hrank v
  cases op <;> simp [holds, hcompare, hsame]

/-! ## The literal that is read back -/

namespace Filter

open Sql (CompareOp Literal)

/-- The pattern of a LIKE is not the negative zero, which is displayed with its sign and read without. -/
def keepsPattern (op : CompareOp) (l : Literal) : Bool :=
  op.isOrdering || l != .float ⟨true, 0⟩

theorem natAbs_of_isSigned {n : Int} (h : Word.isSigned n = true) : n.natAbs < 2 ^ 64 := by
  simp only [Word.isSigned, Bool.and_eq_true, decide_eq_true_eq] at h
  omega

theorem holds_displayedInt? {x : Binary64} {n : Int} (hfinite : x.isFinite = true)
    (hn : x.displayedInt? = some n) (hword : Word.isSigned n = true) (op : CompareOp) (v : Json) :
    op.holds v (.number (.integer n)) = op.holds v (.number (.float x)) := by
  have hinteger : (JsonNumber.integer n).IsReadable :=
    ⟨rfl, _, Binary64.ofText?_ofInt (natAbs_of_isSigned hword), Binary64.isNaN_ofInt n⟩
  have hfloat : (JsonNumber.float x).IsReadable := ⟨hfinite, Binary64.exists_ofText?_write hfinite⟩
  exact CompareOp.holds_congr_rank hinteger hfloat (Binary64.rank_displayedInt? hfinite hn) op v

theorem keeps_reread {l : Literal} {op : CompareOp} (hshown : l.isShown = true)
    (hpattern : keepsPattern op l = true) (row : Row) (column : String) :
    keeps row (ofComparison column op l.reread) = keeps row (ofComparison column op l) := by
  cases l with
  | string | integer | bool | null => rfl
  | float x =>
      rw [Literal.isShown, Bool.and_eq_true] at hshown
      obtain ⟨hfinite, hword⟩ := hshown
      rw [Literal.reread]
      cases hn : x.displayedInt? with
      | none => rfl
      | some n =>
          rw [hn] at hword
          dsimp only
          cases hop : op.isOrdering with
          | true =>
              have hjson : (Literal.float x).toJson = .number (.float x) := if_pos hfinite
              rw [ofComparison_of_isOrdering hop, ofComparison_of_isOrdering hop, keeps, keeps, hjson]
              cases row.cell? column with
              | none => rfl
              | some v => exact congrArg (!v.isNull && ·) (holds_displayedInt? hfinite hn hword op v)
          | false =>
              have hzero : x ≠ ⟨true, 0⟩ := by
                rintro rfl
                rw [keepsPattern, hop, Bool.false_or, bne_self_eq_false] at hpattern
                cases hpattern
              have hraw := Binary64.raw_displayedInt? hfinite hn hzero
              cases op with
              | like | notLike => rw [ofComparison, ofComparison, hraw]
              | _ => cases hop

end Filter
end RestSql
