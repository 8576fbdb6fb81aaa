import RestSql.Proofs.BareNames
import RestSql.Proofs.ShortestDigits

/-!
# The texts of binary numbers

A binary number is displayed with a point and digits after it, or without both (`Binary64.displayedParts`).
With a point the text is read as the number itself. Without one it is read as an integer (`Literal.reread`),
which rounds to the number and is displayed as the number is (`Binary64.displayedInt?_cases`); only the sign
of zero is lost. Integers that do not fit 64 bits are not read at all, and infinity is displayed as a name
(`Literal.isShown`, `number_raw_float`).
-/

namespace RestSql

/-! ## Digits around a point -/

namespace Text

/-- Digits of which the first one is not zero are those of the number that they denote. -/
theorem toDigits_naturalOf {ds : List Char} (h : AreDigits ds) (hzero : ds.head? ≠ some '0') :
    Nat.toDigits 10 (naturalOf ds) = ds := by
  have hone {c : Char} (hc : c.isDigit = true) :
      naturalOf [c] < 10 ∧ Nat.toDigits 10 (naturalOf [c]) = [c] := by
    have hall : ∀ n < 10, Nat.digitChar n = Char.ofNat (n + 48) := by decide
    obtain ⟨hlow, hhigh⟩ := Sql.toNat_of_isDigit hc
    have hvalue : naturalOf [c] = c.toNat - 48 := by
      rw [naturalOf, List.foldl_cons, Nat.zero_mul, Nat.zero_add]
      rfl
    rw [hvalue, Nat.toDigits_of_lt_base (by omega), hall _ (by omega), Nat.sub_add_cancel hlow,
      Char.ofNat_toNat]
    exact ⟨by omega, rfl⟩
  obtain ⟨hne, hdigits⟩ := h
  induction ds using List.reverseRec with
  | nil => exact absurd rfl hne
  | append_singleton ds c ih =>
      obtain ⟨hlt, hc⟩ := hone (hdigits c (by simp))
      by_cases hds : ds = []
      · subst hds
        exact hc
      · have hsame := ih (by rwa [List.head?_append_of_ne_nil _ hds] at hzero) hds fun c hc =>
          hdigits c (List.mem_append_left _ hc)
        have hpos : 0 < naturalOf ds := by
          refine Nat.pos_of_ne_zero fun h => ?_
          rw [h] at hsame
          rw [← hsame] at hzero
          exact hzero rfl
        rw [naturalOf_append, List.length_singleton, Nat.pow_one, Nat.mul_comm,
          ← Nat.toDigits_append_toDigits (by decide) hpos hlt, hsame, hc]

end Text

namespace Decimal

/-- The digits before the point, and those after it if there are any. -/
def parts (d : Decimal) : List Char × Option (List Char) :=
  if d.point ≤ 0 then (['0'], some (List.replicate (-d.point).toNat '0' ++ d.digits))
  else if d.digits.length ≤ d.point then
    (d.digits ++ List.replicate (d.point - d.digits.length).toNat '0', none)
  else (d.digits.take d.point.toNat, some (d.digits.drop d.point.toNat))

/-- The point and the digits after it, if there are any. -/
def pointed : Option (List Char) → List Char
  | some fraction => '.' :: fraction
  | none => []

variable {d : Decimal}

theorem areDigits_replicate_append {ds : List Char} (h : AreDigits ds) (k : Nat) :
    AreDigits (List.replicate k '0' ++ ds) ∧ AreDigits (ds ++ List.replicate k '0') := by
  obtain ⟨hne, hdigits⟩ := h
  have hzeros : ∀ c ∈ List.replicate k '0', c.isDigit = true := by
    intro c hc
    rw [(List.mem_replicate.1 hc).2]
    rfl
  exact ⟨⟨by simp [hne], List.forall_mem_append.2 ⟨hzeros, hdigits⟩⟩,
    ⟨by simp [hne], List.forall_mem_append.2 ⟨hdigits, hzeros⟩⟩⟩

theorem areDigits_parts (h : AreDigits d.digits) :
    AreDigits d.parts.1 ∧ ∀ fraction ∈ d.parts.2, AreDigits fraction := by
  unfold parts
  split
  · refine ⟨⟨by simp, by simp⟩, ?_⟩
    rintro fraction ⟨⟩
    exact (areDigits_replicate_append h _).1
  · split
    · exact ⟨(areDigits_replicate_append h _).2, nofun⟩
    · next hpoint hlength =>
      refine ⟨⟨?_, fun c hc => h.2 c (List.mem_of_mem_take hc)⟩, ?_⟩
      · rw [ne_eq, List.take_eq_nil_iff, not_or]
        exact ⟨by omega, h.1⟩
      · rintro fraction ⟨⟩
        refine ⟨?_, fun c hc => h.2 c (List.mem_of_mem_drop hc)⟩
        rw [ne_eq, List.drop_eq_nil_iff]
        omega

theorem toList_place (l : DecimalLayout) (d : Decimal) :
    (l.place d).toList = d.parts.1 ++ match d.parts.2 with
      | some fraction => '.' :: fraction
      | none => l.wholeEnd.toList := by
  unfold DecimalLayout.place parts
  dsimp only
  split
  · simp
  · split
    · simp
    · simp

/-- With a fraction the digits are those of the decimal, with the point among them or before them. -/
theorem naturalOf_parts {fraction : List Char} (h : d.parts.2 = some fraction) :
    Text.naturalOf (d.parts.1 ++ fraction) = Text.naturalOf d.digits ∧
      -(fraction.length : Int) = d.point - d.digits.length := by
  unfold parts at h ⊢
  split at h
  · next hpoint =>
    cases h
    have hzeros : Text.naturalOf ('0' :: List.replicate (-d.point).toNat '0') = 0 :=
      Text.naturalOf_zeros ((-d.point).toNat + 1)
    rw [if_pos hpoint, ← List.append_assoc, Text.naturalOf_append, List.singleton_append, hzeros,
      Nat.zero_mul, Nat.zero_add, List.length_append, List.length_replicate]
    exact ⟨rfl, by omega⟩
  · split at h
    · cases h
    · next hpoint hlength =>
      cases h
      rw [if_neg hpoint, if_neg hlength, List.take_append_drop, List.length_drop]
      exact ⟨rfl, by omega⟩

end Decimal

namespace Binary64

open Sql (Literal)

variable {x : Binary64} {n : Int}

/-! ## The displayed text -/

/-- The digits of the displayed text. -/
def displayedParts (x : Binary64) : List Char × Option (List Char) :=
  (x.shortest .up).parts

/-- The integer that is displayed for a number without a fraction. -/
def displayedInt? (x : Binary64) : Option Int :=
  match x.displayedParts.2 with
  | some _ => none
  | none =>
    let whole := Text.naturalOf x.displayedParts.1
    some (if x.negative then -(whole : Int) else whole)

theorem areDigits_displayedParts (x : Binary64) :
    AreDigits x.displayedParts.1 ∧ ∀ fraction ∈ x.displayedParts.2, AreDigits fraction :=
  Decimal.areDigits_parts (x.areDigits_shortest .up)

theorem toList_raw_float (hfinite : x.isFinite = true) :
    (Literal.raw (.float x)).toList = (if x.negative then ['-'] else []) ++
      (x.displayedParts.1 ++ Decimal.pointed x.displayedParts.2) := by
  have hplace := Decimal.toList_place Literal.floatLayout (x.shortest .up)
  have htext : Literal.raw (.float x) =
      (if x.negative then "-" else "") ++ Literal.floatLayout.place (x.shortest .up) := by
    rw [Literal.raw, DecimalLayout.write, isNaN_of_isFinite hfinite, hfinite]
    rfl
  rw [htext, String.toList_append, hplace, displayedParts]
  cases x.negative <;> cases (x.shortest .up).parts.2 <;> rfl

/-- Digits with a point are read as the number that displays them. -/
theorem ofDecimal_displayedParts (hfinite : x.isFinite = true) {fraction : List Char}
    (h : x.displayedParts.2 = some fraction) :
    ofDecimal x.negative (Text.naturalOf (x.displayedParts.1 ++ fraction)) (-(fraction.length : Int)) =
      x := by
  obtain ⟨hvalue, hplace⟩ := Decimal.naturalOf_parts h
  rw [displayedParts, hvalue, hplace, ofDecimal_shortest hfinite]

theorem parts_of_whole {d : Decimal} (h : d.parts.2 = none) :
    d.digits.length ≤ d.point ∧
      d.parts.1 = d.digits ++ List.replicate (d.point - d.digits.length).toNat '0' := by
  unfold Decimal.parts at h ⊢
  split at h
  · cases h
  · next hpoint =>
    split at h
    · next hlength =>
      rw [if_neg hpoint, if_pos hlength]
      exact ⟨hlength, rfl⟩
    · cases h

theorem displayedInt?_eq_some (h : x.displayedInt? = some n) :
    x.displayedParts.2 = none ∧
      n = if x.negative then -(Text.naturalOf x.displayedParts.1 : Int)
        else Text.naturalOf x.displayedParts.1 := by
  unfold displayedInt? at h
  split at h
  · cases h
  · next hnone => exact ⟨hnone, (Option.some.inj h).symm⟩

theorem shortest_zero (hx : x.magnitude = 0) (tie : DecimalTie) : x.shortest tie = ⟨['0'], 1⟩ :=
  if_pos hx

theorem head_shortest (hx : x.magnitude ≠ 0) (tie : DecimalTie) :
    (x.shortest tie).digits.head? ≠ some '0' := by
  have hpos : 0 < (x.foundDigits tie).1 := Nat.pos_of_ne_zero (shortestFrom_ne_zero _ _ _ _ _)
  obtain ⟨zeros, hzeros⟩ := exists_significantDigits (x.foundDigits tie).1
  obtain ⟨c, ds, hds, -, hc⟩ := Json.exists_toDigits (x.foundDigits tie).1
  obtain ⟨d, es, hes, -⟩ := (x.areDigits_shortest tie).exists_cons
  have hdigits : (x.shortest tie).digits = significantDigits (x.foundDigits tie).1 := by
    rw [shortest_of_ne_zero hx]
  rw [hds, ← hdigits, hes, List.cons_append, List.cons.injEq] at hzeros
  rw [hes, List.head?_cons, ← hzeros.1]
  exact fun h => hc hpos (Option.some.inj h)

/-- The displayed integer is zero, or it has the sign and the digits of the number and is rounded to it. -/
theorem displayedInt?_cases (hfinite : x.isFinite = true) (h : x.displayedInt? = some n) :
    (x.magnitude = 0 ∧ n = 0 ∧ x.displayedParts = (['0'], none)) ∨
      (x.magnitude ≠ 0 ∧ decide (n < 0) = x.negative ∧ Nat.toDigits 10 n.natAbs = x.displayedParts.1 ∧
        ofInt n = x) := by
  obtain ⟨hnone, hn⟩ := displayedInt?_eq_some h
  by_cases hx : x.magnitude = 0
  · have hparts : x.displayedParts = (['0'], none) := by
      rw [displayedParts, shortest_zero hx]
      rfl
    rw [hparts] at hn
    refine .inl ⟨hx, ?_, hparts⟩
    cases hneg : x.negative <;> rw [hneg] at hn <;> exact hn
  · obtain ⟨hlength, hwhole⟩ := parts_of_whole hnone
    have hround := roundsTo_shortest hfinite hx .up
    obtain ⟨k, hk⟩ := Int.eq_ofNat_of_zero_le (Int.sub_nonneg.2 hlength)
    have hvalue : Text.naturalOf x.displayedParts.1 = Text.naturalOf (x.shortest .up).digits * 10 ^ k := by
      rw [displayedParts, hwhole, Text.naturalOf_append_zeros, hk]
      rfl
    rw [hk, zpow_natCast, ← Nat.cast_ofNat (R := ℚ) (n := 10), ← Nat.cast_pow, ← Nat.cast_mul,
      ← hvalue] at hround
    have hpos : Text.naturalOf x.displayedParts.1 ≠ 0 := by
      intro hzero
      have hlow := (hround.range hfinite hx).1
      rw [hzero, Nat.cast_zero] at hlow
      exact absurd hlow (not_le.2 (zpow_pos (by norm_num) _))
    have hsign : decide (n < 0) = x.negative ∧ n.natAbs = Text.naturalOf x.displayedParts.1 := by
      rw [hn]
      cases x.negative with
      | true => exact ⟨decide_eq_true (by simpa using Nat.pos_of_ne_zero hpos), by simp⟩
      | false => exact ⟨decide_eq_false (by simp), by simp⟩
    have hhead : x.displayedParts.1.head? ≠ some '0' := by
      rw [displayedParts, hwhole, List.head?_append_of_ne_nil _ (x.areDigits_shortest .up).1]
      exact head_shortest hx .up
    refine .inr ⟨hx, hsign.1, ?_, ?_⟩
    · rw [hsign.2, Text.toDigits_naturalOf x.areDigits_displayedParts.1 hhead]
    · rw [← div_one (Text.naturalOf x.displayedParts.1 : ℚ), ← Nat.cast_one] at hround
      rw [ofInt, hsign.1, hsign.2]
      exact ofRatio_of_roundsTo hfinite hx Nat.one_pos hround

/-- The displayed integer stands where the number stands in the order. -/
theorem rank_displayedInt? (hfinite : x.isFinite = true) (h : x.displayedInt? = some n) :
    (ofInt n).rank = x.rank := by
  rcases displayedInt?_cases hfinite h with ⟨hx, rfl, -⟩ | ⟨-, -, -, hn⟩
  · rw [rank, rank, hx]
    cases x.negative <;> rfl
  · rw [hn]

/-- The displayed integer is displayed as the number is, unless the number is the negative zero. -/
theorem raw_displayedInt? (hfinite : x.isFinite = true) (h : x.displayedInt? = some n)
    (hzero : x ≠ ⟨true, 0⟩) : Literal.raw (.integer n) = Literal.raw (.float x) := by
  refine String.toList_inj.1 ?_
  have htext := toList_raw_float hfinite
  rw [(displayedInt?_eq_some h).1, Decimal.pointed, List.append_nil] at htext
  rw [htext, Literal.raw]
  rcases displayedInt?_cases hfinite h with ⟨hx, rfl, hparts⟩ | ⟨-, hsign, hdigits, -⟩
  · have hneg : x.negative = false := by
      refine Bool.eq_false_iff.2 fun hneg => hzero ?_
      cases x
      simp_all
    rw [hneg, hparts]
    rfl
  · rw [← hdigits, ← hsign]
    by_cases hn : n < 0
    · rw [Text.toList_ofInt_of_neg hn, decide_eq_true hn]
      rfl
    · rw [Text.toList_ofInt_of_nonneg hn, decide_eq_false hn]
      rfl

end Binary64

/-! ## Reading the text -/

namespace Sql

variable {negative : Bool} {whole rest : List Char} {fraction : Option (List Char)}

theorem number_parts (hwhole : AreDigits whole) (hfraction : ∀ ds ∈ fraction, AreDigits ds)
    (hrest : Follows rest) :
    number ((if negative then ['-'] else []) ++ (whole ++ (Decimal.pointed fraction ++ rest))) =
      (numberOf? negative whole fraction).map (·, rest) := by
  obtain ⟨c, ds, hds, hc⟩ := hwhole.exists_cons
  have hsign : Reader.optional (Reader.one '-')
      ((if negative then ['-'] else []) ++ (whole ++ (Decimal.pointed fraction ++ rest))) =
        (if negative then some '-' else none, whole ++ (Decimal.pointed fraction ++ rest)) := by
    cases negative with
    | true => rfl
    | false =>
        have hminus : c ≠ '-' := by
          rintro rfl
          cases hc
        rw [hds]
        simp [Reader.optional, Reader.one, Reader.satisfying, hminus]
  have hpoint : Reader.optional (Reader.after (Reader.one '.') Reader.digits)
      (Decimal.pointed fraction ++ rest) = (fraction, rest) := by
    cases fraction with
    | none => rcases hrest.cases with rfl | ⟨c, more, rfl, rfl | rfl | rfl⟩ <;> rfl
    | some ds =>
        have hread := Json.digits_append (hfraction ds rfl).1 (hfraction ds rfl).2 hrest.head_not_digit
        have hone : Reader.one '.' ('.' :: (ds ++ rest)) = some ('.', ds ++ rest) := rfl
        rw [Decimal.pointed, List.cons_append, Reader.optional, Reader.after, hone]
        dsimp only
        rw [hread]
  have hnext : ((Decimal.pointed fraction ++ rest).head?.map Char.isDigit).getD false = false := by
    cases fraction with
    | none => exact hrest.head_not_digit
    | some ds => rfl
  have hisSome : (if negative then some '-' else none).isSome = negative := by cases negative <;> rfl
  simp only [number, hsign, Option.bind_eq_bind, Json.digits_append hwhole.1 hwhole.2 hnext,
    Option.bind_some, hpoint, hrest.atWordEnd, if_true, hisSome]
  cases numberOf? negative whole fraction <;> rfl

namespace Literal

/-- The literal that is read from the display text: a number without a fraction is read as an integer. -/
def reread : Literal → Literal
  | float x =>
    match x.displayedInt? with
    | some n => integer n
    | none => float x
  | l => l

/-- The display text is that of a literal: a binary number is finite, and without a fraction it is an integer
of 64 bits. -/
def isShown : Literal → Bool
  | float x => x.isFinite && x.displayedInt?.all Word.isSigned
  | _ => true

end Literal

theorem number_raw_float {x : Binary64} (h : (Literal.float x).isShown = true) (hrest : Follows rest) :
    number ((Literal.raw (.float x)).toList ++ rest) = some ((Literal.float x).reread, rest) := by
  rw [Literal.isShown, Bool.and_eq_true] at h
  obtain ⟨hfinite, hword⟩ := h
  obtain ⟨hwhole, hfraction⟩ := x.areDigits_displayedParts
  have hread := @number_parts x.negative _ _ _ hwhole hfraction hrest
  have htext := Binary64.toList_raw_float hfinite
  have hvalue : numberOf? x.negative x.displayedParts.1 x.displayedParts.2 =
      some (Literal.float x).reread := by
    unfold Binary64.displayedInt? at hword
    rw [Literal.reread, Binary64.displayedInt?]
    cases hparts : x.displayedParts.2 with
    | some fraction =>
        dsimp only [numberOf?]
        rw [Binary64.ofDecimal_displayedParts hfinite hparts]
    | none =>
        rw [hparts] at hword
        exact if_pos hword
  rw [hvalue] at hread
  rw [htext, List.append_assoc, List.append_assoc]
  exact hread

end Sql
end RestSql
