import Mathlib.Algebra.Order.Floor.Semifield
import RestSql.Proofs.IntervalRounding

/-!
# The shortest digits are read back

The search for the shortest digits of a number looks on ever finer grids for a point in the interval of the
magnitudes that are rounded to the number. With seventeen digits there is one, as the interval is wider than
the distance of two points on that grid (`exists_onGrid?`). So the search ends with a point of the interval
(`roundsTo_foundDigits`), and the digits are read as the number (`ofDecimal_shortest`).
-/

namespace RestSql

namespace Text

theorem naturalOf_append (ds es : List Char) :
    naturalOf (ds ++ es) = naturalOf ds * 10 ^ es.length + naturalOf es := by
  induction es using List.reverseRec with
  | nil => simp [naturalOf]
  | append_singleton es c ih =>
      have hlast (ds : List Char) : naturalOf (ds ++ [c]) = naturalOf ds * 10 + (c.toNat - '0'.toNat) := by
        simp [naturalOf]
      rw [← List.append_assoc, hlast, hlast, ih, List.length_append, List.length_singleton, Nat.pow_succ,
        Nat.add_mul, Nat.mul_assoc, Nat.add_assoc]

theorem naturalOf_zeros (k : Nat) : naturalOf (List.replicate k '0') = 0 := by
  induction k with
  | zero => rfl
  | succ k ih =>
      rw [List.replicate_succ', naturalOf_append, ih]
      rfl

theorem naturalOf_append_zeros (ds : List Char) (zeros : Nat) :
    naturalOf (ds ++ List.replicate zeros '0') = naturalOf ds * 10 ^ zeros := by
  rw [naturalOf_append, naturalOf_zeros, List.length_replicate, Nat.add_zero]

end Text

namespace Binary64

variable {x : Binary64} {num den : Nat} {e : Int} {v : ℚ}

/-! ## The digits of seventeen places -/

theorem interval_den_pos (x : Binary64) : 0 < x.interval.den :=
  unscale_pos (by decide) _

/-- The scale of the fields of the interval, over their denominator. -/
theorem scale_div (e : Int) :
    ((if 0 ≤ e then Nat.pow 2 e.toNat else 1 : Nat) : ℚ) / (unscale 0 4 (-e)).2 = 2 ^ e / 4 := by
  rcases Int.lt_or_le e 0 with he | he
  · obtain ⟨k, hk⟩ := Int.eq_ofNat_of_zero_le (show 0 ≤ -e by omega)
    rw [if_neg (by omega), unscale, if_pos (by omega), hk, show e = -(k : Int) by omega]
    simp only [Int.toNat_natCast, Nat.pow_eq, Nat.cast_mul, Nat.cast_pow, zpow_neg, zpow_natCast]
    field_simp
    norm_num [mul_comm]
  · obtain ⟨k, rfl⟩ := Int.eq_ofNat_of_zero_le he
    have hden : (unscale 0 4 (-(k : Int))).2 = 4 := by
      unfold unscale
      split
      · obtain rfl : k = 0 := by omega
        rfl
      · rfl
    rw [if_pos he, hden]
    simp

/-- The fields of the interval are its bounds and its middle, over one denominator. -/
theorem interval_bounds (hx : x.magnitude ≠ 0) :
    (x.interval.low : ℚ) / x.interval.den = x.lowerBound ∧
      (x.interval.mid : ℚ) / x.interval.den = x.size ∧
      (x.interval.high : ℚ) / x.interval.den = x.upperBound := by
  have hpos := significand_pos hx
  have hscale := scale_div x.exponent
  unfold interval lowerBound upperBound size gapBelow
  dsimp only
  refine ⟨?_, ?_, ?_⟩
  · rw [Nat.cast_mul, mul_div_assoc, hscale]
    split
    · rw [Nat.cast_sub (by omega)]
      push_cast
      ring
    · rw [Nat.cast_sub (by omega)]
      push_cast
      ring
  · rw [Nat.cast_mul, mul_div_assoc, hscale]
    push_cast
    ring
  · rw [Nat.cast_mul, mul_div_assoc, hscale]
    push_cast
    ring

theorem contains_iff (hx : x.magnitude ≠ 0) (hden : 0 < den) :
    x.interval.contains num den = true ↔ RoundsTo ((num : ℚ) / den) x := by
  obtain ⟨hlow, -, hhigh⟩ := interval_bounds hx
  have hd : (0 : ℚ) < den := by exact_mod_cast hden
  have hi : (0 : ℚ) < x.interval.den := by exact_mod_cast interval_den_pos x
  have hle (a b c d : Nat) (hb : (0 : ℚ) < b) (hd : (0 : ℚ) < d) : a * d ≤ c * b ↔ (a : ℚ) / b ≤ c / d := by
    rw [div_le_div_iff₀ hb hd]
    exact_mod_cast Iff.rfl
  have hlt (a b c d : Nat) (hb : (0 : ℚ) < b) (hd : (0 : ℚ) < d) : a * d < c * b ↔ (a : ℚ) / b < c / d := by
    rw [div_lt_div_iff₀ hb hd]
    exact_mod_cast Iff.rfl
  have hclosed : x.interval.closed = (x.significand % 2 == 0) := rfl
  rw [Interval.contains, hclosed]
  by_cases heven : x.significand % 2 = 0
  · rw [if_pos (by simpa using heven), Bool.and_eq_true, decide_eq_true_eq, decide_eq_true_eq,
      hle _ _ _ _ hi hd, hle _ _ _ _ hd hi, hlow, hhigh]
    exact ⟨fun ⟨hl, hu⟩ => ⟨hl, hu, .inl heven⟩, fun h => ⟨h.lower, h.upper⟩⟩
  · rw [if_neg (by simpa using heven), Bool.and_eq_true, decide_eq_true_eq, decide_eq_true_eq,
      hlt _ _ _ _ hi hd, hlt _ _ _ _ hd hi, hlow, hhigh]
    exact ⟨fun ⟨hl, hu⟩ => ⟨hl.le, hu.le, .inr ⟨hl, hu⟩⟩, fun h => h.inside.resolve_left heven⟩

/-- A point of the grid with the given distance that is found is in the interval. -/
theorem roundsTo_of_onGrid? (hx : x.magnitude ≠ 0) (hden : 0 < den) {tie : DecimalTie} {q : Nat}
    (h : x.interval.onGrid? tie num den = some q) : RoundsTo (q * ((num : ℚ) / den)) x := by
  have hcontained : x.interval.contains (q * num) den = true := by
    unfold Interval.onGrid? at h
    dsimp only at h
    split at h
    · next hlow hhigh =>
      cases h
      split
      · exact (Bool.and_eq_true_iff.1 hlow).2
      · exact hhigh
    · next hlow _ =>
      cases h
      exact (Bool.and_eq_true_iff.1 hlow).2
    · next _ hhigh =>
      cases h
      exact hhigh
    · cases h
  rw [contains_iff hx hden, Nat.cast_mul, mul_div_assoc] at hcontained
  exact hcontained

/-- Of sixteen digits the interval has more than the last one to spare. -/
theorem size_lt_width (x : Binary64) : x.size / 10 ^ 16 < x.upperBound - x.lowerBound := by
  have hpow : (0 : ℚ) < 2 ^ x.exponent := zpow_pos (by norm_num) _
  have hlt : (x.significand : ℚ) < 2 * leadingBit := by exact_mod_cast significand_lt x
  have hbit : (leadingBit : ℚ) = 2 ^ 52 := by norm_num [leadingBit]
  have hwidth : x.upperBound - x.lowerBound = (1 / 2 + x.gapBelow) * 2 ^ x.exponent := by
    rw [upperBound, lowerBound]
    ring
  rw [hwidth, size, mul_div_right_comm]
  refine mul_lt_mul_of_pos_right ?_ hpow
  rw [hbit] at hlt
  unfold gapBelow
  split
  · next h =>
    rw [h.1, hbit]
    norm_num
  · rw [div_lt_iff₀ (by norm_num)]
    norm_num at hlt ⊢
    linarith

theorem size_pos (hx : x.magnitude ≠ 0) : 0 < x.size :=
  mul_pos (by exact_mod_cast significand_pos hx) (zpow_pos (by norm_num) _)

theorem bounds_around (x : Binary64) : x.lowerBound < x.size ∧ x.size < x.upperBound := by
  have hpow : (0 : ℚ) < 2 ^ x.exponent := zpow_pos (by norm_num) _
  have hgap : 0 < x.gapBelow := by
    unfold gapBelow
    split <;> norm_num
  exact ⟨mul_lt_mul_of_pos_right (by linarith) hpow, mul_lt_mul_of_pos_right (by linarith) hpow⟩

/-- The middle is between two neighbours on the grid. -/
theorem grid_neighbours (hx : x.magnitude ≠ 0) (hnum : 0 < num) (hden : 0 < den) {q : Nat}
    (hq : q = x.interval.mid * den / (x.interval.den * num)) :
    (q : ℚ) * (num / den) ≤ x.size ∧ x.size < (q + 1 : Nat) * ((num : ℚ) / den) := by
  obtain ⟨-, hmid, -⟩ := interval_bounds hx
  have hgrid : (0 : ℚ) < num / den := div_pos (by exact_mod_cast hnum) (by exact_mod_cast hden)
  have hfloor : q = ⌊x.size / ((num : ℚ) / den)⌋₊ := by
    rw [hq, ← Nat.floor_div_eq_div (K := ℚ), ← hmid, div_div_div_eq]
    push_cast
    rfl
  constructor
  · rw [← le_div_iff₀ hgrid, hfloor]
    exact Nat.floor_le (div_pos (size_pos hx) hgrid).le
  · rw [← div_lt_iff₀ hgrid, hfloor]
    exact_mod_cast Nat.lt_floor_add_one _

/-- A grid that is fine enough has a point in the interval. -/
theorem exists_onGrid? (hx : x.magnitude ≠ 0) (hnum : 0 < num) (hden : 0 < den)
    (hfine : (num : ℚ) / den ≤ x.size / 10 ^ 16) (tie : DecimalTie) :
    ∃ q, x.interval.onGrid? tie num den = some q := by
  obtain ⟨hlower, hupper⟩ := bounds_around x
  have hwidth := size_lt_width x
  have hsize := size_pos hx
  set q := x.interval.mid * den / (x.interval.den * num) with hq
  obtain ⟨hbelow, habove⟩ := grid_neighbours hx hnum hden hq
  set g : ℚ := (num : ℚ) / den
  have hne : q ≠ 0 := by
    intro h
    rw [h] at habove
    norm_num at habove
    linarith
  have hlow (h : x.lowerBound < q * g) : x.interval.contains (q * num) den = true := by
    rw [contains_iff hx hden, Nat.cast_mul, mul_div_assoc]
    exact ⟨h.le, by linarith, .inr ⟨h, by linarith⟩⟩
  have hhigh (h : (q + 1 : Nat) * g < x.upperBound) :
      x.interval.contains ((q + 1) * num) den = true := by
    rw [contains_iff hx hden, Nat.cast_mul, mul_div_assoc]
    exact ⟨by linarith, h.le, .inr ⟨by linarith, h⟩⟩
  unfold Interval.onGrid?
  dsimp only
  rw [← hq]
  by_cases h : x.lowerBound < q * g
  · rw [hlow h]
    simp only [hne, ne_eq, not_false_eq_true, decide_true, Bool.and_true]
    cases x.interval.contains ((q + 1) * num) den <;> exact ⟨_, rfl⟩
  · have habove : (q + 1 : Nat) * g < x.upperBound := by
      push_cast
      linarith
    rw [hhigh habove]
    cases (decide (q ≠ 0) && x.interval.contains (q * num) den) <;> exact ⟨_, rfl⟩

/-! ## The search for the shortest digits -/

theorem ratio_of_pow (e : Int) :
    (0 ≤ e → ((Nat.pow 10 e.toNat : Nat) : ℚ) / (1 : Nat) = 10 ^ e) ∧
      (e < 0 → ((1 : Nat) : ℚ) / (Nat.pow 10 (-e).toNat : Nat) = 10 ^ e) := by
  constructor
  · intro he
    obtain ⟨k, rfl⟩ := Int.eq_ofNat_of_zero_le he
    simp
  · intro he
    obtain ⟨k, hk⟩ := Int.eq_ofNat_of_zero_le (show 0 ≤ -e by omega)
    rw [hk, show e = -(k : Int) by omega]
    simp

/-- What the search gives for this many digits, on the grid of the powers of ten. -/
def hit? (i : Interval) (tie : DecimalTie) (e : Int) : Option Nat :=
  if 0 ≤ e then i.onGrid? tie (Nat.pow 10 e.toNat) 1 else i.onGrid? tie 1 (Nat.pow 10 (-e).toNat)

theorem roundsTo_of_hit? (hx : x.magnitude ≠ 0) {tie : DecimalTie} {q : Nat}
    (h : hit? x.interval tie e = some q) : RoundsTo (q * 10 ^ e) x := by
  unfold hit? at h
  split at h
  · next he =>
    rw [← (ratio_of_pow e).1 he]
    exact roundsTo_of_onGrid? hx Nat.one_pos h
  · next he =>
    rw [← (ratio_of_pow e).2 (by omega)]
    exact roundsTo_of_onGrid? hx (Nat.pow_pos (by decide)) h

theorem exists_hit? (hx : x.magnitude ≠ 0) (tie : DecimalTie) (hfine : (10 : ℚ) ^ e ≤ x.size / 10 ^ 16) :
    ∃ q, hit? x.interval tie e = some q := by
  unfold hit?
  split
  · next he =>
    rw [← (ratio_of_pow e).1 he] at hfine
    exact exists_onGrid? hx (Nat.pow_pos (by decide)) Nat.one_pos hfine tie
  · next he =>
    rw [← (ratio_of_pow e).2 (by omega)] at hfine
    exact exists_onGrid? hx Nat.one_pos (Nat.pow_pos (by decide)) hfine tie

theorem shortestFrom_succ (i : Interval) (tie : DecimalTie) (point : Int) (fuel : Nat) (count : Int) :
    shortestFrom i tie point (fuel + 1) count = match hit? i tie (point - count) with
      | some q => (q, point - count)
      | none => shortestFrom i tie point fuel (count + 1) := rfl

/-- The search ends with a hit if there is one at a number of digits that it comes to. -/
theorem hit?_shortestFrom (i : Interval) (tie : DecimalTie) (point : Int) {fuel k q : Nat} {count : Int}
    (hk : k < fuel) (h : hit? i tie (point - (count + k)) = some q) :
    hit? i tie (shortestFrom i tie point fuel count).2 = some (shortestFrom i tie point fuel count).1 := by
  induction fuel generalizing k count with
  | zero => exact absurd hk (Nat.not_lt_zero k)
  | succ fuel ih =>
      rw [shortestFrom_succ]
      cases hhit : hit? i tie (point - count) with
      | some q => exact hhit
      | none =>
          cases k with
          | zero =>
              rw [Nat.cast_zero, Int.add_zero, hhit] at h
              cases h
          | succ k =>
              refine ih (Nat.lt_of_succ_lt_succ hk) (k := k) ?_
              rw [show count + 1 + (k : Int) = count + ((k + 1 : Nat) : Int) by omega]
              exact h

/-- The magnitude is compared with a power of ten without fractions. -/
theorem decimalPoint_succ (hden : 0 < den) (fuel : Nat) (k : Int) :
    decimalPoint num den (fuel + 1) k =
      if (num : ℚ) / den < 10 ^ (k - 1) then decimalPoint num den fuel (k - 1) else k := by
  have hd : (0 : ℚ) < den := by exact_mod_cast hden
  rw [decimalPoint]
  by_cases hk : 0 ≤ k - 1
  · obtain ⟨j, hj⟩ := Int.eq_ofNat_of_zero_le hk
    have hlt : num < den * Nat.pow 10 j ↔ (num : ℚ) / den < 10 ^ (k - 1) := by
      rw [div_lt_iff₀ hd, hj, zpow_natCast, mul_comm]
      exact_mod_cast Iff.rfl
    rw [if_pos hk]
    simp only [hj, Int.toNat_natCast, hlt]
  · obtain ⟨j, hj⟩ := Int.eq_ofNat_of_zero_le (show 0 ≤ 1 - k by omega)
    have hlt : num * Nat.pow 10 j < den ↔ (num : ℚ) / den < 10 ^ (k - 1) := by
      rw [show k - 1 = -(j : Int) by omega, zpow_neg, zpow_natCast, div_lt_iff₀ hd,
        lt_inv_mul_iff₀ (by positivity), mul_comm]
      exact_mod_cast Iff.rfl
    rw [if_neg hk]
    simp only [hj, Int.toNat_natCast, hlt]

/-- The search for the point goes down to it, or ends below it. -/
theorem pow_decimalPoint_le (hden : 0 < den) {fuel : Nat} {k : Int}
    (h : (10 : ℚ) ^ (k - 1 - fuel) ≤ num / den) :
    (10 : ℚ) ^ (decimalPoint num den fuel k - 1) ≤ num / den := by
  induction fuel generalizing k with
  | zero =>
      rw [Nat.cast_zero, Int.sub_zero] at h
      exact h
  | succ fuel ih =>
      rw [decimalPoint_succ hden]
      split
      · refine ih ?_
        rw [show k - 1 - 1 - (fuel : Int) = k - 1 - ((fuel + 1 : Nat) : Int) by omega]
        exact h
      · next hlt => exact le_of_not_gt hlt

/-- What the search for the point starts from. -/
def pointGuess (x : Binary64) : Int :=
  (x.exponent + (x.significand.log2 : Int) + 1) * 30103 / 100000 + 2

theorem pow_ten_le_pow_two :
    (∀ l < 1100, 10 ^ ((l + 1) * 30103 / 100000) ≤ 2 ^ l * 10 ^ 7) ∧
      ∀ l < 1100, 2 ^ (l + 1) ≤ 10 ^ (l * 30103 / 100000 + 7) := by
  decide +kernel

theorem pow_two_le {k : Nat} (hk : k < 1100) :
    (2 : ℚ) ^ ((k + 1 : Nat) : Int) ≤ 10 ^ ((k * 30103 / 100000 + 7 : Nat) : Int) := by
  rw [zpow_natCast, zpow_natCast]
  exact_mod_cast pow_ten_le_pow_two.2 k hk

/-- Digits below a power of ten, for the binary place of the first bit. -/
theorem pow_ten_le (l : Int) (hlow : -1100 ≤ l) (hhigh : l < 1100) :
    (10 : ℚ) ^ ((l + 1) * 30103 / 100000 - 7) ≤ 2 ^ l := by
  rcases Int.lt_or_le l 0 with hl | hl
  · obtain ⟨k, hk⟩ := Int.eq_ofNat_of_zero_le (show 0 ≤ -l - 1 by omega)
    calc (10 : ℚ) ^ ((l + 1) * 30103 / 100000 - 7) ≤ 10 ^ (-((k * 30103 / 100000 + 7 : Nat) : Int)) :=
          zpow_le_zpow_right₀ (by norm_num) (by push_cast; omega)
      _ = (10 ^ ((k * 30103 / 100000 + 7 : Nat) : Int))⁻¹ := zpow_neg _ _
      _ ≤ (2 ^ ((k + 1 : Nat) : Int))⁻¹ :=
          inv_anti₀ (zpow_pos (by norm_num) _) (pow_two_le (k := k) (by omega))
      _ = 2 ^ l := by rw [← zpow_neg, show -((k + 1 : Nat) : Int) = l by omega]
  · obtain ⟨k, rfl⟩ := Int.eq_ofNat_of_zero_le hl
    have hpow : (10 : ℚ) ^ ((k + 1) * 30103 / 100000) ≤ 2 ^ k * 10 ^ 7 := by
      exact_mod_cast pow_ten_le_pow_two.1 k (by omega)
    rw [zpow_sub₀ (by norm_num), div_le_iff₀ (by positivity), zpow_natCast]
    calc (10 : ℚ) ^ (((k : Int) + 1) * 30103 / 100000) = 10 ^ ((k + 1) * 30103 / 100000) := by
          rw [← zpow_natCast]
          congr 1
      _ ≤ 2 ^ k * 10 ^ (7 : Int) := by exact_mod_cast hpow

theorem exponent_le (h : x.isFinite = true) : x.exponent ≤ 971 := by
  have hlt : x.magnitude < infinityPattern := of_decide_eq_true h
  unfold exponent
  split
  · decide
  · have hdiv : x.magnitude / leadingBit < 2047 := (Nat.div_lt_iff_lt_mul leadingBit_pos).2 hlt
    omega

/-- The search starts at most eight places above the point. -/
theorem pow_pointGuess_le (hfinite : x.isFinite = true) (hx : x.magnitude ≠ 0) :
    (10 : ℚ) ^ (x.pointGuess - 9) ≤ x.size := by
  have hpos := significand_pos hx
  have hlog : x.significand.log2 < 53 := (Nat.log2_lt (Nat.ne_of_gt hpos)).2 (significand_lt x)
  have hleast := exponent_least x
  have hmost := exponent_le hfinite
  have hten := pow_ten_le (x.exponent + x.significand.log2) (by omega) (by omega)
  rw [pointGuess, show ∀ g : Int, g + 2 - 9 = g - 7 by omega]
  calc (10 : ℚ) ^ ((x.exponent + x.significand.log2 + 1) * 30103 / 100000 - 7) ≤
        2 ^ (x.exponent + x.significand.log2) := hten
    _ = 2 ^ (x.significand.log2 : Int) * 2 ^ x.exponent := by rw [zpow_add₀ (by norm_num), mul_comm]
    _ ≤ x.size := mul_le_mul_of_nonneg_right (log2_bounds hpos).1 (zpow_pos (by norm_num) _).le

/-- The digits found for a finite number, and the place of the last one. -/
def foundDigits (tie : DecimalTie) (x : Binary64) : Nat × Int :=
  shortestFrom x.interval tie (decimalPoint x.interval.mid x.interval.den 8 x.pointGuess) 17 1

theorem roundsTo_foundDigits (hfinite : x.isFinite = true) (hx : x.magnitude ≠ 0) (tie : DecimalTie) :
    RoundsTo ((x.foundDigits tie).1 * 10 ^ (x.foundDigits tie).2) x := by
  obtain ⟨-, hmid, -⟩ := interval_bounds hx
  have hpoint : (10 : ℚ) ^ (decimalPoint x.interval.mid x.interval.den 8 x.pointGuess - 1) ≤ x.size := by
    rw [← hmid]
    refine pow_decimalPoint_le (interval_den_pos x) ?_
    rw [hmid, show x.pointGuess - 1 - ((8 : Nat) : Int) = x.pointGuess - 9 by omega]
    exact pow_pointGuess_le hfinite hx
  unfold foundDigits
  generalize decimalPoint x.interval.mid x.interval.den 8 x.pointGuess = point at hpoint ⊢
  have hfine : (10 : ℚ) ^ (point - (1 + (16 : Nat))) ≤ x.size / 10 ^ 16 := by
    rw [le_div_iff₀ (by norm_num), ← zpow_natCast, ← zpow_add₀ (by norm_num),
      show point - (1 + ((16 : Nat) : Int)) + (16 : Nat) = point - 1 by omega]
    exact hpoint
  obtain ⟨q, hq⟩ := exists_hit? hx tie hfine
  exact roundsTo_of_hit? hx (hit?_shortestFrom x.interval tie point (by decide) hq)

/-! ## Reading the digits -/

/-- The interval is within the numbers that are read from decimals at all. -/
theorem RoundsTo.range (hfinite : x.isFinite = true) (hx : x.magnitude ≠ 0) (h : RoundsTo v x) :
    (10 : ℚ) ^ (-400 : Int) ≤ v ∧ v < 10 ^ (400 : Int) := by
  have hpos : (1 : ℚ) ≤ x.significand := by exact_mod_cast significand_pos hx
  have hgap := gapBelow_le x
  constructor
  · calc (10 : ℚ) ^ (-400 : Int) ≤ 10 ^ ((-1075 + 1) * 30103 / 100000 - 7 : Int) :=
          zpow_le_zpow_right₀ (by norm_num) (by decide)
      _ ≤ 2 ^ (-1075 : Int) := pow_ten_le (-1075) (by decide) (by decide)
      _ = 1 / 2 * 2 ^ (-1074 : Int) := by
          rw [show (-1075 : Int) = -1074 - 1 by decide, zpow_sub_one₀ (by norm_num)]
          ring
      _ ≤ 1 / 2 * 2 ^ x.exponent := by
          gcongr
          · norm_num
          · exact exponent_least x
      _ ≤ x.lowerBound := mul_le_mul_of_nonneg_right (by linarith) (zpow_pos (by norm_num) _).le
      _ ≤ v := h.lower
  · have hlt : (x.significand : ℚ) + 1 ≤ 2 ^ 53 := by exact_mod_cast significand_lt x
    have hbits : (2 : ℚ) ^ 53 = 2 ^ (53 : Int) := by norm_num
    calc v ≤ x.upperBound := h.upper
      _ ≤ 2 ^ 53 * 2 ^ x.exponent :=
          mul_le_mul_of_nonneg_right (by linarith) (zpow_pos (by norm_num) _).le
      _ ≤ 2 ^ 53 * 2 ^ (971 : Int) := by
          gcongr
          · norm_num
          · exact exponent_le hfinite
      _ = 2 ^ (1024 : Int) := by
          rw [hbits, ← zpow_add₀ (by norm_num)]
          congr 1
      _ ≤ 10 ^ (314 : Int) := pow_two_le (k := 1023) (by decide)
      _ < 10 ^ (400 : Int) := zpow_lt_zpow_right₀ (by norm_num) (by decide)

/-- A decimal in the interval of a number is read as the number. -/
theorem ofDecimal_of_roundsTo (hfinite : x.isFinite = true) (hx : x.magnitude ≠ 0) {digits : Nat}
    (h : RoundsTo (digits * 10 ^ e) x) : ofDecimal x.negative digits e = x := by
  obtain ⟨hlow, hhigh⟩ := h.range hfinite hx
  have hten : (0 : ℚ) < 10 ^ e := zpow_pos (by norm_num) _
  have hne : digits ≠ 0 := by
    rintro rfl
    rw [Nat.cast_zero, zero_mul] at hlow
    exact absurd hlow (not_le.2 (by positivity))
  have hpos : (0 : ℚ) < digits := by exact_mod_cast Nat.pos_of_ne_zero hne
  set length := (Nat.toDigits 10 digits).length with hlength
  have habove : (digits : ℚ) < 10 ^ (length : Int) := by
    rw [zpow_natCast]
    exact_mod_cast (Nat.length_toDigits_le_iff (by decide) Nat.length_toDigits_pos).1 hlength.ge
  have hbelow : (10 : ℚ) ^ ((length : Int) - 1) ≤ digits := by
    rcases Nat.lt_or_ge 1 length with hlt | hle
    · rw [show (length : Int) - 1 = ((length - 1 : Nat) : Int) by omega, zpow_natCast]
      have hnot := mt (Nat.length_toDigits_le_iff (b := 10) (n := digits) (k := length - 1) (by decide)
        (by omega)).2 (by omega)
      exact_mod_cast Nat.not_lt.1 hnot
    · have hone : (1 : ℚ) ≤ digits := by exact_mod_cast Nat.pos_of_ne_zero hne
      refine le_trans ?_ hone
      exact zpow_le_one_of_nonpos₀ (by norm_num) (by omega)
  have htop : (10 : ℚ) ^ (-400 : Int) < 10 ^ ((length : Int) + e) := by
    rw [zpow_add₀ (by norm_num)]
    exact hlow.trans_lt (mul_lt_mul_of_pos_right habove hten)
  have hbottom : (10 : ℚ) ^ ((length : Int) - 1 + e) < 10 ^ (400 : Int) := by
    rw [zpow_add₀ (by norm_num)]
    exact (mul_le_mul_of_nonneg_right hbelow hten.le).trans_lt hhigh
  have htop := (zpow_lt_zpow_iff_right₀ (by norm_num : (1 : ℚ) < 10)).1 htop
  have hbottom := (zpow_lt_zpow_iff_right₀ (by norm_num : (1 : ℚ) < 10)).1 hbottom
  rw [ofDecimal, if_neg hne]
  dsimp only
  rw [← hlength, if_neg (by omega), if_neg (by omega)]
  split
  · next he =>
    refine ofRatio_of_roundsTo hfinite hx Nat.one_pos ?_
    rw [Nat.cast_mul, mul_div_assoc, (ratio_of_pow e).1 he]
    exact h
  · next he =>
    refine ofRatio_of_roundsTo hfinite hx (Nat.pow_pos (by decide)) ?_
    rw [div_eq_mul_one_div, ← Nat.cast_one, (ratio_of_pow e).2 (by omega)]
    exact h

/-- The digits of a number without zeros at the end. -/
theorem exists_significantDigits (q : Nat) :
    ∃ zeros, Nat.toDigits 10 q = significantDigits q ++ List.replicate zeros '0' := by
  have hsplit := List.takeWhile_append_dropWhile (p := (· == '0')) (l := (Nat.toDigits 10 q).reverse)
  refine ⟨((Nat.toDigits 10 q).reverse.takeWhile (· == '0')).length, ?_⟩
  have hzeros : ((Nat.toDigits 10 q).reverse.takeWhile (· == '0')).reverse =
      List.replicate ((Nat.toDigits 10 q).reverse.takeWhile (· == '0')).length '0' := by
    rw [List.eq_replicate_iff]
    refine ⟨List.length_reverse, fun c hc => ?_⟩
    simpa using List.mem_takeWhile_imp (List.mem_reverse.1 hc)
  rw [significantDigits, ← hzeros, ← List.reverse_append, hsplit, List.reverse_reverse]

theorem shortest_of_ne_zero (hx : x.magnitude ≠ 0) (tie : DecimalTie) :
    x.shortest tie = ⟨significantDigits (x.foundDigits tie).1,
      (x.foundDigits tie).2 + (Nat.toDigits 10 (x.foundDigits tie).1).length⟩ := by
  rw [shortest, if_neg hx]
  rfl

/-- The shortest digits are in the interval of the number. -/
theorem roundsTo_shortest (hfinite : x.isFinite = true) (hx : x.magnitude ≠ 0) (tie : DecimalTie) :
    RoundsTo (Text.naturalOf (x.shortest tie).digits *
      10 ^ ((x.shortest tie).point - (x.shortest tie).digits.length)) x := by
  have hround := roundsTo_foundDigits hfinite hx tie
  obtain ⟨zeros, hzeros⟩ := exists_significantDigits (x.foundDigits tie).1
  have hvalue : ((x.foundDigits tie).1 : ℚ) =
      Text.naturalOf (significantDigits (x.foundDigits tie).1) * 10 ^ (zeros : Int) := by
    rw [zpow_natCast]
    conv_lhs => rw [← Text.naturalOf_toDigits (x.foundDigits tie).1, hzeros, Text.naturalOf_append_zeros]
    push_cast
    rfl
  have hlength : ((Nat.toDigits 10 (x.foundDigits tie).1).length : Int) =
      (significantDigits (x.foundDigits tie).1).length + zeros := by
    rw [hzeros, List.length_append, List.length_replicate]
    push_cast
    rfl
  rw [shortest_of_ne_zero hx]
  dsimp only
  rw [hlength, add_sub_assoc, add_sub_cancel_left, zpow_add₀ (by norm_num),
    mul_comm ((10 : ℚ) ^ (x.foundDigits tie).2), ← mul_assoc, ← hvalue]
  exact hround

/-- The shortest digits of a finite number are read as the number. -/
theorem ofDecimal_shortest (hfinite : x.isFinite = true) (tie : DecimalTie) :
    ofDecimal x.negative (Text.naturalOf (x.shortest tie).digits)
      ((x.shortest tie).point - (x.shortest tie).digits.length) = x := by
  by_cases hx : x.magnitude = 0
  · rw [shortest, if_pos hx]
    exact (congrArg (Binary64.mk x.negative) hx).symm
  · exact ofDecimal_of_roundsTo hfinite hx (roundsTo_shortest hfinite hx tie)

end Binary64
end RestSql
