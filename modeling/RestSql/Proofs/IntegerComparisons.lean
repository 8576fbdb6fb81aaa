import Mathlib.Algebra.Group.Nat.Defs
import Mathlib.Order.Monotone.Basic
import Mathlib.Order.Compare
import RestSql.Proofs.Comparisons

/-!
# Comparisons of integers

A comparison rounds both sides to binary numbers, and so integers to 53 significant bits (`nearest`). The
patterns of binary numbers are in the order of their values (`rank_lt_iff`), and the value of an integer of 64
bits, or of its text, is the rounded integer (`value_ofInt`, `ofText?_ofInt`). So integers are compared and
sorted as the rounded ones are (`integers_compared_rounded`): exactly, if one of them is below `2 ^ 53`, and
with two that differ taken for equal where they are rounded to the same (`not_integers_compared_exactly`).
-/

namespace RestSql

namespace Binary64

/-! ## Rounding -/

variable {a b d m : Nat}

theorem roundHalfEven_bounds (a d : Nat) :
    a / d ≤ roundHalfEven a d ∧ roundHalfEven a d ≤ a / d + 1 := by
  unfold roundHalfEven
  dsimp only
  split <;> omega

theorem roundHalfEven_mul (k : Nat) (hd : 0 < d) : roundHalfEven (k * d) d = k := by
  have hq : k * d / d = k := Nat.mul_div_cancel k hd
  have hr : k * d % d = 0 := Nat.mul_mod_left k d
  simp [roundHalfEven, hq, hr, Nat.ne_of_lt hd]

theorem roundHalfEven_mono (h : a ≤ b) : roundHalfEven a d ≤ roundHalfEven b d := by
  have hq : a / d ≤ b / d := Nat.div_le_div_right h
  rcases Nat.lt_or_eq_of_le hq with hlt | heq
  · have ha := (roundHalfEven_bounds a d).2
    have hb := (roundHalfEven_bounds b d).1
    omega
  · -- between the same multiples, the one that is further on is rounded up if the other one is
    have hr : a % d ≤ b % d := by
      have ha := Nat.div_add_mod a d
      have hb := Nat.div_add_mod b d
      rw [heq] at ha
      omega
    simp only [roundHalfEven, heq, Bool.or_eq_true, decide_eq_true_eq, Bool.and_eq_true, beq_iff_eq]
    split <;> split <;> omega

/-- The distance of the integers of 53 significant bits around `m`. -/
def spacing (m : Nat) : Nat :=
  2 ^ (m.log2 - 52)

/-- The natural number of 53 significant bits that is nearest to `m`, a half to the even one. -/
def nearestNat (m : Nat) : Nat :=
  roundHalfEven m (spacing m) * spacing m

/-- The integer of 53 significant bits that is nearest to `n`, a half to the even one. -/
def nearest (n : Int) : Int :=
  if n < 0 then -(nearestNat n.natAbs : Int) else nearestNat n.natAbs

theorem spacing_pos (m : Nat) : 0 < spacing m :=
  Nat.two_pow_pos _

theorem nearestNat_of_lt (h : m < 2 ^ 53) : nearestNat m = m := by
  have hlog : m.log2 < 53 := by
    rcases Nat.eq_zero_or_pos m with rfl | hm
    · decide
    · exact (Nat.log2_lt (Nat.ne_of_gt hm)).2 h
  have hone : spacing m = 1 := by
    rw [spacing, show m.log2 - 52 = 0 by omega, Nat.pow_zero]
  have hround := roundHalfEven_mul m Nat.one_pos
  rw [Nat.mul_one] at hround
  rw [nearestNat, hone, hround, Nat.mul_one]

theorem pow_mul_spacing (h : 52 ≤ m.log2) (k : Nat) : 2 ^ (52 + k) * spacing m = 2 ^ (m.log2 + k) := by
  rw [spacing, ← Nat.pow_add, show 52 + k + (m.log2 - 52) = m.log2 + k by omega]

/-- Between two powers of two the rounded quotients are those of 53 bits. -/
theorem roundHalfEven_spacing (h : 52 ≤ m.log2) :
    2 ^ 52 ≤ roundHalfEven m (spacing m) ∧ roundHalfEven m (spacing m) ≤ 2 ^ 53 := by
  have hm : m ≠ 0 := by
    rintro rfl
    exact absurd h (by decide)
  constructor
  · rw [← roundHalfEven_mul (2 ^ 52) (spacing_pos m), pow_mul_spacing h 0]
    exact roundHalfEven_mono (Nat.log2_self_le hm)
  · rw [← roundHalfEven_mul (2 ^ 53) (spacing_pos m), pow_mul_spacing h 1]
    exact roundHalfEven_mono (Nat.le_of_lt Nat.lt_log2_self)

/-- A rounded number lies between the powers of two around it. -/
theorem nearestNat_bounds (hm : 0 < m) :
    2 ^ m.log2 ≤ nearestNat m ∧ nearestNat m ≤ 2 ^ (m.log2 + 1) := by
  rcases Nat.lt_or_ge m.log2 53 with hlog | hlog
  · have hhigh : m < 2 ^ (m.log2 + 1) := Nat.lt_log2_self
    rw [nearestNat_of_lt (Nat.lt_of_lt_of_le hhigh (Nat.pow_le_pow_right (by decide) hlog))]
    exact ⟨Nat.log2_self_le (Nat.ne_of_gt hm), Nat.le_of_lt hhigh⟩
  · have hlog := Nat.le_of_succ_le hlog
    obtain ⟨hlow, hhigh⟩ := roundHalfEven_spacing hlog
    rw [nearestNat, ← pow_mul_spacing hlog 1, ← Nat.add_zero m.log2, ← pow_mul_spacing hlog 0]
    exact ⟨Nat.mul_le_mul_right _ hlow, Nat.mul_le_mul_right _ hhigh⟩

theorem nearestNat_mono (h : a ≤ b) : nearestNat a ≤ nearestNat b := by
  rcases Nat.eq_zero_or_pos a with rfl | ha
  · exact (nearestNat_of_lt (by decide)).trans_le (Nat.zero_le _)
  have hb : 0 < b := Nat.lt_of_lt_of_le ha h
  have hlog : a.log2 ≤ b.log2 :=
    (Nat.le_log2 (Nat.ne_of_gt hb)).2 ((Nat.log2_self_le (Nat.ne_of_gt ha)).trans h)
  rcases Nat.lt_or_eq_of_le hlog with hlt | heq
  · calc nearestNat a ≤ 2 ^ (a.log2 + 1) := (nearestNat_bounds ha).2
      _ ≤ 2 ^ b.log2 := Nat.pow_le_pow_right (by decide) hlt
      _ ≤ nearestNat b := (nearestNat_bounds hb).1
  · have hspacing : spacing a = spacing b := by rw [spacing, heq, spacing]
    rw [nearestNat, nearestNat, hspacing]
    exact Nat.mul_le_mul_right _ (roundHalfEven_mono h)

theorem nearest_mono {n k : Int} (h : n ≤ k) : nearest n ≤ nearest k := by
  unfold nearest
  split <;> split
  · have := nearestNat_mono (show k.natAbs ≤ n.natAbs by omega)
    omega
  · omega
  · omega
  · have := nearestNat_mono (show n.natAbs ≤ k.natAbs by omega)
    omega

theorem natAbs_nearest (n : Int) : (nearest n).natAbs = nearestNat n.natAbs := by
  unfold nearest
  split <;> simp

theorem nearest_of_lt {n : Int} (h : n.natAbs < 2 ^ 53) : nearest n = n := by
  rw [nearest, nearestNat_of_lt h]
  split <;> omega

/-- A number below `2 ^ 53` is rounded to itself and nothing else is. -/
theorem eq_of_nearest_eq {n k : Int} (hn : n.natAbs < 2 ^ 53) (h : nearest n = nearest k) : n = k := by
  rw [nearest_of_lt hn] at h
  rcases Nat.lt_or_ge k.natAbs (2 ^ 53) with hk | hk
  · rw [h, nearest_of_lt hk]
  · have hlog : 53 ≤ k.natAbs.log2 := (Nat.le_log2 (by omega)).2 hk
    have hlow := (nearestNat_bounds (m := k.natAbs) (by omega)).1
    have hpow : 2 ^ 53 ≤ 2 ^ k.natAbs.log2 := Nat.pow_le_pow_right (by decide) hlog
    rw [h, natAbs_nearest] at hn
    omega

/-! ## The order of the values -/

/-- The magnitude of a finite number, in units of the smallest one. -/
def units (x : Binary64) : Nat :=
  x.significand * 2 ^ (x.exponent + 1074).toNat

/-- A finite number, in units of the smallest positive one. -/
def value (x : Binary64) : Int :=
  if x.negative then -(x.units : Int) else x.units

theorem units_of_le {negative : Bool} (h : m ≤ leadingBit) : units ⟨negative, m⟩ = m := by
  rcases Nat.lt_or_eq_of_le h with hlt | rfl
  · simp [units, significand, exponent, hlt]
  · simp [units, significand, exponent, leadingBit]

theorem units_add {negative : Bool} {k q : Nat} (h : q ≤ leadingBit) :
    units ⟨negative, (k + 1) * leadingBit + q⟩ = (q + leadingBit) * 2 ^ k := by
  have hpos : 0 < leadingBit := by decide
  have hlow (k q : Nat) (hq : q < leadingBit) :
      units ⟨negative, (k + 1) * leadingBit + q⟩ = (q + leadingBit) * 2 ^ k := by
    have hle : ¬(k + 1) * leadingBit + q < leadingBit := by
      rw [Nat.succ_mul]
      omega
    have hdiv : ((k + 1) * leadingBit + q) / leadingBit = k + 1 := by
      rw [Nat.add_comm, Nat.add_mul_div_right _ _ hpos, Nat.div_eq_of_lt hq, Nat.zero_add]
    have hmod : ((k + 1) * leadingBit + q) % leadingBit = q := by
      rw [Nat.add_comm, Nat.add_mul_mod_self_right, Nat.mod_eq_of_lt hq]
    rw [units, significand, exponent, if_neg hle, if_neg hle, hdiv, hmod,
      show (((k + 1 : Nat) : Int) - 1075 + 1074).toNat = k by omega]
  rcases Nat.lt_or_eq_of_le h with hlt | rfl
  · exact hlow k q hlt
  · have hnext := hlow (k + 1) 0 hpos
    rw [Nat.add_zero, Nat.zero_add, Nat.succ_mul] at hnext
    rw [hnext, Nat.pow_succ, ← Nat.two_mul, Nat.mul_comm (2 ^ k) 2, ← Nat.mul_assoc,
      Nat.mul_comm leadingBit 2]

/-- The patterns are in the order of the magnitudes that they stand for. -/
theorem strictMono_units (negative : Bool) : StrictMono fun m => units ⟨negative, m⟩ := by
  refine strictMono_nat_of_lt_succ fun m => ?_
  rcases Nat.lt_or_ge m leadingBit with hm | hm
  · rw [units_of_le (Nat.le_of_lt hm), units_of_le hm]
    exact Nat.lt_succ_self m
  · have hpos : 0 < leadingBit := by decide
    obtain ⟨k, hk⟩ := Nat.exists_eq_succ_of_ne_zero (Nat.ne_of_gt (Nat.div_pos hm hpos))
    have hq := Nat.mod_lt m hpos
    have hm : m = (k + 1) * leadingBit + m % leadingBit := by
      rw [Nat.mul_comm, ← Nat.succ_eq_add_one, ← hk, Nat.div_add_mod]
    rw [hm, Nat.add_assoc, units_add (Nat.le_of_lt hq), units_add hq]
    exact Nat.mul_lt_mul_of_pos_right (by omega) (Nat.two_pow_pos k)

theorem units_lt_iff (x y : Binary64) : x.units < y.units ↔ x.magnitude < y.magnitude := by
  have hsign (z : Binary64) : z.units = units ⟨false, z.magnitude⟩ := rfl
  rw [hsign x, hsign y]
  exact (strictMono_units false).lt_iff_lt

theorem rank_lt_iff (x y : Binary64) : x.rank < y.rank ↔ x.value < y.value := by
  have hlt := units_lt_iff x y
  have hgt := units_lt_iff y x
  have hzero (z : Binary64) : 0 < z.units ↔ 0 < z.magnitude := by
    have hunits : units ⟨false, 0⟩ = 0 := units_of_le (Nat.zero_le _)
    have h := units_lt_iff ⟨false, 0⟩ z
    rwa [hunits] at h
  have hx := hzero x
  have hy := hzero y
  unfold rank value
  cases x.negative <;> cases y.negative <;> simp only [if_true, if_false, Bool.false_eq_true] <;> omega

theorem compare_congr {a b c d : Int} (h : a < b ↔ c < d) (h' : b < a ↔ d < c) :
    compare a b = compare c d := by
  rcases Int.lt_trichotomy a b with hab | rfl | hab
  · rw [compare_lt_iff_lt.2 hab, compare_lt_iff_lt.2 (h.1 hab)]
  · have hcd : c = d := Int.le_antisymm (Int.not_lt.1 (mt h'.2 (Int.lt_irrefl a)))
      (Int.not_lt.1 (mt h.2 (Int.lt_irrefl a)))
    rw [hcd, compare_eq_iff_eq.2 rfl, compare_eq_iff_eq.2 rfl]
  · rw [compare_gt_iff_gt.2 hab, compare_gt_iff_gt.2 (h'.1 hab)]

/-! ## Integers -/

theorem unscale_one (m k l : Nat) : unscale m 1 ((l : Int) - k) =
    if k ≤ l then (m, 2 ^ (l - k)) else (m * 2 ^ (k - l), 1) := by
  unfold unscale
  by_cases h : k ≤ l
  · rw [if_pos h, if_pos (by omega), show ((l : Int) - k).toNat = l - k by omega, Nat.one_mul]
    rfl
  · rw [if_neg h, if_neg (by omega), show (-((l : Int) - k)).toNat = k - l by omega]
    rfl

theorem exponentOf_one (hm : 0 < m) : exponentOf m 1 = (m.log2 : Int) - (52 : Nat) := by
  have hlow : 2 ^ m.log2 ≤ m := Nat.log2_self_le (Nat.ne_of_gt hm)
  have hstart : max ((m.log2 : Int) - (1 : Nat).log2 - 53) (-1074) = m.log2 - (53 : Nat) := by
    rw [show (1 : Nat).log2 = 0 by decide]
    omega
  have hbit : 2 * leadingBit = 2 ^ 53 := by decide
  rw [exponentOf, hstart, unscale_one, hbit]
  by_cases hlog : 53 ≤ m.log2
  · have hfull : 2 ^ 53 ≤ m / 2 ^ (m.log2 - 53) := by
      rw [Nat.le_div_iff_mul_le (Nat.two_pow_pos _), ← Nat.pow_add, Nat.add_sub_cancel' hlog]
      exact hlow
    rw [if_pos hlog]
    exact (if_pos hfull).trans (by omega)
  · have hfull : 2 ^ 53 ≤ m * 2 ^ (53 - m.log2) / 1 := by
      rw [Nat.div_one]
      calc 2 ^ 53 = 2 ^ m.log2 * 2 ^ (53 - m.log2) := by
            rw [← Nat.pow_add, Nat.add_sub_cancel' (Nat.le_of_not_le hlog)]
        _ ≤ m * 2 ^ (53 - m.log2) := Nat.mul_le_mul_right _ hlow
    rw [if_neg hlog]
    exact (if_pos hfull).trans (by omega)

/-- The quotient of 53 bits that an integer is rounded to. -/
theorem exists_roundHalfEven (hm : 0 < m) :
    ∃ r ≤ leadingBit, (r + leadingBit) * 2 ^ m.log2 = nearestNat m * leadingBit ∧
      roundHalfEven (unscale m 1 (m.log2 - (52 : Nat))).1 (unscale m 1 (m.log2 - (52 : Nat))).2 =
        r + leadingBit := by
  have hbit : leadingBit = 2 ^ 52 := by decide
  rw [unscale_one, hbit]
  by_cases hfull : 52 ≤ m.log2
  · obtain ⟨hlow, hhigh⟩ := roundHalfEven_spacing hfull
    refine ⟨roundHalfEven m (spacing m) - 2 ^ 52, by omega, ?_, ?_⟩
    · rw [Nat.sub_add_cancel hlow, nearestNat, Nat.mul_assoc, Nat.mul_comm (spacing m),
        pow_mul_spacing hfull 0]
      rfl
    · rw [Nat.sub_add_cancel hlow, if_pos hfull, spacing]
  · have hlog : m.log2 ≤ 52 := Nat.le_of_not_le hfull
    have hnext : m < 2 ^ (m.log2 + 1) := Nat.lt_log2_self
    have hlow : 2 ^ 52 ≤ m * 2 ^ (52 - m.log2) :=
      calc 2 ^ 52 = 2 ^ m.log2 * 2 ^ (52 - m.log2) := by rw [← Nat.pow_add, Nat.add_sub_cancel' hlog]
        _ ≤ m * 2 ^ (52 - m.log2) := Nat.mul_le_mul_right _ (Nat.log2_self_le (Nat.ne_of_gt hm))
    have hhigh : m * 2 ^ (52 - m.log2) ≤ 2 ^ 53 :=
      calc m * 2 ^ (52 - m.log2) ≤ 2 ^ (m.log2 + 1) * 2 ^ (52 - m.log2) :=
            Nat.mul_le_mul_right _ (Nat.le_of_lt hnext)
        _ = 2 ^ 53 := by rw [← Nat.pow_add, show m.log2 + 1 + (52 - m.log2) = 53 by omega]
    have hround := roundHalfEven_mul (m * 2 ^ (52 - m.log2)) Nat.one_pos
    rw [Nat.mul_one] at hround
    refine ⟨m * 2 ^ (52 - m.log2) - 2 ^ 52, by omega, ?_, ?_⟩
    · rw [Nat.sub_add_cancel hlow, Nat.mul_assoc, ← Nat.pow_add, Nat.sub_add_cancel hlog, nearestNat_of_lt]
      exact hnext.trans_le (Nat.pow_le_pow_right (by decide) (Nat.succ_le_succ hlog))
    · rw [Nat.sub_add_cancel hlow, if_neg hfull, hround]

/-- One, in units of the smallest number. -/
def unitsOfOne : Nat :=
  leadingBit * 2 ^ 1022

theorem units_ofRatio (negative : Bool) (h : m < 2 ^ 64) :
    (ofRatio negative m 1).units = nearestNat m * unitsOfOne := by
  rcases Nat.eq_zero_or_pos m with rfl | hm
  · rw [nearestNat_of_lt (by decide), Nat.zero_mul]
    exact units_of_le (Nat.zero_le _)
  have hlog : m.log2 < 64 := (Nat.log2_lt (Nat.ne_of_gt hm)).2 h
  obtain ⟨r, hr, hvalue, hround⟩ := exists_roundHalfEven hm
  have hpattern : (m.log2 + 1022) * leadingBit + (r + leadingBit) =
      (m.log2 + 1022 + 1) * leadingBit + r := by
    rw [Nat.succ_mul (m.log2 + 1022)]
    omega
  have hmin : (m.log2 + 1022 + 1) * leadingBit + r ≤ infinityPattern := by
    calc (m.log2 + 1022 + 1) * leadingBit + r ≤ (m.log2 + 1022 + 1) * leadingBit + leadingBit :=
          Nat.add_le_add_left hr _
      _ = (m.log2 + 1022 + 1 + 1) * leadingBit := (Nat.succ_mul _ _).symm
      _ ≤ 2047 * leadingBit := Nat.mul_le_mul_right _ (by omega)
  rw [ofRatio, if_neg (Nat.ne_of_gt hm), exponentOf_one hm]
  dsimp only
  rw [show ((m.log2 : Int) - (52 : Nat) + 1074).toNat = m.log2 + 1022 by omega, hround, hpattern,
    Nat.min_eq_left hmin, units_add hr]
  have hscaled (k : Nat) : (r + leadingBit) * 2 ^ (m.log2 + k) = nearestNat m * (leadingBit * 2 ^ k) := by
    rw [Nat.pow_add, ← Nat.mul_assoc, hvalue, Nat.mul_assoc]
  exact hscaled 1022

theorem value_ofInt {n : Int} (h : n.natAbs < 2 ^ 64) :
    (ofInt n).value = nearest n * unitsOfOne := by
  have hunits := units_ofRatio (decide (n < 0)) h
  have hsign : (ofInt n).negative = decide (n < 0) := by
    unfold ofInt ofRatio
    split <;> rfl
  rw [value, hsign, nearest, ofInt, hunits]
  by_cases hn : n < 0
  · rw [if_pos (decide_eq_true hn), if_pos hn, Int.neg_mul, Int.natCast_mul]
  · rw [if_neg (Bool.eq_false_iff.1 (decide_eq_false hn)), if_neg hn, Int.natCast_mul]

theorem compare_rank_ofInt {n k : Int} (hn : n.natAbs < 2 ^ 64) (hk : k.natAbs < 2 ^ 64) :
    compare (ofInt n).rank (ofInt k).rank = compare (nearest n) (nearest k) := by
  have hpos (k : Nat) : 0 < leadingBit * 2 ^ k := Nat.mul_pos (by decide) (Nat.two_pow_pos k)
  have hunit : (0 : Int) < unitsOfOne := Int.natCast_pos.2 (hpos 1022)
  have hlt (n k : Int) : nearest n * unitsOfOne < nearest k * unitsOfOne ↔ nearest n < nearest k :=
    Int.mul_lt_mul_right hunit
  refine compare_congr ?_ ?_
  · rw [rank_lt_iff, value_ofInt hn, value_ofInt hk, hlt]
  · rw [rank_lt_iff, value_ofInt hn, value_ofInt hk, hlt]

/-! ## Texts of integers -/

theorem ofDecimal_zero (negative : Bool) (hm : m < 2 ^ 64) :
    ofDecimal negative m 0 = ofRatio negative m 1 := by
  have hlength : (Nat.toDigits 10 m).length ≤ 20 :=
    (Nat.length_toDigits_le_iff (by decide) (by decide)).2 (hm.trans (by decide))
  rcases Nat.eq_zero_or_pos m with rfl | hpos
  · rfl
  · rw [ofDecimal, if_neg (Nat.ne_of_gt hpos)]
    dsimp only
    rw [if_neg (by omega), if_neg (by omega), if_pos (Int.le_refl 0)]
    exact congrArg (ofRatio negative · 1) (Nat.mul_one m)

theorem ofUnsigned?_toDigits (negative : Bool) (hm : m < 2 ^ 64) :
    ofUnsigned? negative (Nat.toDigits 10 m) = some (ofRatio negative m 1) := by
  have hall : ∀ c ∈ Nat.toDigits 10 m, c.isDigit = true := fun c => Text.isDigit_of_mem_toDigits
  have hwhole : (Nat.toDigits 10 m).takeWhile Char.isDigit = Nat.toDigits 10 m :=
    List.takeWhile_eq_self_iff.2 hall
  have hrest : (Nat.toDigits 10 m).dropWhile Char.isDigit = [] := List.dropWhile_eq_nil_iff.2 hall
  have hne : (Nat.toDigits 10 m).isEmpty = false := by simp [Nat.toDigits_ne_nil]
  simp [ofUnsigned?, hwhole, hrest, hne, exponentOf?, Text.naturalOf_toDigits, ofDecimal_zero negative hm]

theorem toLower_of_isDigit {c : Char} (h : c.isDigit = true) : c.toLower = c := by
  have hupper : ¬('A'.val ≤ c.val ∧ c.val ≤ 'Z'.val) := by
    rintro ⟨hle, -⟩
    have hnat : 65 ≤ c.toNat := UInt32.le_iff_toNat_le.1 hle
    have hdigit : c.toNat ≤ 57 := (Char.isDigit_iff_toNat.1 h).2
    omega
  exact dif_neg hupper

theorem lower_ne_of_isDigit {c : Char} (h : c.isDigit = true) {word : String}
    (hword : (word.toList.head?.map Char.isDigit).getD false = false) (cs : List Char) :
    Text.lower (String.ofList (c :: cs)) ≠ word := by
  rintro rfl
  simp [Text.lower, toLower_of_isDigit h, h] at hword

/-- A sign and a text that starts with a digit is no word. -/
theorem ofText?_of_digit {negative : Bool} {text : String} {c : Char} {cs : List Char} (hc : c.isDigit = true)
    (h : text.toList = (if negative then ['-'] else []) ++ c :: cs) :
    ofText? text = ofUnsigned? negative (c :: cs) := by
  have hwords (word : String) (hword : (word.toList.head?.map Char.isDigit).getD false = false) :
      Text.lower (String.ofList (c :: cs)) ≠ word :=
    lower_ne_of_isDigit hc hword cs
  have hinf := hwords "inf" rfl
  have hinfinity := hwords "infinity" rfl
  have hnan := hwords "nan" rfl
  cases negative with
  | true => simp [ofText?, h, hinf, hinfinity, hnan, -String.ofList_cons]
  | false =>
      have hminus : c ≠ '-' := by
        rintro rfl
        cases hc
      have hplus : c ≠ '+' := by
        rintro rfl
        cases hc
      simp [ofText?, h, hminus, hplus, hinf, hinfinity, hnan, -String.ofList_cons]

/-- The decimal text of an integer of 64 bits is read as the number nearest to it. -/
theorem ofText?_ofInt {n : Int} (h : n.natAbs < 2 ^ 64) : ofText? (Text.ofInt n) = some (ofInt n) := by
  obtain ⟨c, ds, hds, hc, -⟩ := Json.exists_toDigits n.natAbs
  have htext : (Text.ofInt n).toList = (if decide (n < 0) then ['-'] else []) ++ c :: ds := by
    rw [← hds]
    by_cases hn : n < 0
    · rw [Text.toList_ofInt_of_neg hn, decide_eq_true hn]
      rfl
    · rw [Text.toList_ofInt_of_nonneg hn, decide_eq_false hn]
      rfl
  rw [ofText?_of_digit hc htext, ← hds, ofUnsigned?_toDigits _ h, ofInt]

/-- Two integers are ordered as the rounded ones are, unless they are not equal and rounded to the same. -/
theorem compare_nearest_iff (n k : Int) :
    compare (nearest n) (nearest k) = compare n k ↔ (nearest n = nearest k → n = k) := by
  constructor
  · intro h heq
    rw [compare_eq_iff_eq.2 heq] at h
    exact compare_eq_iff_eq.1 h.symm
  · intro h
    have hlt {a b : Int} (hab : nearest a = nearest b → a = b) : nearest a < nearest b ↔ a < b := by
      constructor
      · exact fun hlt => Int.not_le.1 fun hle => Int.not_le.2 hlt (nearest_mono hle)
      · intro hlt
        refine Int.lt_iff_le_and_ne.2 ⟨nearest_mono (Int.le_of_lt hlt), fun heq => ?_⟩
        exact Int.ne_of_lt hlt (hab heq)
    exact compare_congr (hlt h) (hlt fun heq => (h heq.symm).symm)

end Binary64

/-! ## Comparisons -/

namespace Json

open Binary64 (nearest)

theorem lt_of_isWord {n : Int} (h : isWord n = true) : n.natAbs < 2 ^ 64 := by
  unfold isWord at h
  split at h
  · simp only [Word.isSigned, Bool.and_eq_true, decide_eq_true_eq] at h
    omega
  · exact of_decide_eq_true h

/-- The value is the integer, or its decimal text. -/
def Denotes (v : Json) (n : Int) : Prop :=
  v = ofInt n ∨ v = string (Text.ofInt n)

theorem Denotes.number?_eq {v : Json} {n : Int} (h : Denotes v n) (hn : isWord n = true) :
    v.number? = some (.ofInt n) := by
  rcases h with rfl | rfl
  · rfl
  · exact Binary64.ofText?_ofInt (lt_of_isWord hn)

theorem compare?_ofInt {v : Json} {n m : Int} (h : Denotes v n) (hn : isWord n = true)
    (hm : isWord m = true) : compare? v (ofInt m) = some (compare (nearest n) (nearest m)) := by
  rw [compare?_of_ne, h.number?_eq hn]
  · exact (Binary64.compare?_eq_some (Binary64.isNaN_ofInt n) (Binary64.isNaN_ofInt m)).trans
      (congrArg some (Binary64.compare_rank_ofInt (lt_of_isWord hn) (lt_of_isWord hm)))
  · exact fun _ _ _ => nofun
  · exact fun _ _ _ => nofun

theorem sortOrder_ofInt {n m : Int} (hn : isWord n = true) (hm : isWord m = true) :
    sortOrder (some (ofInt n)) (some (ofInt m)) = compare (nearest n) (nearest m) := by
  have hcompare := compare?_ofInt (v := ofInt n) (.inl rfl) hn hm
  exact congrArg (Option.getD · _) hcompare

end Json

namespace Sql.CompareOp

/-- The relation of integers that an operator stands for. -/
def relates : CompareOp → Int → Int → Prop
  | eq, a, b => a = b
  | notEq, a, b => a ≠ b
  | lt, a, b => a < b
  | ltEq, a, b => a ≤ b
  | gt, a, b => b < a
  | gtEq, a, b => b ≤ a
  | like, _, _ | notLike, _, _ => False

theorem holds_iff_relates {v w : Json} {a b : Int} (h : Json.compare? v w = some (compare a b))
    {op : CompareOp} (hop : op.isOrdering = true) : op.holds v w = true ↔ op.relates a b := by
  have hle : a ≤ b ↔ a < b ∨ a = b := Int.le_iff_lt_or_eq
  have hge : b ≤ a ↔ b < a ∨ a = b := by omega
  cases op <;> try cases hop
  all_goals
    simp [holds, relates, Json.sameCell, h, hle, hge, compare_lt_iff_lt, compare_gt_iff_gt]

theorem relates_congr {a b c d : Int} (h : compare a b = compare c d) (op : CompareOp) :
    op.relates a b ↔ op.relates c d := by
  have heq : a = b ↔ c = d := by rw [← compare_eq_iff_eq, h, compare_eq_iff_eq]
  have hlt : a < b ↔ c < d := by rw [← compare_lt_iff_lt, h, compare_lt_iff_lt]
  have hgt : b < a ↔ d < c := by rw [← compare_gt_iff_gt, h, compare_gt_iff_gt]
  cases op <;> simp only [relates] <;> omega

end Sql.CompareOp

namespace Filter

open Sql (CompareOp)
open Binary64 (nearest compare_nearest_iff eq_of_nearest_eq)
open Json (isWord Denotes)

/-- Cells that are integers of 64 bits, or the texts of such, are compared with integer literals, and sorted,
as if both were rounded to 53 significant bits. That is the comparison of the integers, just if no two
integers that are not equal are rounded to the same one, and so it is if one of them is below `2 ^ 53`. -/
theorem integers_compared_rounded {skip : String → Bool} {column : String} (hskip : skip column = false)
    (qualifier : Option String) {m : Int} (hm : Word.isSigned m = true) :
    (∃ filter : CompareOp → Filter,
      (∀ op, ofRows skip (.comparison (.column qualifier column) op (.literal (.integer m))) =
        .ok (filter op)) ∧
      ∀ (row : Row) (cell : Json) (n : Int), row.cell? column = some cell → cell.Denotes n →
        isWord n = true → let holds := fun op => (filter op).keeps row = true
        (∀ op, op.isOrdering = true → (holds op ↔ op.relates (nearest n) (nearest m))) ∧
        ((∀ op, op.isOrdering = true → (holds op ↔ op.relates n m)) ↔
          (nearest n = nearest m → n = m))) ∧
    (∀ a b : Int, isWord a = true → isWord b = true →
      Json.sortOrder (some (.ofInt a)) (some (.ofInt b)) = Ord.compare (nearest a) (nearest b) ∧
      (Json.sortOrder (some (.ofInt a)) (some (.ofInt b)) = Ord.compare a b ↔
        (nearest a = nearest b → a = b))) ∧
    ∀ a b : Int, a.natAbs < 2 ^ 53 ∨ b.natAbs < 2 ^ 53 → nearest a = nearest b → a = b := by
  refine ⟨⟨fun op => ofComparison column op (.integer m),
    fun op => ofRows_comparison hskip qualifier op (.integer m), ?_⟩, ?_, ?_⟩
  · intro row cell n hcell hdenotes hn
    have hnull : cell ≠ .null := by
      rintro rfl
      rcases hdenotes with h | h <;> cases h
    have hrounded (op : CompareOp) (hop : op.isOrdering = true) :
        (ofComparison column op (.integer m)).keeps row = true ↔ op.relates (nearest n) (nearest m) := by
      rw [keeps_ofComparison hcell hnull hop]
      exact CompareOp.holds_iff_relates (Json.compare?_ofInt hdenotes hn (Json.isWord_of_isSigned hm)) hop
    refine ⟨hrounded, fun h heq => ?_, fun h op hop => ?_⟩
    · exact (h .eq rfl).1 ((hrounded .eq rfl).2 heq)
    · exact (hrounded op hop).trans (CompareOp.relates_congr ((compare_nearest_iff n m).2 h) op)
  · intro a b ha hb
    rw [Json.sortOrder_ofInt ha hb]
    exact ⟨rfl, compare_nearest_iff a b⟩
  · rintro a b (ha | hb) h
    · exact eq_of_nearest_eq ha h
    · exact (eq_of_nearest_eq hb h.symm).symm

/-- An id of 54 bits is compared with a literal that is two greater. -/
theorem integers_compared_rounded_id :
    ∃ lt, ofRows (fun _ => false) (.comparison (.column none "id") .lt
        (.literal (.integer 9007199254740994))) = .ok lt ∧
      keeps [("id", .string "9007199254740992")] lt = true := by
  obtain ⟨⟨filter, hfilter, hkeeps⟩, -⟩ :=
    @integers_compared_rounded (fun _ => false) "id" rfl none 9007199254740994 (by decide)
  have hrow := hkeeps [("id", .string "9007199254740992")] (.string "9007199254740992") 9007199254740992 rfl
    (.inr (congrArg Json.string (by decide +kernel))) (by decide)
  have hrounded : nearest 9007199254740992 < nearest 9007199254740994 := by decide +kernel
  exact ⟨_, hfilter .lt, (hrow.1 .lt rfl).2 hrounded⟩

/-- Two ids that differ are equal to each other when they are compared, and when they are sorted. -/
theorem not_integers_compared_exactly :
    ∃ eq, ofRows (fun _ => false) (.comparison (.column none "id") .eq
        (.literal (.integer 9007199254740993))) = .ok eq ∧
      keeps [("id", .ofInt 9007199254740992)] eq = true ∧
      keeps [("id", .string "9007199254740992")] eq = true ∧
      Json.sortOrder (some (.ofInt 9007199254740993)) (some (.ofInt 9007199254740992)) = .eq := by
  refine ⟨_, ofRows_comparison rfl _ _ _, ?_⟩
  decide +kernel

end Filter

end RestSql
