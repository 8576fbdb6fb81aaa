import Mathlib.Algebra.Order.Field.Power
import Mathlib.Data.Rat.Floor
import Mathlib.Tactic.FieldSimp
import Mathlib.Tactic.Linarith
import Mathlib.Tactic.NormNum
import Mathlib.Tactic.Positivity
import Mathlib.Tactic.Ring
import RestSql.Proofs.IntegerComparisons

/-!
# Rounding to binary numbers

A quotient is rounded at the exponent at which it has 53 significant bits, and there is one such exponent
(`Fits.unique`). A finite number has an interval of magnitudes around it, with its bounds just if the
significand is even, and every quotient in the interval is rounded to the number (`ofRatio_of_roundsTo`).
-/

namespace RestSql

namespace Binary64

variable {x : Binary64} {num den : Nat} {e : Int} {v : ℚ}

/-! ## Rounding a quotient -/

theorem unscale_pos (hden : 0 < den) (e : Int) : 0 < (unscale num den e).2 := by
  unfold unscale
  split
  · exact Nat.mul_pos hden (Nat.two_pow_pos _)
  · exact hden

theorem unscale_div (num den : Nat) (e : Int) :
    ((unscale num den e).1 : ℚ) / (unscale num den e).2 = num / den / 2 ^ e := by
  unfold unscale
  split
  · next he =>
    obtain ⟨k, rfl⟩ := Int.eq_ofNat_of_zero_le he
    simp only [Int.toNat_natCast, Nat.pow_eq, Nat.cast_mul, Nat.cast_pow, zpow_natCast]
    exact (div_div _ _ _).symm
  · next he =>
    obtain ⟨k, hk⟩ := Int.eq_ofNat_of_zero_le (show 0 ≤ -e by omega)
    obtain rfl : e = -(k : Int) := by omega
    simp only [neg_neg, Int.toNat_natCast, Nat.pow_eq, Nat.cast_mul, Nat.cast_pow, zpow_neg, zpow_natCast]
    rw [div_inv_eq_mul, div_mul_eq_mul_div]
    rfl

/-- At this exponent a magnitude has its 53 significant bits, or it is the least exponent. -/
structure Fits (v : ℚ) (e : Int) : Prop where
  least : -1074 ≤ e
  high : v < 2 ^ 53 * 2 ^ e
  low : e = -1074 ∨ 2 ^ 52 * 2 ^ e ≤ v

theorem Fits.unique {e' : Int} (h : Fits v e) (h' : Fits v e') : e = e' := by
  have hle {e e' : Int} (h : Fits v e) (h' : Fits v e') : e' ≤ e := by
    by_contra hlt
    rcases h'.low with heq | hlow
    · have := h.least
      omega
    · have hpow : (2 : ℚ) ^ (e + 1) ≤ 2 ^ e' := zpow_le_zpow_right₀ (by norm_num) (by omega)
      rw [zpow_add_one₀ (by norm_num)] at hpow
      linarith [h.high]
  exact le_antisymm (hle h' h) (hle h h')

theorem log2_bounds {n : Nat} (hn : 0 < n) :
    (2 : ℚ) ^ (n.log2 : Int) ≤ n ∧ (n : ℚ) < 2 ^ ((n.log2 : Int) + 1) := by
  constructor
  · rw [zpow_natCast]
    exact_mod_cast Nat.log2_self_le (Nat.ne_of_gt hn)
  · rw [← Nat.cast_succ, zpow_natCast]
    exact_mod_cast Nat.lt_log2_self

/-- The leading bits of the two numbers place their quotient. -/
theorem log2_div_bounds (hnum : 0 < num) (hden : 0 < den) :
    (2 : ℚ) ^ ((num.log2 : Int) - den.log2 - 1) ≤ num / den ∧
      (num : ℚ) / den < 2 ^ ((num.log2 : Int) - den.log2 + 1) := by
  obtain ⟨hnlow, hnhigh⟩ := log2_bounds hnum
  obtain ⟨hdlow, hdhigh⟩ := log2_bounds hden
  have hden' : (0 : ℚ) < den := by exact_mod_cast hden
  constructor
  · rw [le_div_iff₀ hden']
    calc (2 : ℚ) ^ ((num.log2 : Int) - den.log2 - 1) * den
        ≤ 2 ^ ((num.log2 : Int) - den.log2 - 1) * 2 ^ ((den.log2 : Int) + 1) := by gcongr
      _ = 2 ^ (num.log2 : Int) := by
          rw [← zpow_add₀ (by norm_num)]
          congr 1
          omega
      _ ≤ num := hnlow
  · rw [div_lt_iff₀ hden']
    calc (num : ℚ) < 2 ^ ((num.log2 : Int) + 1) := hnhigh
      _ = 2 ^ ((num.log2 : Int) - den.log2 + 1) * 2 ^ (den.log2 : Int) := by
          rw [← zpow_add₀ (by norm_num)]
          congr 1
          omega
      _ ≤ 2 ^ ((num.log2 : Int) - den.log2 + 1) * den := by gcongr

/-- Whether a magnitude has more than 53 bits at an exponent is seen in whole numbers. -/
theorem le_unscale_iff (hden : 0 < den) (e : Int) :
    2 * leadingBit ≤ (unscale num den e).1 / (unscale num den e).2 ↔
      2 ^ 53 * 2 ^ e ≤ (num : ℚ) / den := by
  have hbits : ((2 * leadingBit : Nat) : ℚ) = 2 ^ 53 := by norm_num [leadingBit]
  have hd : (0 : ℚ) < (unscale num den e).2 := by exact_mod_cast unscale_pos hden e
  rw [← le_div_iff₀ (zpow_pos (by norm_num) e), ← unscale_div, le_div_iff₀ hd, ← hbits,
    Nat.le_div_iff_mul_le (unscale_pos hden e)]
  exact_mod_cast Iff.rfl

theorem fits_exponentOf (hnum : 0 < num) (hden : 0 < den) :
    Fits ((num : ℚ) / den) (exponentOf num den) := by
  obtain ⟨hlow, hhigh⟩ := log2_div_bounds hnum hden
  have hpow (k : Nat) (e : Int) : (2 : ℚ) ^ k * 2 ^ e = 2 ^ (k + e) := by
    rw [← zpow_natCast, ← zpow_add₀ (by norm_num)]
  unfold exponentOf
  dsimp only
  set L : Int := (num.log2 : Int) - den.log2
  set e : Int := max (L - 53) (-1074)
  split
  · next h =>
    refine ⟨by omega, hhigh.trans_le ?_, .inr ?_⟩
    · rw [hpow]
      exact zpow_le_zpow_right₀ (by norm_num) (by push_cast; omega)
    · refine le_trans (le_of_eq ?_) ((le_unscale_iff hden e).1 h)
      rw [hpow, hpow]
      congr 1
      push_cast
      ring
  · next h =>
    refine ⟨by omega, lt_of_not_ge (mt (le_unscale_iff hden e).2 h), ?_⟩
    rcases Int.lt_or_le (L - 53) (-1074) with hlt | hge
    · exact .inl (by omega)
    · refine .inr (le_trans (le_of_eq ?_) hlow)
      rw [hpow]
      congr 1
      push_cast
      omega

theorem div_eq_div_add_mod {n d : Nat} (hd : 0 < d) : (n : ℚ) / d = (n / d : Nat) + (n % d : Nat) / d := by
  have hd' : (d : ℚ) ≠ 0 := Nat.cast_ne_zero.2 (Nat.ne_of_gt hd)
  rw [eq_comm, ← mul_right_inj' hd', mul_add, mul_div_cancel₀ _ hd', mul_div_cancel₀ _ hd']
  exact_mod_cast Nat.div_add_mod n d

/-- The remainder decides between the two whole numbers that are near. -/
theorem roundHalfEven_of_remainder {n d k : Nat} (hk : k = n / d ∨ k = n / d + 1)
    (hdown : k = n / d → 2 * (n % d) < d ∨ 2 * (n % d) = d ∧ k % 2 = 0)
    (hup : k = n / d + 1 → d < 2 * (n % d) ∨ 2 * (n % d) = d ∧ k % 2 = 0) : roundHalfEven n d = k := by
  unfold roundHalfEven
  simp only [Bool.or_eq_true, Bool.and_eq_true, decide_eq_true_eq, beq_iff_eq]
  rcases hk with hk | hk
  · have hdown := hdown hk
    rw [if_neg (by omega), hk]
  · have hup := hup hk
    rw [if_pos (by omega), hk]

theorem roundHalfEven_eq {n d k : Nat} (hd : 0 < d) (hlow : (k : ℚ) - 1 / 2 ≤ n / d)
    (hhigh : (n : ℚ) / d ≤ k + 1 / 2) (h : k % 2 = 0 ∨ ((k : ℚ) - 1 / 2 < n / d ∧ (n : ℚ) / d < k + 1 / 2)) :
    roundHalfEven n d = k := by
  have hd' : (0 : ℚ) < d := by exact_mod_cast hd
  rw [div_eq_div_add_mod hd] at hlow hhigh h
  set q := n / d with hq
  set r := n % d with hr
  have hfraction : 0 ≤ (r : ℚ) / d ∧ (r : ℚ) / d < 1 :=
    ⟨by positivity, (div_lt_one hd').2 (by exact_mod_cast Nat.mod_lt n hd)⟩
  have hhalf : (2 * r < d ↔ (r : ℚ) / d < 1 / 2) ∧ (d < 2 * r ↔ 1 / 2 < (r : ℚ) / d) := by
    rw [div_lt_div_iff₀ hd' (by norm_num), div_lt_div_iff₀ (by norm_num) hd', one_mul, mul_comm (r : ℚ)]
    exact ⟨by exact_mod_cast Iff.rfl, by exact_mod_cast Iff.rfl⟩
  have hk : k = q ∨ k = q + 1 := by
    have h1 : (k : ℚ) < (q + 2 : Nat) := by push_cast; linarith
    have h2 : (q : ℚ) < (k + 1 : Nat) := by push_cast; linarith
    have h1 := Nat.cast_lt.1 h1
    have h2 := Nat.cast_lt.1 h2
    omega
  refine roundHalfEven_of_remainder hk (fun hk => ?_) (fun hk => ?_)
  · have hcast : (k : ℚ) = q := by exact_mod_cast hk
    have hle : ¬d < 2 * r := fun hlt => by linarith [hhalf.2.1 hlt]
    rcases h with heven | ⟨-, h⟩
    · omega
    · exact .inl (hhalf.1.2 (by linarith))
  · have hcast : (k : ℚ) = q + 1 := by exact_mod_cast hk
    have hge : ¬2 * r < d := fun hlt => by linarith [hhalf.1.1 hlt]
    rcases h with heven | ⟨h, -⟩
    · omega
    · exact .inl (hhalf.2.2 (by linarith))

/-! ## The numbers of an interval -/

theorem leadingBit_pos : 0 < leadingBit := by decide

/-- A pattern is made of the exponent and the significand. -/
theorem magnitude_eq (x : Binary64) :
    x.magnitude = (x.exponent + 1074).toNat * leadingBit + x.significand := by
  unfold exponent significand
  split
  · simp
  · next h =>
    have hdiv : 1 ≤ x.magnitude / leadingBit := (Nat.one_le_div_iff leadingBit_pos).2 (Nat.not_lt.1 h)
    have hmod := Nat.div_add_mod x.magnitude leadingBit
    rw [show (((x.magnitude / leadingBit : Nat) : Int) - 1075 + 1074).toNat = x.magnitude / leadingBit - 1 by
      omega]
    have hmul : (x.magnitude / leadingBit - 1) * leadingBit + leadingBit =
        leadingBit * (x.magnitude / leadingBit) := by
      rw [← Nat.succ_mul, Nat.succ_eq_add_one, Nat.sub_add_cancel hdiv, Nat.mul_comm]
    omega

theorem exponent_least (x : Binary64) : -1074 ≤ x.exponent := by
  unfold exponent
  split
  · exact le_refl _
  · next h =>
    have hdiv : 1 ≤ x.magnitude / leadingBit := (Nat.one_le_div_iff leadingBit_pos).2 (Nat.not_lt.1 h)
    omega

theorem significand_lt (x : Binary64) : x.significand < 2 * leadingBit := by
  unfold significand
  split
  · omega
  · have := Nat.mod_lt x.magnitude leadingBit_pos
    omega

theorem significand_full (x : Binary64) : x.exponent = -1074 ∨ leadingBit ≤ x.significand := by
  unfold exponent significand
  split
  · exact .inl rfl
  · exact .inr (Nat.le_add_left _ _)

theorem significand_pos (h : x.magnitude ≠ 0) : 0 < x.significand := by
  unfold significand
  split
  · exact Nat.pos_of_ne_zero h
  · exact Nat.add_pos_right _ leadingBit_pos

/-- The magnitude of a finite number. -/
def size (x : Binary64) : ℚ :=
  x.significand * 2 ^ x.exponent

/-- Where the distance to the next smaller number is halved, the bound below is at a quarter. -/
def gapBelow (x : Binary64) : ℚ :=
  if x.significand = leadingBit ∧ x.exponent ≠ -1074 then 1 / 4 else 1 / 2

def lowerBound (x : Binary64) : ℚ :=
  (x.significand - x.gapBelow) * 2 ^ x.exponent

def upperBound (x : Binary64) : ℚ :=
  (x.significand + 1 / 2) * 2 ^ x.exponent

/-- The magnitude is in the interval of the number: strictly, or on a bound of an even one. -/
structure RoundsTo (v : ℚ) (x : Binary64) : Prop where
  lower : x.lowerBound ≤ v
  upper : v ≤ x.upperBound
  inside : x.significand % 2 = 0 ∨ (x.lowerBound < v ∧ v < x.upperBound)

theorem gapBelow_le (x : Binary64) : x.gapBelow ≤ 1 / 2 := by
  unfold gapBelow
  split <;> norm_num

theorem ofRatio_of_fits (hfinite : x.isFinite = true) (hnum : num ≠ 0) (hden : 0 < den)
    (hfits : Fits ((num : ℚ) / den) e) {k : Nat}
    (hlow : (k : ℚ) - 1 / 2 ≤ num / den / 2 ^ e) (hhigh : (num : ℚ) / den / 2 ^ e ≤ k + 1 / 2)
    (hinside : k % 2 = 0 ∨ ((k : ℚ) - 1 / 2 < num / den / 2 ^ e ∧ (num : ℚ) / den / 2 ^ e < k + 1 / 2))
    (hmagnitude : x.magnitude = (e + 1074).toNat * leadingBit + k) : ofRatio x.negative num den = x := by
  have hexponent := (fits_exponentOf (Nat.pos_of_ne_zero hnum) hden).unique hfits
  rw [← unscale_div] at hlow hhigh hinside
  have hround := roundHalfEven_eq (unscale_pos hden e) hlow hhigh hinside
  have hmin : min x.magnitude infinityPattern = x.magnitude :=
    Nat.min_eq_left (Nat.le_of_lt (of_decide_eq_true hfinite))
  rw [ofRatio, if_neg hnum, hexponent]
  dsimp only
  rw [hround, ← hmagnitude, hmin]

/-- The interval, in units of the last place. -/
theorem RoundsTo.units (h : RoundsTo v x) :
    x.significand - x.gapBelow ≤ v / 2 ^ x.exponent ∧ v / 2 ^ x.exponent ≤ x.significand + 1 / 2 ∧
      (x.significand % 2 = 0 ∨
        x.significand - x.gapBelow < v / 2 ^ x.exponent ∧ v / 2 ^ x.exponent < x.significand + 1 / 2) := by
  have hpow : (0 : ℚ) < 2 ^ x.exponent := zpow_pos (by norm_num) _
  obtain ⟨hlower, hupper, hinside⟩ := h
  unfold lowerBound at hlower hinside
  unfold upperBound at hupper hinside
  rw [le_div_iff₀ hpow, div_le_iff₀ hpow, lt_div_iff₀ hpow, div_lt_iff₀ hpow]
  exact ⟨hlower, hupper, hinside⟩

/-- Below a significand that is least the numbers are twice as near to each other. -/
theorem ofRatio_of_halved (hfinite : x.isFinite = true) (hnum : num ≠ 0) (hden : 0 < den)
    (hleast : x.exponent ≠ -1074) (hleading : x.significand = leadingBit)
    (hlow : (leadingBit : ℚ) - 1 / 4 ≤ num / den / 2 ^ x.exponent)
    (hbelow : (num : ℚ) / den / 2 ^ x.exponent < leadingBit) : ofRatio x.negative num den = x := by
  have hbit : (leadingBit : ℚ) = 2 ^ 52 := by norm_num [leadingBit]
  have hhalf : (2 : ℚ) ^ (x.exponent - 1) = 2 ^ x.exponent / 2 := by
    rw [zpow_sub_one₀ (by norm_num), div_eq_mul_inv]
  have hpow : (0 : ℚ) < 2 ^ (x.exponent - 1) := zpow_pos (by norm_num) _
  have hdouble : (num : ℚ) / den / 2 ^ (x.exponent - 1) = 2 * (num / den / 2 ^ x.exponent) := by
    rw [hhalf]
    field_simp
  have hmagnitude : x.magnitude = (x.exponent - 1 + 1074).toNat * leadingBit + 2 * leadingBit := by
    have hleast' := exponent_least x
    rw [magnitude_eq x, hleading,
      show (x.exponent + 1074).toNat = (x.exponent - 1 + 1074).toNat + 1 by omega, Nat.succ_mul]
    omega
  have hfits : Fits ((num : ℚ) / den) (x.exponent - 1) := by
    have hleast' := exponent_least x
    refine ⟨by omega, ?_, .inr ?_⟩
    · rw [← div_lt_iff₀ hpow, hdouble]
      linarith
    · rw [← le_div_iff₀ hpow, hdouble]
      linarith
  refine ofRatio_of_fits hfinite hnum hden hfits ?_ ?_ (.inl (by decide)) hmagnitude
  · rw [hdouble]
    push_cast
    linarith
  · rw [hdouble]
    push_cast
    linarith

/-- What is in the interval of a number is rounded to the number. -/
theorem ofRatio_of_roundsTo (hfinite : x.isFinite = true) (hx : x.magnitude ≠ 0) (hden : 0 < den)
    (h : RoundsTo ((num : ℚ) / den) x) : ofRatio x.negative num den = x := by
  obtain ⟨hlow, hhigh, hinside⟩ := h.units
  have hpow : (0 : ℚ) < 2 ^ x.exponent := zpow_pos (by norm_num) _
  have hbit : (leadingBit : ℚ) = 2 ^ 52 := by norm_num [leadingBit]
  have hpos : (1 : ℚ) ≤ x.significand := by exact_mod_cast significand_pos hx
  have hlt : (x.significand : ℚ) + 1 ≤ 2 * leadingBit := by exact_mod_cast significand_lt x
  have hgap := gapBelow_le x
  have hnum : num ≠ 0 := by
    rintro rfl
    rw [Nat.cast_zero, zero_div, zero_div] at hlow
    linarith
  by_cases hfull : x.exponent = -1074 ∨ 2 ^ 52 * 2 ^ x.exponent ≤ (num : ℚ) / den
  · have hfits : Fits ((num : ℚ) / den) x.exponent := by
      refine ⟨exponent_least x, ?_, hfull⟩
      rw [← div_lt_iff₀ hpow]
      linarith
    exact ofRatio_of_fits hfinite hnum hden hfits (by linarith) hhigh
      (hinside.imp_right fun hbounds => ⟨by linarith [hbounds.1], hbounds.2⟩) (magnitude_eq x)
  · obtain ⟨hleast, hbelow⟩ := not_or.1 hfull
    have hbelow : (num : ℚ) / den / 2 ^ x.exponent < leadingBit := by
      rw [div_lt_iff₀ hpow, hbit]
      exact lt_of_not_ge hbelow
    have hleading : x.significand = leadingBit := by
      have hle := (significand_full x).resolve_left hleast
      have hge : (x.significand : ℚ) < (leadingBit + 1 : Nat) := by
        push_cast
        linarith
      have := Nat.cast_lt.1 hge
      omega
    rw [show x.gapBelow = 1 / 4 from if_pos ⟨hleading, hleast⟩, hleading] at hlow
    exact ofRatio_of_halved hfinite hnum hden hleast hleading hlow hbelow

end Binary64
end RestSql
