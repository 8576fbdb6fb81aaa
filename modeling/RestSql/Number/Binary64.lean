/-!
Binary floating point numbers of 64 bits (IEEE 754), by sign and magnitude pattern, with exact
rounding of quotients. The magnitude patterns are ordered as the magnitudes are, so `rank` orders the
numbers: `compare?` is the order of the ranks.
-/

namespace RestSql

/-- A 64-bit binary number: its sign, and the 63 bits of its magnitude read as a natural number. -/
structure Binary64 where
  negative : Bool
  magnitude : Nat
  deriving DecidableEq, Repr, Inhabited

namespace Binary64

/-- The leading bit of the 53 bits of an integer, of which 52 are written. -/
def leadingBit : Nat := 0x10000000000000

/-- The pattern of infinity; larger ones stand for no number. -/
def infinityPattern : Nat := 2047 * leadingBit

def zero : Binary64 := ⟨false, 0⟩

def infinity : Binary64 := ⟨false, infinityPattern⟩

/-- The value that is no number. -/
def nan : Binary64 := ⟨false, infinityPattern + leadingBit / 2⟩

def isNaN (x : Binary64) : Bool :=
  infinityPattern < x.magnitude

def isFinite (x : Binary64) : Bool :=
  x.magnitude < infinityPattern

/-- The integer `m` of the finite magnitude `m · 2 ^ e`. -/
def significand (x : Binary64) : Nat :=
  if x.magnitude < leadingBit then x.magnitude else x.magnitude % leadingBit + leadingBit

/-- The exponent `e` of the finite magnitude `m · 2 ^ e`. -/
def exponent (x : Binary64) : Int :=
  if x.magnitude < leadingBit then -1074 else (x.magnitude / leadingBit : Nat) - 1075

/-- The position of a number in the order of the numbers; both zeros have the same. -/
def rank (x : Binary64) : Int :=
  if x.negative then -(x.magnitude : Int) else x.magnitude

/-- The order of two numbers; none with the value that is no number. -/
def compare? (x y : Binary64) : Option Ordering :=
  if x.isNaN || y.isNaN then none else some (compare x.rank y.rank)

/-- `num / den` rounded to the nearest integer, a half to the even neighbour. -/
def roundHalfEven (num den : Nat) : Nat :=
  let q := num / den
  let r := num % den
  if 2 * r > den || (2 * r == den && q % 2 == 1) then q + 1 else q

/-- `n · 2 ^ -e` as a quotient of natural numbers. -/
def unscale (num den : Nat) (e : Int) : Nat × Nat :=
  if 0 ≤ e then (num, den * Nat.pow 2 e.toNat) else (num * Nat.pow 2 (-e).toNat, den)

/-- The exponent at which the quotient `num / den` has its 53 significant bits, or the least one. -/
def exponentOf (num den : Nat) : Int :=
  let e : Int := max ((num.log2 : Int) - den.log2 - 53) (-1074)
  let (n, d) := unscale num den e
  if n / d ≥ 2 * leadingBit then e + 1 else e

/-- The number nearest to `num / den`, a half to the even neighbour; `den` is not zero. -/
def ofRatio (negative : Bool) (num den : Nat) : Binary64 :=
  if num = 0 then ⟨negative, 0⟩
  else
    let e := exponentOf num den
    let (n, d) := unscale num den e
    ⟨negative, min ((e + 1074).toNat * leadingBit + roundHalfEven n d) infinityPattern⟩

/-- The number nearest to `digits · 10 ^ exp`. -/
def ofDecimal (negative : Bool) (digits : Nat) (exp : Int) : Binary64 :=
  if digits = 0 then ⟨negative, 0⟩
  else
    let top : Int := (Nat.toDigits 10 digits).length + exp
    if top < -400 then ⟨negative, 0⟩
    else if top > 400 then ⟨negative, infinityPattern⟩
    else if 0 ≤ exp then ofRatio negative (digits * Nat.pow 10 exp.toNat) 1
    else ofRatio negative digits (Nat.pow 10 (-exp).toNat)

def ofInt (n : Int) : Binary64 :=
  ofRatio (n < 0) n.natAbs 1

/-- The finite magnitude as a quotient. -/
def toRatio (x : Binary64) : Nat × Nat :=
  unscale x.significand 1 (-x.exponent)

/-- The rounded product of finite numbers. -/
def mul (x y : Binary64) : Binary64 :=
  let (a, b) := x.toRatio
  let (c, d) := y.toRatio
  ofRatio (x.negative != y.negative) (a * c) (b * d)

/-- The rounded quotient of finite numbers; `y` is not zero. -/
def div (x y : Binary64) : Binary64 :=
  let (a, b) := x.toRatio
  let (c, d) := y.toRatio
  ofRatio (x.negative != y.negative) (a * d) (b * c)

theorem compare?_eq_some {x y : Binary64} (hx : x.isNaN = false) (hy : y.isNaN = false) :
    compare? x y = some (compare x.rank y.rank) := by
  simp [compare?, hx, hy]

example : ofDecimal false 1 (-1) = ⟨false, 0x3FB999999999999A⟩ := by decide +kernel
example : ofInt (-3) = ⟨true, 0x4008000000000000⟩ := by decide +kernel
example : ofDecimal false 5 (-324) = ⟨false, 1⟩ := by decide +kernel
example : ofDecimal false 17976931348623159 292 = infinity := by decide +kernel

end Binary64
end RestSql
