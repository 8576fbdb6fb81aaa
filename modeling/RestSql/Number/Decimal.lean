import RestSql.Number.Binary64

/-!
Decimal digits of natural numbers, and the shortest decimal digits that read back as a given binary
number. The digits are those of the nearest point of the coarsest decimal grid that has a point
within the numbers that round to the given one.
-/

namespace RestSql

/-- The decimal digits of a natural number. -/
def Text.ofNat (n : Nat) : String :=
  String.ofList (Nat.toDigits 10 n)

/-- The decimal text of an integer. -/
def Text.ofInt (n : Int) : String :=
  if n < 0 then "-" ++ Text.ofNat n.natAbs else Text.ofNat n.natAbs

theorem Text.toList_ofInt_of_neg {n : Int} (h : n < 0) :
    (ofInt n).toList = '-' :: Nat.toDigits 10 n.natAbs := by
  simp [ofInt, ofNat, h]

theorem Text.toList_ofInt_of_nonneg {n : Int} (h : ¬n < 0) :
    (ofInt n).toList = Nat.toDigits 10 n.natAbs := by
  simp [ofInt, ofNat, h]

/-- Which of two equally near decimals is taken. -/
inductive DecimalTie
  | even
  | up
  deriving DecidableEq, Repr

/-- The decimal number `0.d₁d₂… · 10 ^ point`. -/
structure Decimal where
  digits : List Char
  point : Int
  deriving DecidableEq, Repr

namespace Binary64

/-- Twice the magnitude, and twice the bounds of the magnitudes that round to it, over a common
denominator. -/
structure Interval where
  low : Nat
  mid : Nat
  high : Nat
  den : Nat
  /-- The bounds themselves round to the number. -/
  closed : Bool

/-- The magnitudes that round to the finite number `x`. -/
def interval (x : Binary64) : Interval :=
  let m := x.significand
  let (_, den) := unscale 0 4 (-x.exponent)
  let scale := if 0 ≤ x.exponent then Nat.pow 2 x.exponent.toNat else 1
  let below := if m = leadingBit ∧ x.exponent ≠ -1074 then 1 else 2
  { low := (4 * m - below) * scale, mid := 4 * m * scale, high := (4 * m + 2) * scale
    den, closed := m % 2 == 0 }

/-- `n / d` lies in the interval. -/
def Interval.contains (i : Interval) (n d : Nat) : Bool :=
  if i.closed then i.low * d ≤ n * i.den && n * i.den ≤ i.high * d
  else i.low * d < n * i.den && n * i.den < i.high * d

/-- The multiple of `num / den` nearest to the middle of the interval, if it lies in the interval. -/
def Interval.onGrid? (i : Interval) (tie : DecimalTie) (num den : Nat) : Option Nat :=
  let n := i.mid * den
  let d := i.den * num
  let q := n / d
  let r := n % d
  let inLow := q ≠ 0 && i.contains (q * num) den
  let inHigh := i.contains ((q + 1) * num) den
  let lowFirst := 2 * r < d || (2 * r == d && tie == .even && q % 2 == 0)
  match inLow, inHigh with
  | true, true => some (if lowFirst then q else q + 1)
  | true, false => some q
  | false, true => some (q + 1)
  | false, false => none

/-- The least `k` with the magnitude `num / den` below `10 ^ k`, searched downwards from `k`. -/
def decimalPoint (num den : Nat) : Nat → Int → Int
  | 0, k => k
  | fuel + 1, k =>
    let (n, d) :=
      if 0 ≤ k - 1 then (num, den * Nat.pow 10 (k - 1).toNat) else (num * Nat.pow 10 (1 - k).toNat, den)
    if n < d then decimalPoint num den fuel (k - 1) else k

/-- The coarsest grid with a hit, from `count` digits on. -/
def shortestFrom (i : Interval) (tie : DecimalTie) (point : Int) : Nat → Int → Nat × Int
  | 0, count =>
    let e := point - count
    ((i.onGrid? tie 1 1).getD 1, e)
  | fuel + 1, count =>
    let e := point - count
    let hit :=
      if 0 ≤ e then i.onGrid? tie (Nat.pow 10 e.toNat) 1 else i.onGrid? tie 1 (Nat.pow 10 (-e).toNat)
    match hit with
    | some q => (q, e)
    | none => shortestFrom i tie point fuel (count + 1)

/-- Digits without their trailing zeros. -/
def significantDigits (q : Nat) : List Char :=
  ((Nat.toDigits 10 q).reverse.dropWhile (· == '0')).reverse

/-- The fewest digits that read back as the finite magnitude of `x`, the nearest of those. -/
def shortest (tie : DecimalTie) (x : Binary64) : Decimal :=
  if x.magnitude = 0 then ⟨['0'], 1⟩
  else
    let i := x.interval
    let guess : Int := (x.exponent + (x.significand.log2 : Int) + 1) * 30103 / 100000 + 2
    let point := decimalPoint i.mid i.den 8 guess
    let (q, e) := shortestFrom i tie point 17 1
    ⟨significantDigits q, e + (Nat.toDigits 10 q).length⟩

end Binary64

/-- How a decimal number is written: between which positions of its point it is written without an
exponent, and what follows a number without a fraction. -/
structure DecimalLayout where
  tie : DecimalTie
  /-- Positions of the point, both included, without an exponent; always so if there are none. -/
  positional : Option (Int × Int)
  /-- What follows the digits of a number without a fraction. -/
  wholeEnd : String
  infinite : String
  notANumber : String

namespace DecimalLayout

/-- The digits with the point set after the first `point` of them. -/
def place (l : DecimalLayout) (d : Decimal) : String :=
  let n : Int := d.digits.length
  if d.point ≤ 0 then
    "0." ++ String.ofList (List.replicate (-d.point).toNat '0' ++ d.digits)
  else if n ≤ d.point then
    String.ofList (d.digits ++ List.replicate (d.point - n).toNat '0') ++ l.wholeEnd
  else
    String.ofList (d.digits.take d.point.toNat) ++ "." ++ String.ofList (d.digits.drop d.point.toNat)

/-- One digit before the point, and an exponent. -/
def scientific (d : Decimal) : String :=
  let head := String.ofList (d.digits.take 1)
  let tail := d.digits.drop 1
  let e := d.point - 1
  head ++ (if tail.isEmpty then "" else "." ++ String.ofList tail) ++
    (if e < 0 then "e-" else "e+") ++ Text.ofNat e.natAbs

/-- The text of a binary number. -/
def write (l : DecimalLayout) (x : Binary64) : String :=
  if x.isNaN then l.notANumber
  else
    let sign := if x.negative then "-" else ""
    if !x.isFinite then sign ++ l.infinite
    else
      let d := x.shortest l.tie
      let positional := match l.positional with
        | none => true
        | some (lo, hi) => x.magnitude = 0 || (lo ≤ d.point && d.point ≤ hi)
      sign ++ (if positional then l.place d else scientific d)

end DecimalLayout
end RestSql
