/-!
Bytes as texts of sixty-four digits, without padding. Main statement: what was encoded is decoded
(`decode?_encode`).
-/

namespace RestSql

/-- The digits for the values below sixty-four. -/
structure Base64 where
  digits : List Char

namespace Base64

/-- The capital letters, the small ones and the decimal digits. -/
def alphanumeric : List Char :=
  "ABCDEFGHIJKLMNOPQRSTUVWXYZabcdefghijklmnopqrstuvwxyz0123456789".toList

/-- With a plus sign and a slash. -/
def standard : Base64 := ⟨alphanumeric ++ ['+', '/']⟩

/-- With a hyphen and an underscore, which may stand in URLs. -/
def urlSafe : Base64 := ⟨alphanumeric ++ ['-', '_']⟩

def digit (b : Base64) (n : Nat) : Char :=
  (b.digits[n]?).getD '='

def value? (b : Base64) (c : Char) : Option Nat :=
  b.digits.findIdx? (· == c)

/-- The digits of bytes, four for every three of them. -/
def encode (b : Base64) : List Nat → List Char
  | x :: y :: z :: rest =>
    b.digit (x / 4) :: b.digit (x % 4 * 16 + y / 16) :: b.digit (y % 16 * 4 + z / 64) ::
      b.digit (z % 64) :: encode b rest
  | [x, y] => [b.digit (x / 4), b.digit (x % 4 * 16 + y / 16), b.digit (y % 16 * 4)]
  | [x] => [b.digit (x / 4), b.digit (x % 4 * 16)]
  | [] => []

/-- The bytes of values below sixty-four. Bits that no byte takes have to be zero. -/
def bytes? : List Nat → Option (List Nat)
  | p :: q :: r :: s :: rest =>
    (bytes? rest).map fun more =>
      (p * 4 + q / 16) :: (q % 16 * 16 + r / 4) :: (r % 4 * 64 + s) :: more
  | [p, q, r] => if r % 4 = 0 then some [p * 4 + q / 16, q % 16 * 16 + r / 4] else none
  | [p, q] => if q % 16 = 0 then some [p * 4 + q / 16] else none
  | [_] => none
  | [] => some []

/-- The bytes that the digits stand for. -/
def decode? (b : Base64) (cs : List Char) : Option (List Nat) :=
  (cs.mapM b.value?).bind bytes?

/-- Every value has a digit of its own. -/
def Distinct (b : Base64) : Prop :=
  ∀ n < 64, b.value? (b.digit n) = some n

theorem distinct_standard : Distinct standard := by
  unfold Distinct; decide +kernel

theorem distinct_urlSafe : Distinct urlSafe := by
  unfold Distinct; decide +kernel

theorem decode?_encode {b : Base64} (hb : b.Distinct) {bs : List Nat} (h : ∀ n ∈ bs, n < 256) :
    b.decode? (b.encode bs) = some bs := by
  fun_induction encode b bs with
  | case1 x y z rest ih =>
    have hx := h x (by simp)
    have hy := h y (by simp)
    have hz := h z (by simp)
    have ih := ih fun n hn => h n (by simp [hn])
    simp only [decode?, Option.bind_eq_some_iff] at ih ⊢
    obtain ⟨vs, hvs, hbs⟩ := ih
    refine ⟨x / 4 :: (x % 4 * 16 + y / 16) :: (y % 16 * 4 + z / 64) :: z % 64 :: vs, ?_, ?_⟩
    · simp [List.mapM_cons, hvs, hb _ (by omega : x / 4 < 64),
        hb _ (by omega : x % 4 * 16 + y / 16 < 64), hb _ (by omega : y % 16 * 4 + z / 64 < 64),
        hb _ (by omega : z % 64 < 64)]
    · simp only [bytes?, hbs, Option.map_some, Option.some.injEq, List.cons.injEq, and_true]
      refine ⟨?_, ?_, ?_⟩ <;> omega
  | case2 x y =>
    have hx := h x (by simp)
    have hy := h y (by simp)
    simp only [decode?, Option.bind_eq_some_iff]
    refine ⟨[x / 4, x % 4 * 16 + y / 16, y % 16 * 4], ?_, ?_⟩
    · simp [List.mapM_cons, hb _ (by omega : x / 4 < 64),
        hb _ (by omega : x % 4 * 16 + y / 16 < 64), hb _ (by omega : y % 16 * 4 < 64)]
    · have : y % 16 * 4 % 4 = 0 := by omega
      simp only [bytes?, this, if_true, Option.some.injEq, List.cons.injEq, and_true]
      refine ⟨?_, ?_⟩ <;> omega
  | case3 x =>
    have hx := h x (by simp)
    simp only [decode?, Option.bind_eq_some_iff]
    refine ⟨[x / 4, x % 4 * 16], ?_, ?_⟩
    · simp [List.mapM_cons, hb _ (by omega : x / 4 < 64), hb _ (by omega : x % 4 * 16 < 64)]
    · have : x % 4 * 16 % 16 = 0 := by omega
      simp only [bytes?, this, if_true, Option.some.injEq, List.cons.injEq, and_true]
      omega
  | case4 => rfl

end Base64
end RestSql
