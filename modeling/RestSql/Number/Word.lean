/-!
Words of 64 bits: which numbers they hold, with a sign and without.
-/

namespace RestSql.Word

/-- Number of the words. -/
def count : Nat := 0x10000000000000000

/-- The natural numbers of the words without a sign. -/
def isUnsigned (n : Nat) : Bool :=
  n < count

/-- The integers of the words with a sign. -/
def isSigned (n : Int) : Bool :=
  -0x8000000000000000 ≤ n && n < 0x8000000000000000

theorem isUnsigned_of_isSigned {n : Nat} (h : isSigned n = true) : isUnsigned n = true := by
  simp only [isSigned, Bool.and_eq_true, decide_eq_true_eq] at h
  exact decide_eq_true (show n < 0x10000000000000000 by omega)

end RestSql.Word
