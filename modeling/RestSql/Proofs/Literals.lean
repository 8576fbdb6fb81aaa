import RestSql.Proofs.ExpressionReading
import RestSql.Sql.Statement.Reader

/-!
# Literals in a list

A literal is an expression up to the comma that follows it or the end of the text, whatever spaces stand
before it (`Expr.read_of_literal`). Integers are read back from their digits (`literal_ofInt`).
-/

namespace RestSql.Sql

open Json (digits_toDigits exists_ofInt exists_toDigits ne_of_numeric skipSpace_of_not_isSpace)

/-! ## Expressions that are a literal -/

/-- The text is at its end, or a comma comes next. -/
def Stops (rest : List Char) : Prop :=
  ∀ c ∈ rest.head?, c = ','

theorem stops_nil : Stops [] := nofun

theorem stops_comma (rest : List Char) : Stops (',' :: rest) := by
  intro c hc
  cases hc
  rfl

variable {rest : List Char}

theorem Stops.closes (h : Stops rest) : Closes rest :=
  fun c hc => .inl (h c hc)

namespace Expr

variable {cs : List Char} {l : Literal}

/-- A literal with spaces before it is an expression up to the next comma or the end. -/
theorem read_of_literal {c : Char} {more : List Char} (hskip : skipSpace cs = c :: more)
    (hparen : c ≠ '(') (hupper : c.toUpper ≠ 'N')
    (h : Sql.literal (c :: more) = some (l, rest)) (hrest : Stops rest) :
    read cs = some (.literal l, rest) := by
  have hspace : isSpace c = false := by
    have hhead := List.head?_dropWhile_not isSpace cs
    rw [show cs.dropWhile isSpace = c :: more from hskip] at hhead
    simpa using hhead
  have hnot : keyword "NOT" cs = none := by
    have hnone : keyword "NOT" (c :: more) = none :=
      Sql.keyword_eq_none "NOT" rfl hspace hupper more
    rw [keyword, skipSpace_of_not_isSpace hspace] at hnone
    rw [keyword, hskip]
    exact hnone
  have htest : test (readWithin cs.length) cs = some (.literal l, rest) :=
    test_of_operand (operand_of_literal hskip hparen h) hrest.closes.endsTest
  exact chain_of_item hrest.closes.no_or (chain_of_item hrest.closes.no_and (negation_of_test hnot htest _))

end Expr

/-! ## Integers -/

theorem numberOf?_toDigits {n : Int} (h : Word.isSigned n = true) :
    numberOf? (decide (n < 0)) (Nat.toDigits 10 n.natAbs) none = some (.integer n) := by
  have hvalue : (if decide (n < 0) = true then -(n.natAbs : Int) else n.natAbs) = n := by
    by_cases hn : n < 0
    · rw [if_pos (decide_eq_true hn)]
      omega
    · rw [if_neg (by simp [hn])]
      omega
  simp only [numberOf?, Text.naturalOf_toDigits, hvalue]
  exact if_pos h

theorem sign_ofInt (n : Int) (rest : List Char) :
    Reader.optional (Reader.one '-') ((Text.ofInt n).toList ++ rest) =
      (if n < 0 then some '-' else none, Nat.toDigits 10 n.natAbs ++ rest) := by
  by_cases hn : n < 0
  · simp [Text.toList_ofInt_of_neg hn, hn, Reader.optional, Reader.one, Reader.satisfying]
  · obtain ⟨c, ds, hds, hc, -⟩ := exists_toDigits n.natAbs
    have hsign : c ≠ '-' := by
      rintro rfl
      cases hc
    simp [Text.toList_ofInt_of_nonneg hn, hn, hds, Reader.optional, Reader.one, Reader.satisfying, hsign]

theorem number_ofInt {n : Int} (h : Word.isSigned n = true) (hrest : Follows rest) :
    number ((Text.ofInt n).toList ++ rest) = some (.integer n, rest) := by
  have hdigits : Reader.digits (Nat.toDigits 10 n.natAbs ++ rest) =
      some (Nat.toDigits 10 n.natAbs, rest) :=
    digits_toDigits hrest.head_not_digit
  have hpoint : Reader.optional (Reader.after (Reader.one '.') Reader.digits) rest =
      (none, rest) := by
    rcases hrest.cases with rfl | ⟨c, more, rfl, rfl | rfl | rfl⟩ <;> rfl
  have hsign : (if n < 0 then some '-' else none).isSome = decide (n < 0) := by
    by_cases hn : n < 0 <;> simp [hn]
  simp only [number, sign_ofInt, Option.bind_eq_bind, hdigits, Option.bind_some, hpoint, hrest.atWordEnd,
    if_true, hsign, numberOf?_toDigits h]

theorem numeric_of_mem_ofInt {n : Int} {c : Char} (h : c ∈ (Text.ofInt n).toList) :
    c.isDigit = true ∨ c = '-' := by
  have hdigit : c ∈ Nat.toDigits 10 n.natAbs → c.isDigit = true :=
    Text.isDigit_of_mem_toDigits
  by_cases hn : n < 0
  · rw [Text.toList_ofInt_of_neg hn] at h
    exact (List.mem_cons.1 h).symm.imp_left hdigit
  · rw [Text.toList_ofInt_of_nonneg hn] at h
    exact .inl (hdigit h)

theorem toNat_of_isDigit {c : Char} (h : c.isDigit = true) : 48 ≤ c.toNat ∧ c.toNat ≤ 57 :=
  Char.isDigit_iff_toNat.1 h

theorem toUpper_of_numeric {c : Char} (h : c.isDigit = true ∨ c = '-') : c.toUpper = c := by
  rcases h with h | rfl
  · have hlower : ¬('a'.val ≤ c.val ∧ c.val ≤ 'z'.val) := by
      rintro ⟨hle, -⟩
      have hnat : 97 ≤ c.toNat := UInt32.le_iff_toNat_le.1 hle
      have := (toNat_of_isDigit h).2
      omega
    exact dif_neg hlower
  · rfl

theorem isBlank_of_numeric {c : Char} (h : c.isDigit = true ∨ c = '-') : Text.isBlank c = false := by
  rcases h with h | rfl
  · obtain ⟨hlow, hhigh⟩ := toNat_of_isDigit h
    simp only [Text.isBlank, Bool.or_eq_false_iff, Bool.and_eq_false_iff, decide_eq_false_iff_not,
      beq_eq_false_iff_ne]
    omega
  · decide

/-- A number is no text in quotes. -/
theorem literal_of_number {l : Literal} {c : Char} (hc : c.isDigit = true ∨ c = '-') {cs : List Char}
    (h : number (c :: cs) = some (l, rest)) : literal (c :: cs) = some (l, rest) := by
  have hquote : (c = '\x27' || c = '\x22') = false := by
    simp [ne_of_numeric hc (d := '\x27') (by decide), ne_of_numeric hc (d := '\x22') (by decide)]
  have hstring : stringLiteral (c :: cs) = none := by
    rw [stringLiteral, hquote]
    rfl
  simp [literal, Reader.orElse, Reader.map, hstring, h]

theorem literal_ofInt {n : Int} (h : Word.isSigned n = true) (hrest : Follows rest) :
    literal ((Text.ofInt n).toList ++ rest) = some (.integer n, rest) := by
  obtain ⟨c, cs, htext, hc⟩ := exists_ofInt n
  have hread := number_ofInt h hrest
  rw [htext, List.cons_append] at hread ⊢
  exact literal_of_number hc hread

end RestSql.Sql
