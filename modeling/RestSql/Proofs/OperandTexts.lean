import RestSql.Proofs.BareNames
import RestSql.Proofs.StringLiterals

/-!
# Operands and their texts

The canonical text of an expression has its names in back quotes, the quotes in its strings doubled, and
every operand that is no literal, column or call in parentheses (`Expr.canonical`). Names and literals are
read back from it where an operand stands (`isOperand_column`, `isOperand_literal`), and a name is not
taken for a literal (`literal_name_eq_none`).
-/

namespace RestSql.Sql

open Json (skipSpace_of_not_isSpace)

/-! ## Names -/

/-- The name in back quotes. -/
def backQuoted (name : String) : List Char :=
  '\x60' :: (name.toList ++ ['\x60'])

/-- A name that can stand in back quotes. -/
def isQuotable (name : String) : Bool :=
  !name.toList.isEmpty && name.toList.all (· != '\x60')

/-- The words that cannot name a function. -/
def operandWords : List String :=
  ["NOT", "TRUE", "FALSE", "NULL"]

/-- The words that stand for literals. -/
def literalWords : List String :=
  ["TRUE", "FALSE", "NULL"]

/-- A bare name that can name a function. -/
def isFunctionName (name : String) : Bool :=
  isBareName name && !operandWords.contains (Text.upper name)

variable {name : String} {rest : List Char}

theorem quotedName_backQuoted (h : isQuotable name = true) (rest : List Char) :
    quotedName (backQuoted name ++ rest) = some (name, rest) := by
  rw [isQuotable, Bool.and_eq_true, Bool.not_eq_true'] at h
  obtain ⟨hne, hquotes⟩ := h
  obtain ⟨c, cs, hname⟩ := List.exists_cons_of_ne_nil (List.isEmpty_eq_false_iff.1 hne)
  have hcut : Text.cutFirst (· == '\x60') (name.toList ++ '\x60' :: rest) = some (name.toList, rest) := by
    refine Text.cutFirst_append_cons (fun c hc => ?_) rfl rest
    simpa using List.all_eq_true.1 hquotes c hc
  rw [backQuoted, List.cons_append, List.append_assoc, List.singleton_append, quotedName, if_pos rfl, hcut,
    hname]
  dsimp only
  rw [← hname, String.ofList_toList]

theorem columnName_backQuoted (h : isQuotable name = true) (rest : List Char) :
    columnName (backQuoted name ++ rest) = some (name, rest) := by
  have hskip : skipSpace (backQuoted name ++ rest) = backQuoted name ++ rest := rfl
  rw [columnName, hskip, Reader.orElse, quotedName_backQuoted h]

/-- What can follow a name without quotes. -/
def EndsName (rest : List Char) : Prop :=
  ∀ c ∈ rest.head?, (c = ' ' ∨ c = ',' ∨ c = ')') ∨ c = '(' ∨ c = '.'

theorem EndsName.atWordEnd (h : EndsName rest) : atWordEnd rest = true := by
  cases rest with
  | nil => rfl
  | cons c rest => rcases h c rfl with (rfl | rfl | rfl) | rfl | rfl <;> rfl

theorem endsName_cons {c : Char} (h : c = '(' ∨ c = '.') (rest : List Char) : EndsName (c :: rest) := by
  rintro d ⟨⟩
  exact .inr h

theorem Follows.endsName (h : Follows rest) : EndsName rest :=
  fun c hc => .inl (h.head c hc)

/-- What ends a name is no letter of a word. -/
theorem EndsName.not_mem (h : EndsName rest) {word : String} (hword : word ∈ operandWords) :
    ∀ c ∈ rest.head?, c.toUpper ∉ word.toList := by
  intro c hc
  simp only [operandWords, List.mem_cons, List.not_mem_nil, or_false] at hword
  rcases hword with rfl | rfl | rfl | rfl <;>
    rcases h c hc with (rfl | rfl | rfl) | rfl | rfl <;> decide

theorem atWordEnd_of_afterWord? {word cs : List Char} (hcs : ∀ c ∈ cs, isNameChar c = true)
    (hrest : ∀ c ∈ rest.head?, c.toUpper ∉ word) (hne : cs.map Char.toUpper ≠ word) {more : List Char}
    (h : afterWord? word (cs ++ rest) = some more) : atWordEnd more = false := by
  induction cs generalizing word with
  | nil =>
      cases word with
      | nil => exact absurd rfl hne
      | cons w word =>
          cases rest with
          | nil => cases h
          | cons c rest =>
              rw [List.nil_append, afterWord?] at h
              have hw : w ≠ c.toUpper := fun heq => hrest c rfl (heq ▸ List.mem_cons_self)
              rw [if_neg hw] at h
              cases h
  | cons c cs ih =>
      obtain ⟨hc, hcs⟩ := List.forall_mem_cons.1 hcs
      cases word with
      | nil =>
          cases h
          simp [atWordEnd, hc]
      | cons w word =>
          rw [List.cons_append, afterWord?] at h
          split at h
          · next hw =>
            refine ih hcs (fun d hd hmem => hrest d hd (List.mem_cons_of_mem _ hmem)) (fun heq => hne ?_) h
            rw [List.map_cons, heq, hw]
          · cases h

/-- A keyword that is not the name is not read where a name starts. -/
theorem keyword_name_eq_none (h : isBareName name = true) {word : String} (hword : word ∈ operandWords)
    (hne : Text.upper name ≠ word) (hrest : EndsName rest) : keyword word (name.toList ++ rest) = none := by
  obtain ⟨c, cs, hname, hc, -⟩ := exists_of_isBareName h
  have hskip : skipSpace (name.toList ++ rest) = name.toList ++ rest := by
    rw [hname, List.cons_append]
    exact skipSpace_of_not_isSpace (isSpace_of_isNameChar (isNameChar_of_isNameStart hc)) _
  have hupper : name.toList.map Char.toUpper ≠ word.toList := by
    intro heq
    refine hne (String.toList_inj.1 ?_)
    rw [Text.upper, String.toList_map, heq]
  rw [keyword, hskip]
  split
  · next more hmore =>
    have hend := atWordEnd_of_afterWord? (fun c hc => isNameChar_of_mem h hc) (hrest.not_mem hword) hupper
      hmore
    rw [hend, if_neg Bool.false_ne_true]
  · rfl

theorem isBareName_of_isFunctionName (h : isFunctionName name = true) : isBareName name = true :=
  (Bool.and_eq_true_iff.1 h).1

theorem upper_ne_of_isFunctionName (h : isFunctionName name = true) {word : String}
    (hword : word ∈ operandWords) : Text.upper name ≠ word := by
  rintro rfl
  have hcontains := (Bool.and_eq_true_iff.1 h).2
  simp [hword] at hcontains

theorem Literal.toList_quote (s : String) : (quote s).toList = quotedText '\x27' s.toList := by
  simp [quote, quotedText, doubled]

namespace Expr

/-! ## Texts -/

/-- The expression is more than one operand. -/
def isCompound : Expr → Bool
  | column _ _ | literal _ | call _ _ => false
  | _ => true

/-- The text in parentheses if the expression is more than one operand. -/
def enclosed (e : Expr) (text : List Char) : List Char :=
  if e.isCompound then '(' :: (text ++ [')']) else text

mutual

/-- The canonical text. -/
def canonical : Expr → List Char
  | column (some q) name => backQuoted q ++ '.' :: backQuoted name
  | column none name => backQuoted name
  | literal l => l.text.toList
  | comparison l op r =>
    l.enclosed (canonical l) ++ ' ' :: (op.text.toList ++ ' ' :: r.enclosed (canonical r))
  | and l r => l.enclosed (canonical l) ++ (" and ".toList ++ r.enclosed (canonical r))
  | or l r => l.enclosed (canonical l) ++ (" or ".toList ++ r.enclosed (canonical r))
  | not e => "not ".toList ++ e.enclosed (canonical e)
  | isNull e negated =>
    e.enclosed (canonical e) ++ (if negated then " is not null" else " is null").toList
  | call f args => f.toList ++ '(' :: (List.intercalate ", ".toList (canonicalAll args) ++ [')'])

def canonicalAll : List Expr → List (List Char)
  | [] => []
  | e :: es => canonical e :: canonicalAll es

end

/-- The canonical text where an operand stands. -/
def operandText (e : Expr) : List Char :=
  e.enclosed e.canonical

theorem operandText_of_compound {e : Expr} (h : e.isCompound = true) :
    e.operandText = '(' :: (e.canonical ++ [')']) :=
  if_pos h

theorem operandText_of_not_compound {e : Expr} (h : e.isCompound = false) :
    e.operandText = e.canonical :=
  if_neg (Bool.eq_false_iff.1 h)

section

variable (l r e : Expr)

theorem canonical_comparison (op : CompareOp) : (comparison l op r).canonical =
    l.operandText ++ ' ' :: (op.text.toList ++ ' ' :: r.operandText) := by
  rw [canonical]
  rfl

theorem canonical_and :
    (and l r).canonical = l.operandText ++ (" and ".toList ++ r.operandText) := by
  rw [canonical]
  rfl

theorem canonical_or :
    (or l r).canonical = l.operandText ++ (" or ".toList ++ r.operandText) := by
  rw [canonical]
  rfl

theorem canonical_not : (not e).canonical = "not ".toList ++ e.operandText := by
  rw [canonical]
  rfl

theorem canonical_isNull (negated : Bool) : (isNull e negated).canonical =
    e.operandText ++ (if negated then " is not null" else " is null").toList := by
  rw [canonical]
  rfl

end

mutual

/-- The names can stand in back quotes or before parentheses, and the numbers are integers of 64 bits. -/
def isSpellable : Expr → Bool
  | column q name => q.all isQuotable && isQuotable name
  | literal (.float _) => false
  | literal (.integer n) => Word.isSigned n
  | literal _ => true
  | comparison l _ r => isSpellable l && isSpellable r
  | and l r => isSpellable l && isSpellable r
  | or l r => isSpellable l && isSpellable r
  | not e => isSpellable e
  | isNull e _ => isSpellable e
  | call f args => isFunctionName f && areSpellable args

def areSpellable : List Expr → Bool
  | [] => true
  | e :: es => isSpellable e && areSpellable es

end

theorem canonicalAll_eq (es : List Expr) : canonicalAll es = es.map canonical := by
  induction es with
  | nil => rfl
  | cons e es ih => rw [canonicalAll, ih, List.map_cons]

theorem areSpellable_iff {es : List Expr} :
    areSpellable es = true ↔ ∀ e ∈ es, isSpellable e = true := by
  induction es with
  | nil => simp [areSpellable]
  | cons e es ih => simp [areSpellable, ih]

/-- What holds of every operand of an expression and then of it, holds of all expressions. -/
theorem induction {P : Expr → Prop} (column : ∀ q name, P (column q name))
    (literal : ∀ l, P (literal l)) (comparison : ∀ l op r, P l → P r → P (comparison l op r))
    (and : ∀ l r, P l → P r → P (and l r)) (or : ∀ l r, P l → P r → P (or l r)) (not : ∀ e, P e → P (not e))
    (isNull : ∀ e negated, P e → P (isNull e negated))
    (call : ∀ f args, (∀ e ∈ args, P e) → P (call f args)) (e : Expr) : P e :=
  @Expr.rec P (fun es => ∀ e ∈ es, P e) column literal comparison and or not isNull call
    (fun _ h => absurd h List.not_mem_nil) (fun _ _ he hes => List.forall_mem_cons.2 ⟨he, hes⟩) e

/-! ## Operands -/

variable {inner : Reader Expr} {e : Expr}

/-- The text is read as the expression where an operand stands. -/
def IsOperand (inner : Reader Expr) (text : List Char) (e : Expr) : Prop :=
  ∀ rest, Follows rest → operand inner (text ++ rest) = some (e, rest)

theorem operand_backQuoted (name : String) (rest : List Char) :
    operand inner (backQuoted name ++ rest) = columnRef (backQuoted name ++ rest) :=
  operand_of_name (by decide) (by decide) rfl

theorem isOperand_column {q : Option String} (h : (column q name).isSpellable = true) :
    IsOperand inner (column q name).canonical (column q name) := by
  intro rest hrest
  rw [isSpellable, Bool.and_eq_true] at h
  obtain ⟨hq, hname⟩ := h
  cases q with
  | none =>
      have hdot : Reader.one '.' rest = none := by
        rcases hrest.cases with rfl | ⟨c, cs, rfl, rfl | rfl | rfl⟩ <;> rfl
      rw [canonical, operand_backQuoted, columnRef, columnName_backQuoted hname]
      simp [Reader.optional, Reader.after, hdot]
  | some q =>
      have hdot (cs : List Char) : Reader.one '.' ('.' :: cs) = some ('.', cs) := rfl
      rw [canonical, List.append_assoc, List.cons_append, operand_backQuoted, columnRef,
        columnName_backQuoted hq]
      simp [Reader.optional, Reader.after, hdot, Reader.orElse, quotedName_backQuoted hname]

theorem literal_of_word {cs : List Char} (hstring : stringLiteral cs = none) (hnumber : number cs = none) :
    (keyword "TRUE" cs = some ((), rest) → Sql.literal cs = some (.bool true, rest)) ∧
      (keyword "TRUE" cs = none → keyword "FALSE" cs = some ((), rest) →
        Sql.literal cs = some (.bool false, rest)) ∧
      (keyword "TRUE" cs = none → keyword "FALSE" cs = none → keyword "NULL" cs = some ((), rest) →
        Sql.literal cs = some (.null, rest)) := by
  refine ⟨fun h => ?_, fun htrue h => ?_, fun htrue hfalse h => ?_⟩
  · simp [Sql.literal, Reader.orElse, Reader.map, hstring, hnumber, h]
  · simp [Sql.literal, Reader.orElse, Reader.map, hstring, hnumber, htrue, h]
  · simp [Sql.literal, Reader.orElse, Reader.map, hstring, hnumber, htrue, hfalse, h]

theorem literal_text {l : Literal} (h : (literal l).isSpellable = true) (hrest : Follows rest) :
    Sql.literal (l.text.toList ++ rest) = some (l, rest) := by
  have hword {word text : String} (hne : text.toList ≠ [])
      (h : text.toList.map Char.toUpper = word.toList) (hspace : text.toList.all (!isSpace ·) = true) :
      keyword word (text.toList ++ rest) = some ((), rest) :=
    keyword_of_upper hne h hspace hrest.atWordEnd
  cases l with
  | string s =>
      have hquote : rest.head? ≠ some '\x27' := hrest.head_ne (by decide) (by decide) (by decide)
      have hread := stringLiteral_quotedText (.inl rfl) hquote s
      rw [Literal.text, Literal.toList_quote]
      simp [Sql.literal, Reader.orElse, Reader.map, hread]
  | integer n => exact literal_ofInt h hrest
  | float x => cases h
  | bool b =>
      cases b with
      | true => exact (literal_of_word rfl rfl).1 (hword (by decide) (by decide) (by decide))
      | false => exact (literal_of_word rfl rfl).2.1 rfl (hword (by decide) (by decide) (by decide))
  | null => exact (literal_of_word rfl rfl).2.2 rfl rfl (hword (by decide) (by decide) (by decide))

/-- Where a number starts, there is no space, parenthesis, star or NOT. -/
theorem start_of_numeric {c : Char} (hc : c.isDigit = true ∨ c = '-') :
    isSpace c = false ∧ c ≠ '(' ∧ c ≠ '*' ∧ ∀ cs, keyword "NOT" (c :: cs) = none := by
  refine ⟨Json.isSpace_of_numeric hc, Json.ne_of_numeric hc (by decide), Json.ne_of_numeric hc (by decide),
    fun cs => keyword_eq_none "NOT" rfl (Json.isSpace_of_numeric hc) ?_ cs⟩
  rw [toUpper_of_numeric hc]
  exact Json.ne_of_numeric hc (by decide)

/-- The text of a literal starts with a quote, a digit, a sign or a letter. -/
theorem exists_text_literal {l : Literal} (h : (literal l).isSpellable = true) :
    ∃ c cs, l.text.toList = c :: cs ∧ isSpace c = false ∧ c ≠ '(' ∧ c ≠ '*' ∧
      ∀ rest, keyword "NOT" (c :: (cs ++ rest)) = none := by
  cases l with
  | string s =>
      exact ⟨'\x27', doubled '\x27' s.toList ++ ['\x27'], Literal.toList_quote s, by decide, by decide,
        by decide, fun rest => rfl⟩
  | integer n =>
      obtain ⟨c, cs, htext, hc⟩ := Json.exists_ofInt n
      obtain ⟨hspace, hparen, hstar, hnot⟩ := start_of_numeric hc
      exact ⟨c, cs, htext, hspace, hparen, hstar, fun rest => hnot _⟩
  | float x => cases h
  | bool b =>
      cases b with
      | true => exact ⟨'t', "rue".toList, rfl, by decide, by decide, by decide, fun rest => rfl⟩
      | false => exact ⟨'f', "alse".toList, rfl, by decide, by decide, by decide, fun rest => rfl⟩
  | null => exact ⟨'n', "ull".toList, rfl, by decide, by decide, by decide, fun rest => rfl⟩

theorem isOperand_literal {l : Literal} (h : (literal l).isSpellable = true) :
    IsOperand inner (literal l).canonical (literal l) := by
  intro rest hrest
  obtain ⟨c, cs, htext, hspace, hparen, -⟩ := exists_text_literal h
  have hread := literal_text h hrest
  rw [canonical]
  rw [htext, List.cons_append] at hread ⊢
  exact operand_of_literal (skipSpace_of_not_isSpace hspace _) hparen hread

theorem ne_of_isNameStart {c d : Char} (hc : isNameStart c = true) (hd : isNameStart d = false) :
    c ≠ d := by
  rintro rfl
  cases hc.symm.trans hd

theorem isDigit_of_isNameStart {c : Char} (h : isNameStart c = true) : c.isDigit = false := by
  have hall : ∀ n ≤ 57, 48 ≤ n → isNameStart (Char.ofNat n) = false := by decide
  refine Bool.eq_false_iff.2 fun hdigit => ?_
  obtain ⟨hlow, hhigh⟩ := toNat_of_isDigit hdigit
  have hname := hall c.toNat hhigh hlow
  rw [Char.ofNat_toNat, h] at hname
  cases hname

theorem number_eq_none {c : Char} (h : isNameStart c = true) (cs : List Char) :
    number (c :: cs) = none := by
  have hsign : Reader.one '-' (c :: cs) = none := by
    simp [Reader.one, Reader.satisfying, ne_of_isNameStart h (d := '-') (by decide)]
  have hdigits : Reader.digits (c :: cs) = none := by
    simp [Reader.digits, isDigit_of_isNameStart h]
  simp [number, Reader.optional, hsign, hdigits]

/-- A name that is no word for a literal is not read as one. -/
theorem literal_name_eq_none (h : isBareName name = true)
    (hwords : ∀ word ∈ literalWords, Text.upper name ≠ word) (hrest : EndsName rest) :
    Sql.literal (name.toList ++ rest) = none := by
  have hkeyword {word : String} (hword : word ∈ literalWords) : keyword word (name.toList ++ rest) = none :=
    keyword_name_eq_none h (List.mem_cons_of_mem "NOT" hword) (hwords word hword) hrest
  have htrue : keyword "TRUE" (name.toList ++ rest) = none := hkeyword (by decide)
  have hfalse : keyword "FALSE" (name.toList ++ rest) = none := hkeyword (by decide)
  have hnull : keyword "NULL" (name.toList ++ rest) = none := hkeyword (by decide)
  obtain ⟨c, cs, hname, hc, -⟩ := exists_of_isBareName h
  have hstring : stringLiteral (name.toList ++ rest) = none := by
    have hquote : (c = '\x27' || c = '\x22') = false := by
      simp [ne_of_isNameStart hc (d := '\x27') (by decide), ne_of_isNameStart hc (d := '\x22') (by decide)]
    rw [hname, List.cons_append, stringLiteral, hquote]
    rfl
  have hnumber : number (name.toList ++ rest) = none := by
    rw [hname, List.cons_append]
    exact number_eq_none hc _
  simp [Sql.literal, Reader.orElse, Reader.map, hstring, hnumber, htrue, hfalse, hnull]

/-- Where an operand stands, its text is no NOT, no star and no end of a list. -/
theorem exists_operandText {e : Expr} (h : e.isSpellable = true) :
    ∃ c cs, e.operandText = c :: cs ∧ isSpace c = false ∧ c ≠ '*' ∧
      ∀ rest, keyword "NOT" (c :: (cs ++ rest)) = none := by
  cases e with
  | column q name =>
      cases q with
      | none => exact ⟨'\x60', _, rfl, by decide, by decide, fun rest => rfl⟩
      | some q => exact ⟨'\x60', _, rfl, by decide, by decide, fun rest => rfl⟩
  | literal l =>
      obtain ⟨c, cs, htext, hspace, -, hstar, hnot⟩ := exists_text_literal h
      exact ⟨c, cs, htext, hspace, hstar, hnot⟩
  | call f args =>
      rw [isSpellable, Bool.and_eq_true] at h
      have hbare := isBareName_of_isFunctionName h.1
      obtain ⟨c, cs, hf, hc, -⟩ := exists_of_isBareName hbare
      refine ⟨c, cs ++ '(' :: (List.intercalate ", ".toList (canonicalAll args) ++ [')']), ?_,
        isSpace_of_isNameChar (isNameChar_of_isNameStart hc), ne_of_isNameStart hc (by decide),
        fun rest => ?_⟩
      · show f.toList ++ _ = _
        rw [hf]
        rfl
      · rw [List.append_assoc, ← List.cons_append, ← hf]
        exact keyword_name_eq_none hbare (by decide) (upper_ne_of_isFunctionName h.1 (by decide))
          (endsName_cons (.inl rfl) _)
  | comparison | and | or | not | isNull => exact ⟨'(', _, rfl, by decide, by decide, fun rest => rfl⟩

theorem not_operandText {e : Expr} (h : e.isSpellable = true) (rest : List Char) :
    keyword "NOT" (e.operandText ++ rest) = none := by
  obtain ⟨c, cs, htext, -, -, hnot⟩ := exists_operandText h
  rw [htext]
  exact hnot rest

theorem exists_canonical {e : Expr} (h : e.isSpellable = true) :
    ∃ c cs, e.canonical = c :: cs ∧ isSpace c = false ∧ c ≠ '*' := by
  have happend {l : Expr} (hl : l.isSpellable = true) (more : List Char) :
      ∃ c cs, l.operandText ++ more = c :: cs ∧ isSpace c = false ∧ c ≠ '*' := by
    obtain ⟨c, cs, htext, hspace, hstar, -⟩ := exists_operandText hl
    exact ⟨c, cs ++ more, by rw [htext, List.cons_append], hspace, hstar⟩
  cases hc : e.isCompound with
  | false =>
      obtain ⟨c, cs, htext, hspace, hstar, -⟩ := exists_operandText h
      exact ⟨c, cs, (operandText_of_not_compound hc).symm.trans htext, hspace, hstar⟩
  | true =>
      cases e with
      | column | literal | call => cases hc
      | not e => exact ⟨'n', _, rfl, by decide, by decide⟩
      | comparison | and | or =>
          rw [isSpellable, Bool.and_eq_true] at h
          exact happend h.1 _
      | isNull e negated =>
          rw [isSpellable] at h
          exact happend h _

end Expr
end RestSql.Sql
