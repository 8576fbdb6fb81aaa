import RestSql.Proofs.OperandTexts

/-!
# Expressions are read back from their texts

From its canonical text an expression is read as it was written, whatever the expression, and a chain of AND
and OR over operands with AND before OR and both from the left (`Expr.read_canonical`). The induction is over
the expression: alone its text is a chain of one or two items (`isRead_of_items`), and in parentheses it is an
operand of the expression around it (`isOperand_of_isRead`). The depth to which parentheses are read is the
length of the text, which is more than that of each operand.
-/

namespace RestSql.Sql

open Json (skipSpace_of_not_isSpace)

namespace Expr

variable {inner : Reader Expr} {e : Expr} {text rest : List Char}

/-! ## Expressions -/

/-- At every depth that the text can need, it is read as the expression up to where an argument ends. -/
def IsRead (text : List Char) (e : Expr) : Prop :=
  ∀ depth, text.length < depth → ∀ space : List Char, space.all isSpace = true →
    ∀ rest, Closes rest → readWithin depth (space ++ (text ++ rest)) = some (e, rest)

theorem isItem_of_operand (h : IsOperand inner text e)
    (hnot : ∀ rest, Follows rest → keyword "NOT" (text ++ rest) = none) : IsItem inner text e := by
  intro fuel _ space hspace rest hrest
  refine negation_of_test ((keyword_space hspace _ _).trans (hnot rest hrest.follows)) ?_ _
  exact test_of_operand ((operand_space hspace _).trans (h rest hrest.follows)) hrest.endsTest

theorem isRead_of_items {ι : Type} (c : Chain (Chain ι)) (write : ι → List Char) (value : ι → Expr)
    (hitem : ∀ depth, (c.text " or ".toList (Chain.text " and ".toList write)).length ≤ depth →
      ∀ g ∈ c.items, ∀ i ∈ g.items, IsItem (readWithin depth) (write i) (value i)) :
    IsRead (c.text " or ".toList (Chain.text " and ".toList write)) (c.value or (Chain.value and value)) := by
  intro depth hdepth space hspace rest hrest
  obtain ⟨depth, rfl⟩ := Nat.exists_eq_succ_of_ne_zero (Nat.ne_zero_of_lt hdepth)
  exact readWithin_chain write value hspace (hitem depth (Nat.le_of_lt_succ hdepth)) hrest

/-- An item alone is a chain. -/
theorem isRead_of_isItem (h : ∀ depth, text.length ≤ depth → IsItem (readWithin depth) text e) :
    IsRead text e := by
  have hread := isRead_of_items ⟨⟨(text, e), []⟩, []⟩ Prod.fst Prod.snd fun depth hdepth g hg i hi => ?_
  · simpa [Chain.text, Chain.value] using hread
  · cases List.mem_singleton.1 hg
    cases List.mem_singleton.1 hi
    exact h depth (by simpa [Chain.text] using hdepth)

theorem IsRead.read (h : IsRead text e) : read text = some (e, []) := by
  have hread := h (text.length + 1) (Nat.lt_succ_self _) [] rfl [] closes_nil
  rwa [List.nil_append, List.append_nil] at hread

/-- In parentheses an expression is an operand. -/
theorem isOperand_of_isRead (h : IsRead text e) {depth : Nat} (hdepth : text.length < depth) :
    IsOperand (readWithin depth) ('(' :: (text ++ [')'])) e := by
  intro rest hrest
  have hread := h depth hdepth [] rfl (')' :: rest) (closes_paren rest)
  rw [List.cons_append, List.append_assoc]
  exact operand_of_parens hread

/-! ## Calls -/

theorem readWithin_paren (depth : Nat) (rest : List Char) : readWithin depth (')' :: rest) = none := by
  cases depth with
  | zero => rfl
  | succ depth =>
      have hnot : keyword "NOT" (')' :: rest) = none := rfl
      have hoperand : operand (readWithin depth) (')' :: rest) = none := rfl
      simp [readWithin, chain, negation, Reader.orElse, Reader.map, Reader.after, test, hnot, hoperand]

theorem arguments_of_list {cs : List Char} (args : Option (List Expr)) (hstar : Reader.symbol '*' cs = none)
    (h : Reader.optional (Reader.sepBy comma inner) cs = (args, rest)) :
    arguments inner cs = some (args.getD [], rest) := by
  simp [arguments, Reader.orElse, Reader.map, hstar, h]

/-- Arguments with commas between them are read up to the closing parenthesis. -/
theorem arguments_text {ι : Type} {write : ι → List Char} {value : ι → Expr} {args : List ι}
    (hstart : ∀ i ∈ args, ∃ c cs, write i = c :: cs ∧ isSpace c = false ∧ c ≠ '*') {depth : Nat}
    (h : ∀ i ∈ args, IsRead (write i) (value i) ∧ (write i).length < depth) (rest : List Char) :
    arguments (readWithin depth) (List.intercalate ", ".toList (args.map write) ++ ')' :: rest) =
      some (args.map value, ')' :: rest) := by
  cases args with
  | nil =>
      refine arguments_of_list none rfl ?_
      rw [List.map_nil, List.intercalate_nil, List.nil_append, Reader.optional, Reader.sepBy,
        readWithin_paren]
  | cons i args =>
      obtain ⟨⟨hread, hdepth⟩, hargs⟩ := List.forall_mem_cons.1 h
      obtain ⟨c, cs, htext, hspace, hstar⟩ := hstart i List.mem_cons_self
      have hlist := @Reader.sepBy_items ι Expr Unit comma (readWithin depth) ", ".toList [' '] (')' :: rest)
        write value Closes (fun cs => ⟨(), rfl⟩) (by decide) (fun cs => closes_comma _) i args
        (hread depth hdepth [] rfl) (fun i hi => (hargs i hi).1 depth (hargs i hi).2 [' '] rfl)
        (closes_paren rest) rfl
      rw [List.map_cons, Text.intercalate_cons, List.flatMap_map, List.append_assoc]
      refine arguments_of_list (some (value i :: args.map value)) ?_ ?_
      · rw [htext, List.cons_append, Reader.symbol, skipSpace_of_not_isSpace hspace]
        simp [Reader.one, Reader.satisfying, hstar]
      · rw [Reader.optional, hlist]

/-- The name of a function with arguments in parentheses is an operand. -/
theorem isOperand_of_arguments {f : String} (hbare : isBareName f = true)
    (hwords : ∀ word ∈ literalWords, Text.upper f ≠ word) {args : List Expr}
    (h : ∀ rest, arguments inner (text ++ ')' :: rest) = some (args, ')' :: rest)) :
    IsOperand inner (f.toList ++ '(' :: (text ++ [')'])) (call f args) := by
  intro rest hrest
  have hends : EndsName ('(' :: (text ++ ')' :: rest)) := endsName_cons (.inl rfl) _
  have hliteral := literal_name_eq_none hbare hwords hends
  have hcall : callOf inner (f.toList ++ '(' :: (text ++ ')' :: rest)) = some (call f args, rest) := by
    have hopens (cs : List Char) : Reader.symbol '(' ('(' :: cs) = some ('(', cs) := rfl
    have hcloses : Reader.symbol ')' (')' :: rest) = some (')', rest) := rfl
    have hbareName (cs : List Char) : bareName (f.toList ++ '(' :: cs) = some (f, '(' :: cs) :=
      bareName_append hbare rfl
    rw [callOf, hbareName]
    simp only [Option.bind_eq_bind, Option.bind_some, hopens, Reader.before, h, hcloses, Option.map_some]
  obtain ⟨c, cs, hf, hc, -⟩ := exists_of_isBareName hbare
  rw [List.append_assoc, List.cons_append, List.append_assoc, List.singleton_append]
  rw [hf, List.cons_append] at hliteral hcall ⊢
  rw [operand_of_name (isSpace_of_isNameChar (isNameChar_of_isNameStart hc))
    (ne_of_isNameStart hc (by decide)) hliteral, Reader.orElse, hcall]

theorem isOperand_call {f : String} {args : List Expr} (hspell : (call f args).isSpellable = true)
    (h : ∀ e ∈ args, IsRead e.canonical e) {depth : Nat} (hdepth : (call f args).canonical.length ≤ depth) :
    IsOperand (readWithin depth) (call f args).canonical (call f args) := by
  rw [isSpellable, Bool.and_eq_true, areSpellable_iff] at hspell
  obtain ⟨hname, hargs⟩ := hspell
  rw [canonical, canonicalAll_eq] at hdepth ⊢
  have hlength : ∀ e ∈ args, e.canonical.length < depth := by
    intro e he
    have hle := Text.length_le_intercalate (List.mem_map_of_mem (f := canonical) he) ", ".toList
    rw [List.length_append, List.length_cons, List.length_append, List.length_singleton] at hdepth
    omega
  have hwords (word : String) (hword : word ∈ literalWords) : Text.upper f ≠ word :=
    upper_ne_of_isFunctionName hname (List.mem_cons_of_mem "NOT" hword)
  refine isOperand_of_arguments (isBareName_of_isFunctionName hname) hwords fun rest => ?_
  have hread := @arguments_text Expr canonical id args (fun e he => exists_canonical (hargs e he)) depth
    (fun e he => ⟨h e he, hlength e he⟩) rest
  rwa [List.map_id] at hread

/-! ## Items -/

variable {l r : Expr} {left right : List Char}

theorem isItem_comparison (op : CompareOp) (hl : IsOperand inner left l) (hr : IsOperand inner right r)
    (hnot : ∀ rest, Follows rest → keyword "NOT" (left ++ rest) = none) :
    IsItem inner (left ++ ' ' :: (op.text.toList ++ ' ' :: right)) (comparison l op r) := by
  intro fuel _ space hspace rest hrest
  rw [List.append_assoc, List.cons_append, List.append_assoc, List.cons_append]
  have hright : operand inner (' ' :: (right ++ rest)) = some (r, rest) :=
    (@operand_space inner [' '] rfl _).trans (hr rest hrest.follows)
  obtain ⟨hnull, hcomparison⟩ := comparison_text op hright
  have hfollows : Follows (' ' :: (op.text.toList ++ ' ' :: (right ++ rest))) :=
    follows_space (by cases op <;> rfl)
  have hleft := hl _ hfollows
  refine negation_of_test ((keyword_space hspace _ _).trans (hnot _ hfollows)) ?_ _
  exact test_of_comparison ((operand_space hspace _).trans hleft) hnull hcomparison

theorem isItem_not (h : IsItem inner text e) : IsItem inner ("not ".toList ++ text) (not e) := by
  intro fuel hfuel space hspace rest hrest
  have hword : keyword "NOT" ("not ".toList ++ (text ++ rest)) = some ((), ' ' :: (text ++ rest)) := rfl
  rw [List.length_append, show "not ".toList.length = 4 by rfl] at hfuel
  obtain ⟨fuel, rfl⟩ := Nat.exists_eq_succ_of_ne_zero (show fuel ≠ 0 by omega)
  rw [List.append_assoc]
  exact negation_of_not ((keyword_space hspace _ _).trans hword) (h fuel (by omega) [' '] rfl rest hrest)

theorem isItem_isNull (negated : Bool) (h : IsOperand inner text e)
    (hnot : ∀ rest, Follows rest → keyword "NOT" (text ++ rest) = none) :
    IsItem inner (text ++ (if negated then " is not null" else " is null").toList) (isNull e negated) := by
  intro fuel _ space hspace rest hrest
  have hfollows (more : List Char) :
      Follows ((if negated then " is not null" else " is null").toList ++ more) := by
    cases negated <;> exact follows_space rfl
  rw [List.append_assoc]
  refine negation_of_test ((keyword_space hspace _ _).trans (hnot _ (hfollows rest))) ?_ _
  exact test_of_nullTest ((operand_space hspace _).trans (h _ (hfollows rest)))
    (nullTest_text negated hrest.follows)

/-! ## Whole texts -/

/-- The texts of the expression are read as the expression, alone and where an operand stands. -/
structure IsReadBack (e : Expr) : Prop where
  alone : IsRead e.canonical e
  operand : ∀ depth, e.operandText.length ≤ depth → IsOperand (readWithin depth) e.operandText e

theorem IsReadBack.of_not_compound (hspell : e.isSpellable = true) (hc : e.isCompound = false)
    (h : ∀ depth, e.canonical.length ≤ depth → IsOperand (readWithin depth) e.canonical e) :
    IsReadBack e := by
  have htext := operandText_of_not_compound hc
  have hnot := not_operandText hspell
  rw [htext] at hnot
  refine ⟨isRead_of_isItem fun depth hdepth => ?_, by rwa [htext]⟩
  exact isItem_of_operand (h depth hdepth) fun rest _ => hnot rest

theorem IsReadBack.of_compound (hc : e.isCompound = true) (h : IsRead e.canonical e) : IsReadBack e := by
  refine ⟨h, fun depth hdepth => ?_⟩
  rw [operandText_of_compound hc] at hdepth ⊢
  exact isOperand_of_isRead h (by simp at hdepth; omega)

theorem IsReadBack.isItem (h : IsReadBack e) (hspell : e.isSpellable = true) {depth : Nat}
    (hdepth : e.operandText.length ≤ depth) : IsItem (readWithin depth) e.operandText e :=
  isItem_of_operand (h.operand depth hdepth) fun rest _ => not_operandText hspell rest

theorem isReadBack (e : Expr) : e.isSpellable = true → IsReadBack e := by
  -- Each operand stands in the text, so the depth is enough for its own text.
  induction e using Expr.induction with
  | column q name => exact fun h => .of_not_compound h rfl fun _ _ => isOperand_column h
  | literal l => exact fun h => .of_not_compound h rfl fun _ _ => isOperand_literal h
  | call f args ih =>
      intro h
      refine .of_not_compound h rfl fun depth hdepth => ?_
      refine isOperand_call h (fun e he => (ih e he ?_).alone) hdepth
      rw [isSpellable, Bool.and_eq_true, areSpellable_iff] at h
      exact h.2 e he
  | comparison l op r hl hr =>
      intro h
      rw [isSpellable, Bool.and_eq_true] at h
      refine .of_compound rfl (isRead_of_isItem fun depth hdepth => ?_)
      rw [canonical_comparison] at hdepth ⊢
      simp only [List.length_append, List.length_cons] at hdepth
      exact isItem_comparison op ((hl h.1).operand depth (by omega)) ((hr h.2).operand depth (by omega))
        fun rest _ => not_operandText h.1 rest
  -- AND is a chain of one item with two parts, OR one of two items.
  | and l r hl hr =>
      intro h
      rw [isSpellable, Bool.and_eq_true] at h
      have hread := isRead_of_items ⟨⟨l, [r]⟩, []⟩ operandText id fun depth hdepth g hg i hi => ?_
      · refine .of_compound rfl ?_
        simpa [canonical_and, Chain.text, Chain.value] using hread
      · simp only [Chain.text, List.flatMap_cons, List.flatMap_nil, List.append_nil,
          List.length_append] at hdepth
        cases List.mem_singleton.1 hg
        rcases List.mem_pair.1 hi with rfl | rfl
        · exact (hl h.1).isItem h.1 (by omega)
        · exact (hr h.2).isItem h.2 (by omega)
  | or l r hl hr =>
      intro h
      rw [isSpellable, Bool.and_eq_true] at h
      have hread := isRead_of_items ⟨⟨l, []⟩, [⟨r, []⟩]⟩ operandText id fun depth hdepth g hg i hi => ?_
      · refine .of_compound rfl ?_
        simpa [canonical_or, Chain.text, Chain.value] using hread
      · simp only [Chain.text, List.flatMap_cons, List.flatMap_nil, List.append_nil,
          List.length_append] at hdepth
        rcases List.mem_pair.1 hg with rfl | rfl
        · cases List.mem_singleton.1 hi
          exact (hl h.1).isItem h.1 (by omega)
        · cases List.mem_singleton.1 hi
          exact (hr h.2).isItem h.2 (by omega)
  | not e he =>
      intro h
      rw [isSpellable] at h
      refine .of_compound rfl (isRead_of_isItem fun depth hdepth => ?_)
      rw [canonical_not] at hdepth ⊢
      rw [List.length_append] at hdepth
      exact isItem_not ((he h).isItem h (by omega))
  | isNull e negated he =>
      intro h
      rw [isSpellable] at h
      refine .of_compound rfl (isRead_of_isItem fun depth hdepth => ?_)
      rw [canonical_isNull] at hdepth ⊢
      rw [List.length_append] at hdepth
      exact isItem_isNull negated ((he h).operand depth (by omega)) fun rest _ => not_operandText h rest

/-- A chain over operands is read as its value, AND before OR and both from the left. -/
theorem read_chain {c : Chain (Chain Expr)} (h : ∀ g ∈ c.items, ∀ e ∈ g.items, e.isSpellable = true) :
    read (c.text " or ".toList (Chain.text " and ".toList operandText)) =
      some (c.value or (Chain.value and id), []) := by
  refine (isRead_of_items c operandText id fun depth hdepth g hg e he => ?_).read
  have hspell := h g hg e he
  refine (isReadBack e hspell).isItem hspell (Nat.le_trans ?_ hdepth)
  exact Nat.le_trans (Chain.length_le_text he _ _) (Chain.length_le_text hg _ _)

/-- The canonical text of an expression is read as the expression, and a chain of AND and OR over operands
with AND before OR and both from the left, each of them to the end. -/
theorem read_canonical :
    (∀ e : Expr, e.isSpellable = true → read e.canonical = some (e, [])) ∧
      ∀ c : Chain (Chain Expr), (∀ g ∈ c.items, ∀ e ∈ g.items, e.isSpellable = true) →
        read (c.text " or ".toList (Chain.text " and ".toList operandText)) =
          some (c.value or (Chain.value and id), []) := by
  exact ⟨fun e h => (isReadBack e h).alone.read, fun c h => read_chain h⟩

theorem read_canonical_nested :
    read "(not (`t`.`a b` like 'it''s')) and (lower(`x`, `y` < -5) is not null)".toList =
        some (and (not (comparison (column (some "t") "a b") .like (literal (.string "it's"))))
          (isNull (call "lower" [column none "x", comparison (column none "y") .lt (literal (.integer (-5)))])
            true), []) ∧
      read "`a` or `b` and (not true) and `c` or `d`".toList =
        some (or (or (column none "a") (and (and (column none "b") (not (literal (.bool true))))
          (column none "c"))) (column none "d"), []) := by
  let nested := and (not (comparison (column (some "t") "a b") .like (literal (.string "it's"))))
    (isNull (call "lower" [column none "x", comparison (column none "y") .lt (literal (.integer (-5)))]) true)
  let mixed : Chain (Chain Expr) := ⟨⟨column none "a", []⟩,
    [⟨column none "b", [not (literal (.bool true)), column none "c"]⟩, ⟨column none "d", []⟩]⟩
  have hnested : nested.canonical =
      "(not (`t`.`a b` like 'it''s')) and (lower(`x`, `y` < -5) is not null)".toList := by decide
  have hmixed : mixed.text " or ".toList (Chain.text " and ".toList operandText) =
      "`a` or `b` and (not true) and `c` or `d`".toList := by decide
  rw [← hnested, ← hmixed]
  exact ⟨read_canonical.1 nested (by decide +kernel), read_canonical.2 mixed (by decide)⟩

end Expr
end RestSql.Sql
