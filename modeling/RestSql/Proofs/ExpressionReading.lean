import RestSql.Proofs.JsonReading
import RestSql.Sql.Expr.Reader

/-!
# How expressions are read

What follows an operand decides how far an expression goes. A test ends where no operator comes next
(`EndsTest`), a chain of items with AND and OR between them at the end of the text, at a comma or at a closing
parenthesis (`Closes`). AND binds tighter than OR, and both associate to the left (`readWithin_chain`).
-/

namespace RestSql

namespace Reader

variable {ι α β : Type} {sep : Reader β} {p : Reader α} {mark lead rest : List Char} {write : ι → List Char}
  {value : ι → α} {Ends : List Char → Prop}

theorem ends_items (hends : ∀ cs, Ends (mark ++ cs)) (write : ι → List Char) (items : List ι)
    (hrest : Ends rest) :
    Ends (items.flatMap (fun i => mark ++ write i) ++ rest) := by
  cases items with
  | nil => exact hrest
  | cons i items =>
      rw [List.flatMap_cons, List.append_assoc, List.append_assoc]
      exact hends _

/-- The items of a list, each after a mark that ends the item before it. Of the mark, the separator may leave
`lead` to the item. -/
theorem many_items (hsep : ∀ cs, ∃ b, sep (mark ++ cs) = some (b, lead ++ cs)) (hne : mark ≠ [])
    (hends : ∀ cs, Ends (mark ++ cs)) {items : List ι}
    (hitem : ∀ i ∈ items, ∀ cs, Ends cs → p (lead ++ (write i ++ cs)) = some (value i, cs))
    (hrest : Ends rest) (hstop : sep rest = none) :
    many (after sep p) (items.flatMap (fun i => mark ++ write i) ++ rest) = (items.map value, rest) := by
  induction items with
  | nil =>
      rw [List.flatMap_nil, List.nil_append, many]
      simp [after, hstop]
  | cons i items ih =>
      obtain ⟨hi, hitem⟩ := List.forall_mem_cons.1 hitem
      have hnext := ends_items hends write items hrest
      obtain ⟨b, hb⟩ := hsep (write i ++ (items.flatMap (fun i => mark ++ write i) ++ rest))
      have hread : after sep p (mark ++ (write i ++ (items.flatMap (fun i => mark ++ write i) ++ rest))) =
          some (value i, items.flatMap (fun i => mark ++ write i) ++ rest) := by
        rw [after, hb]
        exact hi _ hnext
      have hmark := List.length_pos_iff.2 hne
      rw [List.flatMap_cons, List.append_assoc, List.append_assoc, many, hread]
      dsimp only
      rw [if_pos (by simp only [List.length_append]; omega), ih hitem]
      rfl

end Reader

namespace Sql

open Json (skipSpace_of_not_isSpace)

/-! ## Keywords -/

theorem skipSpace_append {space : List Char} (h : space.all isSpace = true) (cs : List Char) :
    skipSpace (space ++ cs) = skipSpace cs :=
  List.dropWhile_append_of_pos (List.all_eq_true.1 h)

theorem keyword_space {space : List Char} (h : space.all isSpace = true) (word : String)
    (cs : List Char) : keyword word (space ++ cs) = keyword word cs := by
  rw [keyword, keyword, skipSpace_append h]

theorem keyword_nil {word : String} (h : word ≠ "") : keyword word [] = none := by
  obtain ⟨c, cs, hc⟩ := List.exists_cons_of_ne_nil (mt String.toList_eq_nil_iff.1 h)
  simp [keyword, hc, skipSpace, afterWord?]

theorem afterWord?_append {word cs : List Char} (h : cs.map Char.toUpper = word) (rest : List Char) :
    afterWord? word (cs ++ rest) = some rest := by
  subst h
  induction cs with
  | nil => rfl
  | cons c cs ih => rw [List.map_cons, List.cons_append, afterWord?, if_pos rfl, ih]

/-- The letters of a keyword in any case, and no name that goes on after them. -/
theorem keyword_of_upper {word : String} {cs rest : List Char} (hne : cs ≠ [])
    (h : cs.map Char.toUpper = word.toList) (hspace : cs.all (!isSpace ·) = true)
    (hrest : atWordEnd rest = true) : keyword word (cs ++ rest) = some ((), rest) := by
  obtain ⟨c, more, rfl⟩ := List.exists_cons_of_ne_nil hne
  have hc : isSpace c = false := by simpa using (Bool.and_eq_true_iff.1 hspace).1
  have hskip : skipSpace ((c :: more) ++ rest) = (c :: more) ++ rest :=
    skipSpace_of_not_isSpace hc _
  rw [keyword, hskip, afterWord?_append h]
  exact if_pos hrest

theorem keyword_append (word : String) (hne : word ≠ "")
    (h : (word.toList.all fun c => c.toUpper == c && !isSpace c) = true) {rest : List Char}
    (hrest : atWordEnd rest = true) : keyword word (word.toList ++ rest) = some ((), rest) := by
  simp only [List.all_eq_true, Bool.and_eq_true, beq_iff_eq] at h
  refine keyword_of_upper (mt String.toList_eq_nil_iff.1 hne) ?_ ?_ hrest
  · exact (List.map_congr_left fun c hc => (h c hc).1).trans (List.map_id _)
  · exact List.all_eq_true.2 fun c hc => (h c hc).2

/-- A keyword does not start with another letter. -/
theorem keyword_eq_none (word : String) {c w : Char} (hw : word.toList.head? = some w)
    (hspace : isSpace c = false) (hc : c.toUpper ≠ w) (cs : List Char) :
    keyword word (c :: cs) = none := by
  obtain ⟨ws, hword⟩ := List.head?_eq_some_iff.1 hw
  rw [keyword, skipSpace_of_not_isSpace hspace, hword, afterWord?, if_neg (Ne.symm hc)]

/-! ## What follows -/

/-- A space, a comma or a closing parenthesis comes next, or nothing, and no arguments of a call. -/
structure Follows (rest : List Char) : Prop where
  head : ∀ c ∈ rest.head?, c = ' ' ∨ c = ',' ∨ c = ')'
  no_call : Reader.symbol '(' rest = none

/-- A comma or a closing parenthesis comes next, or nothing. -/
def Closes (rest : List Char) : Prop :=
  ∀ c ∈ rest.head?, c = ',' ∨ c = ')'

/-- A chain with OR may go on here, and no chain with AND. -/
def EndsGroup (rest : List Char) : Prop :=
  Closes rest ∨ ∃ cs, rest = " or ".toList ++ cs

/-- A chain may go on here, and no test. -/
def EndsItem (rest : List Char) : Prop :=
  EndsGroup rest ∨ ∃ cs, rest = " and ".toList ++ cs

/-- No operator comes next that goes on with a test. -/
structure EndsTest (rest : List Char) : Prop where
  is : keyword "IS" rest = none
  not : keyword "NOT" rest = none
  like : keyword "LIKE" rest = none
  sign : Expr.compareOp rest = none

variable {rest : List Char}

theorem closes_nil : Closes [] := nofun

theorem closes_comma (cs : List Char) : Closes (',' :: cs) := by
  rintro c ⟨⟩
  exact .inl rfl

theorem closes_paren (cs : List Char) : Closes (')' :: cs) := by
  rintro c ⟨⟩
  exact .inr rfl

theorem follows_space {cs : List Char} (h : Reader.symbol '(' cs = none) : Follows (' ' :: cs) := by
  refine ⟨?_, h⟩
  rintro c ⟨⟩
  exact .inl rfl

theorem Closes.cases (h : Closes rest) :
    rest = [] ∨ (∃ cs, rest = ',' :: cs) ∨ ∃ cs, rest = ')' :: cs := by
  cases rest with
  | nil => exact .inl rfl
  | cons c cs =>
      rcases h c rfl with rfl | rfl
      · exact .inr (.inl ⟨cs, rfl⟩)
      · exact .inr (.inr ⟨cs, rfl⟩)

theorem Closes.follows (h : Closes rest) : Follows rest := by
  refine ⟨fun c hc => .inr (h c hc), ?_⟩
  rcases h.cases with rfl | ⟨cs, rfl⟩ | ⟨cs, rfl⟩ <;> rfl

theorem Follows.cases (h : Follows rest) :
    rest = [] ∨ ∃ c cs, rest = c :: cs ∧ (c = ' ' ∨ c = ',' ∨ c = ')') := by
  cases rest with
  | nil => exact .inl rfl
  | cons c cs => exact .inr ⟨c, cs, rfl, h.head c rfl⟩

theorem Follows.head_not_digit (h : Follows rest) :
    (rest.head?.map Char.isDigit).getD false = false := by
  rcases h.cases with rfl | ⟨c, cs, rfl, rfl | rfl | rfl⟩ <;> rfl

theorem Follows.atWordEnd (h : Follows rest) : atWordEnd rest = true := by
  rcases h.cases with rfl | ⟨c, cs, rfl, rfl | rfl | rfl⟩ <;> rfl

theorem Follows.head_ne (h : Follows rest) {c : Char} (hspace : c ≠ ' ') (hcomma : c ≠ ',')
    (hparen : c ≠ ')') : rest.head? ≠ some c := by
  intro hc
  rcases h.head c hc with rfl | rfl | rfl
  · exact hspace rfl
  · exact hcomma rfl
  · exact hparen rfl

/-- No keyword comes next. -/
theorem Closes.keyword_eq_none (h : Closes rest) {word : String} {w : Char}
    (hw : word.toList.head? = some w) (hcomma : w ≠ ',') (hparen : w ≠ ')') :
    keyword word rest = none := by
  rcases h.cases with rfl | ⟨cs, rfl⟩ | ⟨cs, rfl⟩
  · refine keyword_nil ?_
    rintro rfl
    cases hw
  · have hupper : Char.toUpper ',' ≠ w := Ne.symm hcomma
    exact Sql.keyword_eq_none word hw (by decide) hupper cs
  · have hupper : Char.toUpper ')' ≠ w := Ne.symm hparen
    exact Sql.keyword_eq_none word hw (by decide) hupper cs

theorem EndsGroup.follows (h : EndsGroup rest) : Follows rest := by
  rcases h with h | ⟨cs, rfl⟩
  · exact h.follows
  · exact follows_space rfl

theorem EndsItem.follows (h : EndsItem rest) : Follows rest := by
  rcases h with h | ⟨cs, rfl⟩
  · exact h.follows
  · exact follows_space rfl

theorem Closes.no_and (h : Closes rest) : keyword "AND" rest = none :=
  h.keyword_eq_none rfl (by decide) (by decide)

theorem Closes.no_or (h : Closes rest) : keyword "OR" rest = none :=
  h.keyword_eq_none rfl (by decide) (by decide)

theorem Closes.endsTest (h : Closes rest) : EndsTest rest where
  is := h.keyword_eq_none rfl (by decide) (by decide)
  not := h.keyword_eq_none rfl (by decide) (by decide)
  like := h.keyword_eq_none rfl (by decide) (by decide)
  sign := by rcases h.cases with rfl | ⟨cs, rfl⟩ | ⟨cs, rfl⟩ <;> rfl

theorem EndsItem.endsTest (h : EndsItem rest) : EndsTest rest := by
  rcases h with (h | ⟨cs, rfl⟩) | ⟨cs, rfl⟩
  · exact h.endsTest
  · exact ⟨rfl, rfl, rfl, rfl⟩
  · exact ⟨rfl, rfl, rfl, rfl⟩

namespace Expr

variable {inner : Reader Expr} {cs more : List Char} {e left right : Expr} {space : List Char}

/-! ## Tests -/

theorem test_of_operand (h : operand inner cs = some (e, rest)) (hrest : EndsTest rest) :
    test inner cs = some (e, rest) := by
  rw [test, h]
  simp [nullTest, likeTest, compareTest, Reader.orElse, Reader.optional, hrest.is, hrest.not, hrest.like,
    hrest.sign]

theorem test_of_nullTest (h : operand inner cs = some (e, more)) {negated : Bool}
    (htest : nullTest more = some (negated, rest)) : test inner cs = some (isNull e negated, rest) := by
  rw [test, h]
  simp [htest]

theorem test_of_comparison (h : operand inner cs = some (left, more)) (hnull : nullTest more = none)
    {op : CompareOp}
    (htest : (likeTest inner).orElse (compareTest inner) more = some ((op, right), rest)) :
    test inner cs = some (comparison left op right, rest) := by
  rw [test, h]
  simp [hnull, htest]

theorem negation_of_test (hnot : keyword "NOT" cs = none) (h : test inner cs = some (e, rest))
    (fuel : Nat) : negation inner fuel cs = some (e, rest) := by
  cases fuel with
  | zero => exact h
  | succ fuel => simp [negation, Reader.orElse, Reader.map, Reader.after, hnot, h]

theorem negation_of_not (hnot : keyword "NOT" cs = some ((), more)) {fuel : Nat}
    (h : negation inner fuel more = some (e, rest)) :
    negation inner (fuel + 1) cs = some (not e, rest) := by
  simp [negation, Reader.orElse, Reader.map, Reader.after, hnot, h]

variable {middle : List Char}

theorem nullTest_of_words (negation : Option Unit) (his : keyword "IS" cs = some ((), middle))
    (hnot : Reader.optional (keyword "NOT") middle = (negation, more))
    (hnull : keyword "NULL" more = some ((), rest)) : nullTest cs = some (negation.isSome, rest) := by
  simp [nullTest, his, hnot, hnull]

theorem comparison_of_words (negation : Option Unit)
    (hnot : Reader.optional (keyword "NOT") cs = (negation, middle))
    (hlike : keyword "LIKE" middle = some ((), more)) (h : operand inner more = some (right, rest)) :
    (likeTest inner).orElse (compareTest inner) cs =
      some ((if negation.isSome then .notLike else .like, right), rest) := by
  simp [Reader.orElse, likeTest, hnot, hlike, h]

theorem comparison_of_sign (hnot : keyword "NOT" cs = none) (hlike : keyword "LIKE" cs = none)
    {op : CompareOp} (hop : compareOp cs = some (op, more))
    (h : operand inner more = some (right, rest)) :
    (likeTest inner).orElse (compareTest inner) cs = some ((op, right), rest) := by
  simp [Reader.orElse, likeTest, Reader.optional, hnot, hlike, compareTest, hop, h]

/-- An operator with spaces around it, and what stands to its right. -/
theorem comparison_text (op : CompareOp) (h : operand inner (' ' :: cs) = some (right, rest)) :
    nullTest (' ' :: (op.text.toList ++ ' ' :: cs)) = none ∧
      (likeTest inner).orElse (compareTest inner) (' ' :: (op.text.toList ++ ' ' :: cs)) =
        some ((op, right), rest) := by
  cases op with
  | eq => exact ⟨rfl, comparison_of_sign rfl rfl rfl h⟩
  | notEq => exact ⟨rfl, comparison_of_sign rfl rfl rfl h⟩
  | lt => exact ⟨rfl, comparison_of_sign rfl rfl rfl h⟩
  | ltEq => exact ⟨rfl, comparison_of_sign rfl rfl rfl h⟩
  | gt => exact ⟨rfl, comparison_of_sign rfl rfl rfl h⟩
  | gtEq => exact ⟨rfl, comparison_of_sign rfl rfl rfl h⟩
  | like => exact ⟨rfl, comparison_of_words none rfl rfl h⟩
  | notLike => exact ⟨rfl, comparison_of_words (some ()) rfl rfl h⟩

theorem nullTest_text (negated : Bool) (hrest : Follows rest) :
    nullTest ((if negated then " is not null" else " is null").toList ++ rest) =
      some (negated, rest) := by
  have hnull : keyword "NULL" (" null".toList ++ rest) = some ((), rest) :=
    (@keyword_space [' '] rfl "NULL" _).trans
      (@keyword_of_upper _ "null".toList _ (by decide) (by decide) (by decide) hrest.atWordEnd)
  cases negated with
  | false => exact nullTest_of_words none rfl rfl hnull
  | true => exact nullTest_of_words (some ()) rfl rfl hnull

/-! ## Operands -/

theorem operand_space (hspace : space.all isSpace = true) (cs : List Char) :
    operand inner (space ++ cs) = operand inner cs := by
  rw [operand, operand, skipSpace_append hspace]

theorem operand_of_parens (h : inner cs = some (e, ')' :: rest)) :
    operand inner ('(' :: cs) = some (e, rest) := by
  have hopens : skipSpace ('(' :: cs) = '(' :: cs := rfl
  have hcloses : Reader.symbol ')' (')' :: rest) = some (')', rest) := rfl
  rw [operand, hopens]
  simp [Reader.orElse, Reader.after, Reader.before, Reader.one, Reader.satisfying, h, hcloses]

/-- A literal with spaces before it is an operand. -/
theorem operand_of_literal {l : Literal} {c : Char} (hskip : skipSpace cs = c :: more)
    (hparen : c ≠ '(') (h : Sql.literal (c :: more) = some (l, rest)) :
    operand inner cs = some (.literal l, rest) := by
  have hone : Reader.one '(' (c :: more) = none := by
    simp [Reader.one, Reader.satisfying, hparen]
  rw [operand, hskip]
  simp [Reader.orElse, Reader.after, hone, Reader.map, h]

/-- What is neither in parentheses nor a literal is a call, or else a column. -/
theorem operand_of_name {c : Char} (hspace : isSpace c = false) (hparen : c ≠ '(')
    (hliteral : Sql.literal (c :: cs) = none) :
    operand inner (c :: cs) = (callOf inner).orElse columnRef (c :: cs) := by
  have hone : Reader.one '(' (c :: cs) = none := by
    simp [Reader.one, Reader.satisfying, hparen]
  rw [operand, skipSpace_of_not_isSpace hspace]
  simp [Reader.orElse, Reader.after, hone, Reader.map, hliteral]

/-! ## Chains -/

/-- A first item, and others with a separator before each of them. -/
structure Chain (ι : Type) where
  first : ι
  more : List ι

namespace Chain

variable {ι : Type}

def items (c : Chain ι) : List ι :=
  c.first :: c.more

def text (sep : List Char) (write : ι → List Char) (c : Chain ι) : List Char :=
  write c.first ++ c.more.flatMap fun i => sep ++ write i

/-- The items joined from the left. -/
def value (join : Expr → Expr → Expr) (item : ι → Expr) (c : Chain ι) : Expr :=
  (c.more.map item).foldl join (item c.first)

end Chain

theorem chain_of_item {word : String} {join : Expr → Expr → Expr} {p : Reader Expr}
    (hstop : keyword word rest = none) (h : p cs = some (e, rest)) :
    chain word join p cs = some (e, rest) := by
  have hmany : Reader.many ((keyword word).after p) rest = ([], rest) := by
    rw [Reader.many]
    simp [Reader.after, hstop]
  simp [chain, h, hmany]

theorem chain_text {ι : Type} {sep : List Char} {write : ι → List Char} {value : ι → Expr} {word : String}
    {join : Expr → Expr → Expr} {p : Reader Expr} (Ends : List Char → Prop)
    (hsep : ∀ cs, keyword word (sep ++ cs) = some ((), ' ' :: cs)) (hne : sep ≠ [])
    (hends : ∀ cs, Ends (sep ++ cs)) {c : Chain ι} (hspace : space.all isSpace = true)
    (hitem : ∀ i ∈ c.items, ∀ space : List Char, space.all isSpace = true → ∀ rest, Ends rest →
      p (space ++ (write i ++ rest)) = some (value i, rest))
    (hrest : Ends rest) (hstop : keyword word rest = none) :
    chain word join p (space ++ (c.text sep write ++ rest)) = some (c.value join value, rest) := by
  obtain ⟨i, items⟩ := c
  obtain ⟨hfirst, hitem⟩ := List.forall_mem_cons.1 hitem
  have hmany := Reader.many_items (fun cs => ⟨(), hsep cs⟩) hne hends
    (fun j hj cs => hitem j hj [' '] rfl cs) hrest hstop
  have hnext := Reader.ends_items hends write items hrest
  rw [Chain.text, List.append_assoc, chain, hfirst space hspace _ hnext]
  dsimp only
  rw [hmany]
  rfl

theorem Chain.length_le_text {ι : Type} {c : Chain ι} {i : ι} (h : i ∈ c.items) (sep : List Char)
    (write : ι → List Char) : (write i).length ≤ (c.text sep write).length := by
  rw [Chain.text, List.length_append]
  rcases List.mem_cons.1 h with rfl | h
  · exact Nat.le_add_right _ _
  · have hmem : sep ++ write i ∈ c.more.map fun i => sep ++ write i := List.mem_map_of_mem h
    have hle := (List.sublist_flatten_of_mem hmem).length_le
    rw [List.length_append, ← List.flatMap_def] at hle
    omega

/-- The text is read as the expression where an item of a chain stands. Each NOT takes of the fuel. -/
def IsItem (inner : Reader Expr) (text : List Char) (e : Expr) : Prop :=
  ∀ fuel, text.length ≤ fuel → ∀ space : List Char, space.all isSpace = true → ∀ rest, EndsItem rest →
    negation inner fuel (space ++ (text ++ rest)) = some (e, rest)

/-- Chains with AND are the items of a chain with OR. -/
theorem readWithin_chain {ι : Type} (write : ι → List Char) (value : ι → Expr) {depth : Nat}
    {c : Chain (Chain ι)} (hspace : space.all isSpace = true)
    (hitem : ∀ g ∈ c.items, ∀ i ∈ g.items, IsItem (readWithin depth) (write i) (value i))
    (hrest : Closes rest) :
    readWithin (depth + 1)
        (space ++ (c.text " or ".toList (Chain.text " and ".toList write) ++ rest)) =
      some (c.value or (Chain.value and value), rest) := by
  rw [readWithin]
  refine chain_text EndsGroup (fun cs => rfl) (by decide) (fun cs => .inr ⟨cs, rfl⟩) hspace ?_
    (.inl hrest) hrest.no_or
  intro g hg space hspace rest hrest
  refine chain_text EndsItem (fun cs => rfl) (by decide) (fun cs => .inr ⟨cs, rfl⟩) hspace
    (fun i hi => hitem g hg i hi _ ?_) (.inl hrest) ?_
  · have hle := Nat.le_trans (Chain.length_le_text hi " and ".toList write)
      (Chain.length_le_text hg " or ".toList _)
    simp only [List.length_append]
    omega
  · rcases hrest with hrest | ⟨cs, rfl⟩
    · exact hrest.no_and
    · rfl

end Expr
end Sql
end RestSql
