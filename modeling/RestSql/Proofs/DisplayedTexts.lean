import RestSql.Proofs.ExpressionTexts
import RestSql.Proofs.ReadExpressions
import RestSql.Proofs.ShownLiterals

/-!
# Display texts are read

The display text of an expression has parentheses around OR only and no quotes around names. It is read as
the expression where that is enough (`Expr.isShown`), up to the side to which AND associates and to the way
numbers without a fraction are written (`Expr.reread`, `Expr.read_text`). By induction on how the expression
is built, its text is a chain of items with AND between them, and one item if it is no AND itself
(`Expr.IsShownBack`). So it can stand on either side of an OR, between commas, after a NOT if it is one item,
and where an operand stands if it is a column, a literal, a call or an OR.
-/

namespace RestSql.Sql

open Json (skipSpace_of_not_isSpace)

/-! ## Names and literals -/

/-- A name that stands for a column without quotes. -/
def isPlainName (name : String) : Bool :=
  isBareName name && !isReserved name

variable {name : String} {rest : List Char} {l : Literal}

theorem isBareName_of_isPlainName (h : isPlainName name = true) : isBareName name = true :=
  (Bool.and_eq_true_iff.1 h).1

theorem upper_ne_of_isPlainName (h : isPlainName name = true) {word : String} (hword : word ∈ operandWords) :
    Text.upper name ≠ word := by
  have hreserved : ∀ word ∈ operandWords, reservedWords.contains word = true := by decide
  rintro rfl
  have hnot := (Bool.and_eq_true_iff.1 h).2
  rw [isReserved, hreserved _ hword] at hnot
  cases hnot

theorem quotedName_name (h : isBareName name = true) (rest : List Char) :
    quotedName (name.toList ++ rest) = none := by
  obtain ⟨c, cs, hname, hc, -⟩ := exists_of_isBareName h
  rw [hname, List.cons_append, quotedName, if_neg (Expr.ne_of_isNameStart hc (by decide))]

theorem columnName_append (h : isPlainName name = true) (hrest : EndsName rest) :
    columnName (name.toList ++ rest) = some (name, rest) := by
  have hbare := isBareName_of_isPlainName h
  have hread := bareName_append hbare hrest.atWordEnd
  have hquoted := quotedName_name hbare rest
  obtain ⟨c, cs, hname, hc, -⟩ := exists_of_isBareName hbare
  rw [hname, List.cons_append] at hread hquoted ⊢
  rw [columnName, skipSpace_of_not_isSpace (isSpace_of_isNameChar (isNameChar_of_isNameStart hc)),
    Reader.orElse, hquoted]
  dsimp only
  rw [unreservedName, hread]
  dsimp only
  rw [if_neg (by simpa using (Bool.and_eq_true_iff.1 h).2)]

theorem exists_raw_float {x : Binary64} (hfinite : x.isFinite = true) :
    ∃ c cs, (Literal.float x).text.toList = c :: cs ∧ (c.isDigit = true ∨ c = '-') := by
  obtain ⟨c, cs, htext, hc⟩ := Literal.floatLayout.startsNumber_write hfinite
  exact ⟨c, cs, htext, hc.symm⟩

theorem Expr.isSpellable_literal (hword : l.isWord = true) :
    (∃ x, l = .float x) ∨ (Expr.literal l).isSpellable = true := by
  cases l with
  | float x => exact .inl ⟨x, rfl⟩
  | integer n => exact .inr hword
  | string | bool | null => exact .inr rfl

/-- The text of a displayed literal starts as that of a literal in a canonical text does. -/
theorem exists_text_of_isShown (hword : l.isWord = true) (hshown : l.isShown = true) :
    ∃ c cs, l.text.toList = c :: cs ∧ isSpace c = false ∧ c ≠ '(' ∧ c ≠ '*' ∧
      ∀ rest, keyword "NOT" (c :: (cs ++ rest)) = none := by
  rcases Expr.isSpellable_literal hword with ⟨x, rfl⟩ | hspell
  · obtain ⟨c, cs, htext, hc⟩ := exists_raw_float (Bool.and_eq_true_iff.1 hshown).1
    obtain ⟨hspace, hparen, hstar, hnot⟩ := Expr.start_of_numeric hc
    exact ⟨c, cs, htext, hspace, hparen, hstar, fun rest => hnot _⟩
  · exact Expr.exists_text_literal hspell

theorem literal_text_of_isShown (hword : l.isWord = true) (hshown : l.isShown = true)
    (hrest : Follows rest) : literal (l.text.toList ++ rest) = some (l.reread, rest) := by
  rcases Expr.isSpellable_literal hword with ⟨x, rfl⟩ | hspell
  · have hread := number_raw_float hshown hrest
    obtain ⟨c, cs, htext, hc⟩ := exists_raw_float (Bool.and_eq_true_iff.1 hshown).1
    have htext' : (Literal.raw (.float x)).toList = c :: cs := htext
    rw [htext'] at hread
    rw [htext]
    exact literal_of_number hc hread
  · have hsame : l.reread = l := by
      cases l with
      | float x => cases hspell
      | _ => rfl
    rw [hsame]
    exact Expr.literal_text hspell hrest

namespace Expr

/-! ## What is displayed -/

/-- The text of the expression stands for an operand. -/
def isOperand : Expr → Bool
  | column _ _ | literal _ | call _ _ | or _ _ => true
  | _ => false

def isAnd : Expr → Bool
  | and _ _ => true
  | _ => false

/-- The arguments of a call are a star. -/
def areStar : List Expr → Bool
  | [column none name] => name == "*"
  | _ => false

mutual

/-- The display text is one of this expression. Columns need no quotes, literals can be displayed, the
operands of comparisons and of IS NULL are displayed as operands, and no NOT stands before AND. Only on the
right of a comparison, where no NOT is looked for, a function can have this name. -/
def isShownAt (right : Bool) : Expr → Bool
  | column none name => isPlainName name
  | column (some q) name => isPlainName q && isBareName name
  | literal l => l.isShown
  | comparison l op r =>
    (l.isOperand && isShownAt false l) && (r.isOperand && isShownAt true r) &&
      (Filter.comparison? l op r).all fun (_, op, value) => Filter.keepsPattern op value
  | and l r => isShownAt false l && isShownAt false r
  | or l r => isShownAt false l && isShownAt false r
  | not e => !e.isAnd && isShownAt false e
  | isNull e _ => e.isOperand && isShownAt false e
  | call f args => (right || Text.upper f != "NOT") && (areStar args || areShown args)

def areShown : List Expr → Bool
  | [] => true
  | e :: es => isShownAt false e && areShown es

end

/-- The display text is one of this expression, where it stands alone. -/
def isShown (e : Expr) : Bool :=
  e.isShownAt false

theorem areShown_iff {es : List Expr} : areShown es = true ↔ ∀ e ∈ es, isShownAt false e = true := by
  induction es with
  | nil => simp [areShown]
  | cons e es ih => simp [areShown, ih]

/-! ## What is read -/

/-- The parts of the right side joined to the left side one by one. -/
def conjoin (l : Expr) : Expr → Expr
  | and a b => and (conjoin l a) b
  | r => and l r

mutual

/-- The expression that is read from the display text: AND associates to the left, and numbers without a
fraction are integers. -/
def reread : Expr → Expr
  | column q name => column q name
  | literal l => literal l.reread
  | comparison l op r => comparison (reread l) op (reread r)
  | and l r => (reread l).conjoin (reread r)
  | or l r => or (reread l) (reread r)
  | not e => not (reread e)
  | isNull e negated => isNull (reread e) negated
  | call f args => call f (rereadAll args)

def rereadAll : List Expr → List Expr
  | [] => []
  | e :: es => reread e :: rereadAll es

end

theorem rereadAll_eq (es : List Expr) : rereadAll es = es.map reread := by
  induction es with
  | nil => rfl
  | cons e es ih => rw [rereadAll, ih, List.map_cons]

theorem textAll_eq (es : List Expr) : textAll es = es.map text := by
  induction es with
  | nil => rfl
  | cons e es ih => rw [textAll, ih, List.map_cons]

section

variable (l r e : Expr)

theorem toList_comparison (op : CompareOp) : (comparison l op r).text.toList =
    l.text.toList ++ ' ' :: (op.text.toList ++ ' ' :: r.text.toList) := by
  show (l.text ++ " " ++ op.text ++ " " ++ r.text).toList = _
  simp

theorem toList_and : (and l r).text.toList = l.text.toList ++ (" and ".toList ++ r.text.toList) := by
  show (l.text ++ " and " ++ r.text).toList = _
  simp

theorem toList_or :
    (or l r).text.toList = '(' :: (l.text.toList ++ (" or ".toList ++ r.text.toList) ++ [')']) := by
  show ("(" ++ l.text ++ " or " ++ r.text ++ ")").toList = _
  simp

theorem toList_not : (not e).text.toList = "not ".toList ++ e.text.toList := by
  show ("not " ++ e.text).toList = _
  simp

theorem toList_isNull (negated : Bool) : (isNull e negated).text.toList =
    e.text.toList ++ (if negated then " is not null" else " is null").toList :=
  String.toList_append

theorem toList_call (f : String) (args : List Expr) : (call f args).text.toList =
    f.toList ++ '(' :: (List.intercalate ", ".toList (args.map fun e => e.text.toList) ++ [')']) := by
  show (f ++ "(" ++ String.intercalate ", " (textAll args) ++ ")").toList = _
  simp [textAll_eq, String.toList_intercalate, Function.comp_def]

end

/-! ## Operands -/

variable {inner : Reader Expr} {e l r : Expr} {text left right : List Char} {q : Option String} {place : Bool}

theorem operand_name (h : isPlainName name = true) (hrest : EndsName rest)
    (hcall : Reader.symbol '(' rest = none) :
    operand inner (name.toList ++ rest) = columnRef (name.toList ++ rest) := by
  have hbare := isBareName_of_isPlainName h
  have hwords (word : String) (hword : word ∈ literalWords) : Text.upper name ≠ word :=
    upper_ne_of_isPlainName h (List.mem_cons_of_mem "NOT" hword)
  have hliteral := literal_name_eq_none hbare hwords hrest
  have hnone : callOf inner (name.toList ++ rest) = none := by
    rw [callOf, bareName_append hbare hrest.atWordEnd]
    simp [hcall]
  obtain ⟨c, cs, hname, hc, -⟩ := exists_of_isBareName hbare
  rw [hname, List.cons_append] at hliteral hnone ⊢
  rw [operand_of_name (isSpace_of_isNameChar (isNameChar_of_isNameStart hc))
    (ne_of_isNameStart hc (by decide)) hliteral, Reader.orElse, hnone]

theorem isOperand_plainColumn (h : (column q name).isShownAt place = true) :
    IsOperand inner (column q name).text.toList (column q name) := by
  intro rest hrest
  cases q with
  | none =>
      have hdot : Reader.one '.' rest = none := by
        rcases hrest.cases with rfl | ⟨c, cs, rfl, rfl | rfl | rfl⟩ <;> rfl
      rw [Expr.text, operand_name h hrest.endsName hrest.no_call, columnRef,
        columnName_append h hrest.endsName]
      simp [Reader.optional, Reader.after, hdot]
  | some q =>
      obtain ⟨hq, hname⟩ := Bool.and_eq_true_iff.1 h
      have hends : EndsName ('.' :: (name.toList ++ rest)) := endsName_cons (.inr rfl) _
      have hdot (cs : List Char) : Reader.one '.' ('.' :: cs) = some ('.', cs) := rfl
      have htext : (column (some q) name).text.toList ++ rest = q.toList ++ '.' :: (name.toList ++ rest) := by
        simp [Expr.text]
      have hlast : quotedName.orElse bareName (name.toList ++ rest) = some (name, rest) := by
        rw [Reader.orElse, quotedName_name hname]
        exact bareName_append hname hrest.atWordEnd
      rw [htext, operand_name hq hends rfl, columnRef, columnName_append hq hends]
      simp [Reader.optional, Reader.after, hdot, hlast]

/-! ## Conjunctions -/

/-- The text is that of items with AND between them, of which the first is no AND itself. -/
def IsConjunction (text : List Char) (e : Expr) : Prop :=
  ∃ c : Chain (List Char × Expr), c.text " and ".toList Prod.fst = text ∧ c.value and Prod.snd = e ∧
    c.first.2.isAnd = false ∧
    ∀ i ∈ c.items, ∀ depth, text.length ≤ depth → IsItem (readWithin depth) i.1 i.2

theorem isConjunction_of_isItem (hand : e.isAnd = false)
    (h : ∀ depth, text.length ≤ depth → IsItem (readWithin depth) text e) : IsConjunction text e := by
  refine ⟨⟨(text, e), []⟩, by simp [Chain.text], rfl, hand, fun i hi => ?_⟩
  cases List.mem_singleton.1 hi
  exact h

theorem conjoin_of_not_isAnd (h : r.isAnd = false) (l : Expr) : l.conjoin r = and l r := by
  cases r with
  | and => cases h
  | _ => rfl

theorem conjoin_foldl (hr : r.isAnd = false) (l : Expr) (more : List Expr) :
    l.conjoin (more.foldl and r) = more.foldl and (and l r) := by
  induction more using List.reverseRec with
  | nil => exact conjoin_of_not_isAnd hr l
  | append_singleton more e ih =>
      simp only [List.foldl_append, List.foldl_cons, List.foldl_nil, conjoin, ih]

theorem IsConjunction.and (hl : IsConjunction left l) (hr : IsConjunction right r) :
    IsConjunction (left ++ (" and ".toList ++ right)) (l.conjoin r) := by
  obtain ⟨c, rfl, rfl, hc, hcitems⟩ := hl
  obtain ⟨d, rfl, rfl, hd, hditems⟩ := hr
  refine ⟨⟨c.first, c.more ++ d.first :: d.more⟩, ?_, ?_, hc, fun i hi depth hdepth => ?_⟩
  · simp [Chain.text]
  · rw [Chain.value, Chain.value, Chain.value, conjoin_foldl hd, List.map_append, List.foldl_append]
    rfl
  · simp only [List.length_append] at hdepth
    rcases List.mem_append.1 (show i ∈ c.items ++ d.items from hi) with hi | hi
    · exact hcitems i hi depth (by omega)
    · exact hditems i hi depth (by omega)

theorem IsConjunction.isRead (h : IsConjunction text e) : IsRead text e := by
  obtain ⟨c, rfl, rfl, -, hitems⟩ := h
  have hread := isRead_of_items ⟨c, []⟩ Prod.fst Prod.snd fun depth hdepth g hg i hi => ?_
  · simpa [Chain.text, Chain.value] using hread
  · cases List.mem_singleton.1 hg
    exact hitems i hi depth (by simpa [Chain.text] using hdepth)

/-- Conjunctions are the sides of an OR. -/
theorem isRead_or (hl : IsConjunction left l) (hr : IsConjunction right r) :
    IsRead (left ++ (" or ".toList ++ right)) (or l r) := by
  obtain ⟨c, rfl, rfl, -, hcitems⟩ := hl
  obtain ⟨d, rfl, rfl, -, hditems⟩ := hr
  have hread := isRead_of_items ⟨c, [d]⟩ Prod.fst Prod.snd fun depth hdepth g hg i hi => ?_
  · simpa [Chain.text, Chain.value] using hread
  · rw [Chain.text, List.flatMap_singleton, List.length_append, List.length_append] at hdepth
    dsimp only at hdepth
    rcases List.mem_pair.1 hg with rfl | rfl
    · exact hcitems i hi depth (by omega)
    · exact hditems i hi depth (by omega)

/-! ## Expressions -/

/-- The text starts with no space and no star. -/
def Starts (text : List Char) : Prop :=
  ∃ c cs, text = c :: cs ∧ isSpace c = false ∧ c ≠ '*'

theorem Starts.append (h : Starts text) (more : List Char) : Starts (text ++ more) := by
  obtain ⟨c, cs, rfl, hc⟩ := h
  exact ⟨c, cs ++ more, List.cons_append, hc⟩

theorem starts_name (h : isBareName name = true) : Starts name.toList := by
  obtain ⟨c, cs, hname, hc, -⟩ := exists_of_isBareName h
  exact ⟨c, cs, hname, isSpace_of_isNameChar (isNameChar_of_isNameStart hc),
    ne_of_isNameStart hc (by decide)⟩

theorem starts_column (h : (column q name).isShownAt place = true) : Starts (column q name).text.toList := by
  cases q with
  | none => exact starts_name (isBareName_of_isPlainName h)
  | some q =>
      have hq := starts_name (isBareName_of_isPlainName (Bool.and_eq_true_iff.1 h).1)
      simpa [Expr.text] using hq.append ('.' :: name.toList)

theorem not_column (h : (column q name).isShownAt place = true) (hrest : Follows rest) :
    keyword "NOT" ((column q name).text.toList ++ rest) = none := by
  cases q with
  | none =>
      exact keyword_name_eq_none (isBareName_of_isPlainName h) (by decide)
        (upper_ne_of_isPlainName h (by decide)) hrest.endsName
  | some q =>
      have hq := (Bool.and_eq_true_iff.1 h).1
      have hends : EndsName ('.' :: (name.toList ++ rest)) := endsName_cons (.inr rfl) _
      have hnot : keyword "NOT" (q.toList ++ '.' :: (name.toList ++ rest)) = none :=
        keyword_name_eq_none (isBareName_of_isPlainName hq) (by decide)
          (upper_ne_of_isPlainName hq (by decide)) hends
      simpa [Expr.text] using hnot

/-- The display text is read as the expression where it is an operand and, except on the right of a
comparison, where it is alone or an item of a chain. -/
structure IsShownBack (right : Bool) (e : Expr) : Prop where
  start : Starts e.text.toList
  operand : e.isOperand = true →
    ∀ depth, e.text.toList.length ≤ depth → IsOperand (readWithin depth) e.text.toList e.reread
  conjunction : right = false → IsConjunction e.text.toList e.reread
  item : right = false → e.isAnd = false →
    ∀ depth, e.text.toList.length ≤ depth → IsItem (readWithin depth) e.text.toList e.reread
  not : right = false → e.isOperand = true →
    ∀ rest, Follows rest → keyword "NOT" (e.text.toList ++ rest) = none

theorem isAnd_reread (h : e.isAnd = false) : e.reread.isAnd = false := by
  cases e with
  | and => cases h
  | _ => simp [reread, isAnd]

theorem IsShownBack.of_isItem (hstart : Starts e.text.toList) (hand : e.isAnd = false)
    (hop : e.isOperand = false)
    (h : ∀ depth, e.text.toList.length ≤ depth → IsItem (readWithin depth) e.text.toList e.reread) :
    IsShownBack place e where
  start := hstart
  operand hop' := absurd (hop.symm.trans hop') Bool.false_ne_true
  conjunction _ := isConjunction_of_isItem (isAnd_reread hand) h
  item _ _ := h
  not _ hop' := absurd (hop.symm.trans hop') Bool.false_ne_true

theorem IsShownBack.of_isOperand (hstart : Starts e.text.toList) (hand : e.isAnd = false)
    (hnot : place = false → ∀ rest, Follows rest → keyword "NOT" (e.text.toList ++ rest) = none)
    (h : ∀ depth, e.text.toList.length ≤ depth → IsOperand (readWithin depth) e.text.toList e.reread) :
    IsShownBack place e where
  start := hstart
  operand _ := h
  conjunction hplace := isConjunction_of_isItem (isAnd_reread hand)
    fun depth hdepth => isItem_of_operand (h depth hdepth) (hnot hplace)
  item hplace _ := fun depth hdepth => isItem_of_operand (h depth hdepth) (hnot hplace)
  not hplace _ := hnot hplace

theorem isShownBack_literal {l : Literal} (hword : l.isWord = true) (h : l.isShown = true) :
    IsShownBack place (literal l) := by
  obtain ⟨c, cs, htext, hspace, hparen, hstar, hnot⟩ := exists_text_of_isShown hword h
  have htext' : (literal l).text.toList = c :: cs := htext
  refine .of_isOperand ⟨c, cs, htext', hspace, hstar⟩ rfl (fun _ rest _ => ?_) fun depth _ rest hrest => ?_
  · rw [htext']
    exact hnot rest
  · have hread := literal_text_of_isShown hword h hrest
    rw [htext] at hread
    rw [htext']
    exact operand_of_literal (skipSpace_of_not_isSpace hspace _) hparen hread

/-- The arguments between the parentheses are read, and a star is. -/
theorem arguments_of_isShown {args : List Expr} (h : areStar args = true ∨ ∀ e ∈ args, IsShownBack false e)
    {depth : Nat} (hdepth : ∀ e ∈ args, e.text.toList.length < depth) (rest : List Char) :
    arguments (readWithin depth)
        (List.intercalate ", ".toList (args.map fun e => e.text.toList) ++ ')' :: rest) =
      some (args.map reread, ')' :: rest) := by
  rcases h with hstar | hargs
  · unfold areStar at hstar
    split at hstar
    · next name =>
      rw [beq_iff_eq.1 hstar]
      rfl
    · cases hstar
  · exact arguments_text (fun e he => (hargs e he).start)
      (fun e he => ⟨((hargs e he).conjunction rfl).isRead, hdepth e he⟩) rest

theorem isShownBack_call {f : String} {args : List Expr} (hbare : isBareName f = true)
    (hwords : ∀ word ∈ literalWords, Text.upper f ≠ word) (hnot : place = true ∨ Text.upper f ≠ "NOT")
    (h : areStar args = true ∨ ∀ e ∈ args, IsShownBack false e) : IsShownBack place (call f args) := by
  refine .of_isOperand ?_ rfl (fun hplace rest _ => ?_) fun depth hdepth => ?_
  · rw [toList_call]
    exact (starts_name hbare).append _
  · rw [toList_call, List.append_assoc]
    exact keyword_name_eq_none hbare (by decide) (hnot.resolve_left (Bool.eq_false_iff.1 hplace))
      (endsName_cons (.inl rfl) _)
  · rw [toList_call] at hdepth ⊢
    rw [reread, rereadAll_eq]
    refine isOperand_of_arguments hbare hwords fun rest => arguments_of_isShown h (fun e he => ?_) rest
    have hle := Text.length_le_intercalate (List.mem_map_of_mem (f := fun e => e.text.toList) he) ", ".toList
    rw [List.length_append, List.length_cons, List.length_append, List.length_singleton] at hdepth
    omega

theorem isShownBack (hwritten : IsWritten e) : ∀ {place}, e.isShownAt place = true → IsShownBack place e := by
  induction hwritten with
  | column q name =>
      intro _ h
      exact .of_isOperand (starts_column h) rfl (fun _ _ => not_column h) fun _ _ => isOperand_plainColumn h
  | literal hword =>
      intro _ h
      exact isShownBack_literal hword h
  | @call f args hbare hwords _ ih =>
      intro place h
      rw [isShownAt, Bool.and_eq_true, Bool.or_eq_true, Bool.or_eq_true, bne_iff_ne, areShown_iff] at h
      exact isShownBack_call hbare hwords h.1 (h.2.imp_right fun hargs e he => ih e he (hargs e he))
  | @comparison l r op _ _ hl hr =>
      intro _ h
      simp only [isShownAt, Bool.and_eq_true] at h
      obtain ⟨⟨⟨hlop, hlshown⟩, hrop, hrshown⟩, -⟩ := h
      have hl := hl hlshown
      have hr := hr hrshown
      refine .of_isItem ?_ rfl rfl fun depth hdepth => ?_
      · rw [toList_comparison]
        exact hl.start.append _
      · rw [toList_comparison] at hdepth ⊢
        simp only [List.length_append, List.length_cons] at hdepth
        exact isItem_comparison op (hl.operand hlop depth (by omega)) (hr.operand hrop depth (by omega))
          (hl.not rfl hlop)
  | @and l r _ _ hl hr =>
      intro place h
      rw [isShownAt, Bool.and_eq_true] at h
      have hl := hl h.1
      refine ⟨?_, nofun, fun _ => ?_, fun _ => nofun, fun _ => nofun⟩
      · rw [toList_and]
        exact hl.start.append _
      · rw [toList_and]
        exact (hl.conjunction rfl).and ((hr h.2).conjunction rfl)
  | @or l r _ _ hl hr =>
      intro _ h
      rw [isShownAt, Bool.and_eq_true] at h
      have hread := isRead_or ((hl h.1).conjunction rfl) ((hr h.2).conjunction rfl)
      refine .of_isOperand ?_ rfl (fun _ rest _ => ?_) fun depth hdepth => ?_
      · rw [toList_or]
        exact ⟨'(', _, rfl, by decide, by decide⟩
      · rw [toList_or]
        rfl
      · rw [toList_or] at hdepth ⊢
        exact isOperand_of_isRead hread (by simp at hdepth ⊢; omega)
  | @not e _ he =>
      intro _ h
      simp only [isShownAt, Bool.and_eq_true, Bool.not_eq_true'] at h
      refine .of_isItem ?_ rfl rfl fun depth hdepth => ?_
      · rw [toList_not]
        exact ⟨'n', _, rfl, by decide, by decide⟩
      · rw [toList_not] at hdepth ⊢
        rw [List.length_append] at hdepth
        exact isItem_not ((he h.2).item rfl h.1 depth (by omega))
  | @isNull e negated _ he =>
      intro _ h
      rw [isShownAt, Bool.and_eq_true] at h
      have he := he h.2
      refine .of_isItem ?_ rfl rfl fun depth hdepth => ?_
      · rw [toList_isNull]
        exact he.start.append _
      · rw [toList_isNull] at hdepth ⊢
        rw [List.length_append] at hdepth
        exact isItem_isNull negated (he.operand h.1 depth (by omega)) (he.not rfl h.1)

/-- What is read and displayed is read again, with AND to the left and numbers without a fraction as
integers. -/
theorem read_text (hwritten : IsWritten e) (hshown : e.isShown = true) :
    read e.text.toList = some (e.reread, []) :=
  ((isShownBack hwritten hshown).conjunction rfl).isRead.read

end Expr
end RestSql.Sql
