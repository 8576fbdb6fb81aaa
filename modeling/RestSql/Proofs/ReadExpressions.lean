import RestSql.Proofs.OperandTexts

/-!
# What is read as an expression

What the readers of expressions give is built of columns, of literals whose integers have 64 bits, and of
calls whose names need no quotes and are no literals (`Expr.IsWritten`, `Expr.yields_read`). So what is to be
proved of every expression that is read is proved by induction on how it is built.
-/

namespace RestSql

/-! ## Readers -/

namespace Reader

variable {α β : Type} {P : α → Prop}

/-- What is read has the property. -/
def Yields (P : α → Prop) (p : Reader α) : Prop :=
  ∀ cs a rest, p cs = some (a, rest) → P a

theorem Yields.map {Q : β → Prop} {p : Reader α} (h : Yields P p) {f : α → β}
    (hf : ∀ a, P a → Q (f a)) : Yields Q (p.map f) := by
  intro cs b rest hb
  obtain ⟨⟨a, _⟩, ha, heq⟩ := Option.map_eq_some_iff.1 hb
  cases heq
  exact hf a (h cs a _ ha)

theorem Yields.orElse {p q : Reader α} (hp : Yields P p) (hq : Yields P q) :
    Yields P (p.orElse q) := by
  intro cs a rest h
  unfold Reader.orElse at h
  split at h
  · next hr =>
    cases h
    exact hp cs a rest hr
  · exact hq cs a rest h

theorem Yields.after {p : Reader β} {q : Reader α} (h : Yields P q) : Yields P (p.after q) := by
  intro cs a rest ha
  unfold Reader.after at ha
  split at ha
  · exact h _ a rest ha
  · cases ha

theorem Yields.before {p : Reader α} {q : Reader β} (h : Yields P p) : Yields P (p.before q) := by
  intro cs a rest ha
  unfold Reader.before at ha
  split at ha
  · next hp =>
    obtain ⟨_, -, heq⟩ := Option.map_eq_some_iff.1 ha
    cases heq
    exact h cs a _ hp
  · cases ha

theorem Yields.optional {p : Reader α} (h : Yields P p) (cs : List Char) :
    ∀ a ∈ (Reader.optional p cs).1, P a := by
  intro a ha
  unfold Reader.optional at ha
  split at ha
  · next hp =>
    cases ha
    exact h cs a _ hp
  · cases ha

theorem Yields.many {p : Reader α} (h : Yields P p) (cs : List Char) :
    ∀ a ∈ (Reader.many p cs).1, P a := by
  fun_induction Reader.many p cs with
  | case1 cs a rest hp _ as rest' hm ih =>
      rw [hm] at ih
      exact List.forall_mem_cons.2 ⟨h cs a rest hp, ih⟩
  | case2 | case3 => exact List.forall_mem_nil _

theorem Yields.sepBy {p : Reader α} (h : Yields P p) (sep : Reader β) :
    Yields (fun as => ∀ a ∈ as, P a) (Reader.sepBy sep p) := by
  intro cs as rest has
  unfold Reader.sepBy at has
  split at has
  · next a rest' hp =>
    cases has
    exact List.forall_mem_cons.2 ⟨h cs a rest' hp, h.after.many rest'⟩
  · cases has

end Reader

open Reader

namespace Sql

variable {cs rest : List Char}

/-! ## Literals -/

namespace Literal

/-- An integer has 64 bits. -/
def isWord : Literal → Bool
  | integer n => Word.isSigned n
  | _ => true

end Literal

theorem isWord_of_numberOf? {negative : Bool} {whole : List Char} {fraction : Option (List Char)}
    {l : Literal} (h : numberOf? negative whole fraction = some l) : l.isWord = true := by
  unfold numberOf? at h
  split at h
  · cases h
    rfl
  · obtain ⟨hsigned, heq⟩ := Option.ite_none_right_eq_some.1 h
    cases heq
    exact hsigned

theorem yields_number : Yields (·.isWord = true) number := by
  intro cs l rest h
  simp only [number, Option.bind_eq_bind, Option.bind_eq_some_iff] at h
  obtain ⟨_, -, h⟩ := h
  split at h
  · obtain ⟨_, hl, h⟩ := Option.bind_eq_some_iff.1 h
    cases h
    exact isWord_of_numberOf? hl
  · cases h

theorem yields_literal : Yields (·.isWord = true) literal := by
  have hstring : Yields (fun _ => True) stringLiteral := fun _ _ _ _ => trivial
  have hword (word : String) : Yields (fun _ => True) (keyword word) := fun _ _ _ _ => trivial
  refine Yields.orElse (hstring.map ?_) (yields_number.orElse ?_)
  · exact fun _ _ => rfl
  · refine Yields.orElse ((hword _).map ?_) (Yields.orElse ((hword _).map ?_) ((hword _).map ?_))
    all_goals exact fun _ _ => rfl

/-! ## Names of calls -/

theorem eq_append_of_bareName {name : String} (h : bareName cs = some (name, rest)) :
    cs = name.toList ++ rest ∧ isBareName name = true ∧ atWordEnd rest = true := by
  cases cs with
  | nil => cases h
  | cons c cs =>
      obtain ⟨hc, heq⟩ := Option.ite_none_right_eq_some.1 h
      cases heq
      rw [String.toList_ofList, List.cons_append, List.takeWhile_append_dropWhile]
      refine ⟨rfl, ?_, ?_⟩
      · rw [isBareName, String.toList_ofList]
        dsimp only
        rw [hc, List.all_takeWhile]
        rfl
      · unfold atWordEnd
        split
        · next d ds hdrop =>
          have hhead := List.head?_dropWhile_not isNameChar cs
          rw [hdrop] at hhead
          simpa using hhead
        · rfl

/-- What is no literal does not start with a word for one. -/
theorem keyword_eq_none_of_literal (h : Sql.literal cs = none) {word : String} (hword : word ∈ literalWords) :
    keyword word cs = none := by
  have hnone {α : Type} {p q : Reader α} (h : p.orElse q cs = none) : p cs = none ∧ q cs = none := by
    unfold Reader.orElse at h
    split at h
    · cases h
    · next hp => exact ⟨hp, h⟩
  obtain ⟨htrue, h⟩ := hnone (hnone (hnone h).2).2
  obtain ⟨hfalse, hnull⟩ := hnone h
  rcases List.mem_cons.1 hword with rfl | hword
  · exact Option.map_eq_none_iff.1 htrue
  · rcases List.mem_pair.1 hword with rfl | rfl
    · exact Option.map_eq_none_iff.1 hfalse
    · exact Option.map_eq_none_iff.1 hnull

theorem upper_ne_of_literal {name : String} (hname : bareName cs = some (name, rest))
    (h : Sql.literal cs = none) {word : String} (hword : word ∈ literalWords) : Text.upper name ≠ word := by
  rintro rfl
  obtain ⟨rfl, hbare, hrest⟩ := eq_append_of_bareName hname
  have hnone := keyword_eq_none_of_literal h hword
  have hspace : name.toList.all (!isSpace ·) = true :=
    List.all_eq_true.2 fun c hc => by simp [isSpace_of_isNameChar (isNameChar_of_mem hbare hc)]
  rw [keyword_of_upper (mt String.toList_eq_nil_iff.1 (isBareName_ne hbare)) ?_ hspace hrest] at hnone
  · cases hnone
  · rw [Text.upper, String.toList_map]

namespace Expr

variable {inner : Reader Expr}

/-- Expressions that are built of what can be read as a column, a literal or the name of a call. -/
inductive IsWritten : Expr → Prop
  | column (q : Option String) (name : String) : IsWritten (column q name)
  | literal {l : Literal} (hword : l.isWord = true) : IsWritten (literal l)
  | call {f : String} {args : List Expr} (hbare : isBareName f = true)
    (hwords : ∀ word ∈ literalWords, Text.upper f ≠ word) (hargs : ∀ e ∈ args, IsWritten e) :
    IsWritten (call f args)
  | comparison {l r : Expr} (op : CompareOp) (hl : IsWritten l) (hr : IsWritten r) :
    IsWritten (comparison l op r)
  | and {l r : Expr} (hl : IsWritten l) (hr : IsWritten r) : IsWritten (and l r)
  | or {l r : Expr} (hl : IsWritten l) (hr : IsWritten r) : IsWritten (or l r)
  | not {e : Expr} (he : IsWritten e) : IsWritten (not e)
  | isNull {e : Expr} (negated : Bool) (he : IsWritten e) : IsWritten (isNull e negated)

theorem yields_arguments (hinner : Yields IsWritten inner) :
    Yields (fun args => ∀ e ∈ args, IsWritten e) (arguments inner) := by
  refine Yields.orElse ?_ fun cs args rest hargs => ?_
  · exact Yields.map (P := fun _ => True) (fun _ _ _ _ => trivial)
      fun _ _ => List.forall_mem_singleton.2 (.column none "*")
  · cases hargs
    have hlist := (hinner.sepBy comma).optional cs
    show ∀ e ∈ (Reader.optional (Reader.sepBy comma inner) cs).1.getD [], IsWritten e
    cases hread : (Reader.optional (Reader.sepBy comma inner) cs).1 with
    | none => exact List.forall_mem_nil _
    | some args => exact hlist args hread

theorem yields_columnRef : Yields IsWritten columnRef := by
  intro cs e rest he
  simp only [columnRef, Option.bind_eq_bind, Option.bind_eq_some_iff] at he
  obtain ⟨_, -, he⟩ := he
  split at he <;>
    · cases he
      exact .column _ _

theorem isWritten_of_callOf (hinner : Yields IsWritten inner) (hliteral : Sql.literal cs = none) {e : Expr}
    (he : callOf inner cs = some (e, rest)) : IsWritten e := by
  simp only [callOf, Option.bind_eq_bind, Option.bind_eq_some_iff, Option.some.injEq, Prod.mk.injEq,
    Prod.exists] at he
  obtain ⟨name, _, hname, _, _, -, args, _, hargs, rfl, -⟩ := he
  exact .call (eq_append_of_bareName hname).2.1 (fun _ => upper_ne_of_literal hname hliteral)
    ((yields_arguments hinner).before _ _ _ hargs)

theorem yields_operand (hinner : Yields IsWritten inner) : Yields IsWritten (operand inner) := by
  intro cs e rest he
  rw [operand, Reader.orElse] at he
  split at he
  · next hparens =>
    cases he
    exact hinner.before.after _ _ _ hparens
  · rw [Reader.orElse] at he
    split at he
    · next hread =>
      cases he
      exact yields_literal.map (fun _ => .literal) _ _ _ hread
    -- a call is read only where no literal is
    · next hnone =>
      rw [Reader.orElse] at he
      split at he
      · next hcall =>
        cases he
        exact isWritten_of_callOf hinner (Option.map_eq_none_iff.1 hnone) hcall
      · exact yields_columnRef _ _ _ he

theorem yields_test (hinner : Yields IsWritten inner) : Yields IsWritten (test inner) := by
  have hlike : Yields (fun r => IsWritten r.2) (likeTest inner) := by
    intro cs r rest hr
    simp only [likeTest, Option.bind_eq_bind, Option.bind_eq_some_iff, Option.some.injEq, Prod.mk.injEq,
      Prod.exists] at hr
    obtain ⟨_, _, -, right, _, hright, rfl, -⟩ := hr
    exact yields_operand hinner _ _ _ hright
  have hcompare : Yields (fun r => IsWritten r.2) (compareTest inner) := by
    intro cs r rest hr
    simp only [compareTest, Option.bind_eq_bind, Option.bind_eq_some_iff, Option.some.injEq,
      Prod.mk.injEq, Prod.exists] at hr
    obtain ⟨_, _, -, right, _, hright, rfl, -⟩ := hr
    exact yields_operand hinner _ _ _ hright
  intro cs e rest he
  simp only [test, Option.bind_eq_bind, Option.bind_eq_some_iff, Prod.exists] at he
  obtain ⟨left, cs', hleft, he⟩ := he
  have hl : IsWritten left := yields_operand hinner _ _ _ hleft
  split at he
  · cases he
    exact .isNull _ hl
  · split at he
    · next hr =>
      cases he
      exact .comparison _ hl (hlike.orElse hcompare _ _ _ hr)
    · cases he
      exact hl

theorem yields_negation (hinner : Yields IsWritten inner) (fuel : Nat) :
    Yields IsWritten (negation inner fuel) := by
  induction fuel with
  | zero => exact yields_test hinner
  | succ fuel ih => exact (ih.after.map fun _ => .not).orElse (yields_test hinner)

section

variable {join : Expr → Expr → Expr} (hjoin : ∀ l r, IsWritten l → IsWritten r → IsWritten (join l r))

include hjoin

theorem isWritten_foldl {more : List Expr} (h : ∀ e ∈ more, IsWritten e) {first : Expr}
    (hfirst : IsWritten first) : IsWritten (more.foldl join first) := by
  induction more generalizing first with
  | nil => exact hfirst
  | cons e more ih =>
      obtain ⟨he, hmore⟩ := List.forall_mem_cons.1 h
      exact ih hmore (hjoin first e hfirst he)

theorem yields_chain {p : Reader Expr} (h : Yields IsWritten p) (word : String) :
    Yields IsWritten (chain word join p) := by
  intro cs e rest he
  unfold chain at he
  split at he
  · next first cs' hfirst =>
    cases he
    exact isWritten_foldl hjoin (h.after.many cs') (h _ _ _ hfirst)
  · cases he

end

theorem yields_readWithin (depth : Nat) : Yields IsWritten (readWithin depth) := by
  induction depth with
  | zero => exact fun _ _ _ h => nomatch h
  | succ depth ih =>
      intro cs
      refine yields_chain (fun _ _ => .or) ?_ "OR" cs
      exact yields_chain (fun _ _ => .and) (yields_negation ih cs.length) "AND"

/-- Every expression that is read is built of what can be read. -/
theorem yields_read : Yields IsWritten read := fun cs =>
  yields_readWithin (cs.length + 1) cs

theorem yields_readOperand : Yields IsWritten readOperand :=
  yields_operand yields_read

end Expr
end Sql
end RestSql
