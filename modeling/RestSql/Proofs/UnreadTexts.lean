import Mathlib.Data.List.Infix
import RestSql.Sql.Statement.Reader

/-!
# What readers leave unread

Every reader of the dialect, from words up to statements, leaves a suffix of the text that it gets
(`Statement.leaves_read`). Where one has read a part, the next one goes on with what is left, so what is
unread at any point is the end of the whole text.
-/

namespace RestSql

/-! ## Readers of readers -/

namespace Reader

variable {α β : Type}

theorem leaves_satisfying (p : Char → Bool) : Leaves (satisfying p) := by
  intro cs a rest h
  cases cs with
  | nil => cases h
  | cons c cs =>
      obtain ⟨-, heq⟩ := Option.ite_none_right_eq_some.1 h
      cases heq
      exact List.suffix_cons _ _

theorem leaves_one (c : Char) : Leaves (one c) :=
  leaves_satisfying _

/-- Spaces before what is read are passed over. -/
theorem Leaves.spaced {p : Reader α} (h : Leaves p) : Leaves fun cs => p (skipSpace cs) :=
  fun cs a rest ha => (h _ a rest ha).trans (skipSpace_suffix cs)

theorem leaves_symbol (c : Char) : Leaves (symbol c) :=
  (leaves_one c).spaced

theorem Leaves.map {p : Reader α} (h : Leaves p) (f : α → β) : Leaves (p.map f) := by
  intro cs b rest hb
  obtain ⟨⟨a, _⟩, ha, heq⟩ := Option.map_eq_some_iff.1 hb
  cases heq
  exact h cs a _ ha

theorem Leaves.orElse {p q : Reader α} (hp : Leaves p) (hq : Leaves q) : Leaves (p.orElse q) := by
  intro cs a rest h
  unfold Reader.orElse at h
  split at h
  · next hr =>
    cases h
    exact hp cs a rest hr
  · exact hq cs a rest h

theorem Leaves.after {p : Reader α} {q : Reader β} (hp : Leaves p) (hq : Leaves q) :
    Leaves (p.after q) := by
  intro cs b rest h
  unfold Reader.after at h
  split at h
  · next a middle ha => exact (hq middle b rest h).trans (hp cs a middle ha)
  · cases h

theorem Leaves.before {p : Reader α} {q : Reader β} (hp : Leaves p) (hq : Leaves q) :
    Leaves (p.before q) := by
  intro cs a rest h
  unfold Reader.before at h
  split at h
  · next b middle hb =>
    obtain ⟨⟨c, _⟩, hc, heq⟩ := Option.map_eq_some_iff.1 h
    cases heq
    exact (hq middle c _ hc).trans (hp cs _ middle hb)
  · cases h

theorem Leaves.optional {p : Reader α} (h : Leaves p) (cs : List Char) :
    (Reader.optional p cs).2 <:+ cs := by
  unfold Reader.optional
  split
  · next a rest ha => exact h cs a rest ha
  · exact List.suffix_rfl

theorem Leaves.sepBy {sep : Reader β} {p : Reader α} (hsep : Leaves sep) (hp : Leaves p) :
    Leaves (sepBy sep p) := by
  intro cs as rest h
  unfold Reader.sepBy at h
  split at h
  · next a middle ha =>
    cases h
    exact (many_suffix (hsep.after hp) middle).trans (hp cs a middle ha)
  · cases h

end Reader

open Reader

theorem Reader.leaves_digits : Leaves digits := by
  intro cs ds rest h
  unfold digits at h
  split at h
  · cases h
  · cases h
    exact List.dropWhile_suffix _

namespace Sql

/-! ## Words -/

theorem suffix_of_afterWord? {word cs rest : List Char} (h : afterWord? word cs = some rest) :
    rest <:+ cs := by
  induction word generalizing cs with
  | nil =>
      cases h
      exact List.suffix_rfl
  | cons w ws ih =>
      cases cs with
      | nil => cases h
      | cons c cs =>
          obtain ⟨-, h⟩ := Option.ite_none_right_eq_some.1 h
          exact (ih h).trans (List.suffix_cons c cs)

theorem leaves_keyword (word : String) : Leaves (keyword word) := by
  intro cs a rest h
  unfold keyword at h
  split at h
  · next hword =>
    obtain ⟨-, heq⟩ := Option.ite_none_right_eq_some.1 h
    cases heq
    exact (suffix_of_afterWord? hword).trans (skipSpace_suffix cs)
  · cases h

theorem leaves_comma : Leaves comma :=
  (leaves_symbol ',').map _

theorem leaves_bareName : Leaves bareName := by
  intro cs name rest h
  cases cs with
  | nil => cases h
  | cons c cs =>
      obtain ⟨-, heq⟩ := Option.ite_none_right_eq_some.1 h
      cases heq
      exact (List.dropWhile_suffix _).trans (List.suffix_cons _ _)

theorem suffix_of_cutFirst {p : Char → Bool} {cs front rest : List Char}
    (h : Text.cutFirst p cs = some (front, rest)) : rest <:+ cs := by
  induction cs generalizing front with
  | nil => cases h
  | cons c cs ih =>
      rw [Text.cutFirst] at h
      split at h
      · cases h
        exact List.suffix_cons _ _
      · obtain ⟨⟨a, b⟩, hcut, heq⟩ := Option.map_eq_some_iff.1 h
        cases heq
        exact (ih hcut).trans (List.suffix_cons c cs)

theorem leaves_quotedName : Leaves quotedName := by
  intro cs name rest h
  cases cs with
  | nil => cases h
  | cons c cs =>
      obtain ⟨-, h⟩ := Option.ite_none_right_eq_some.1 h
      split at h
      · cases h
      · next hcut =>
        cases h
        exact (suffix_of_cutFirst hcut).trans (List.suffix_cons c cs)
      · cases h

theorem leaves_anyName : Leaves anyName :=
  (leaves_quotedName.orElse leaves_bareName).spaced

theorem leaves_unreservedName : Leaves unreservedName := by
  intro cs name rest h
  unfold unreservedName at h
  split at h
  · next hname =>
    obtain ⟨-, heq⟩ := Option.ite_none_left_eq_some.1 h
    cases heq
    exact leaves_bareName cs _ _ hname
  · cases h

theorem leaves_columnName : Leaves columnName :=
  (leaves_quotedName.orElse leaves_unreservedName).spaced

theorem leaves_quotedRest (q : Char) : Leaves (quotedRest q) := by
  intro cs body rest h
  fun_induction quotedRest q cs generalizing body with
  | case1 => cases h
  | case2 _ ih =>
      obtain ⟨⟨_, _⟩, hbody, heq⟩ := Option.map_eq_some_iff.1 h
      cases heq
      exact (ih _ hbody).trans ((List.suffix_cons q _).trans (List.suffix_cons q _))
  | case3 | case4 =>
      cases h
      exact List.suffix_cons q _
  | case5 c _ _ ih =>
      obtain ⟨⟨_, _⟩, hbody, heq⟩ := Option.map_eq_some_iff.1 h
      cases heq
      exact (ih _ hbody).trans (List.suffix_cons c _)

theorem leaves_stringLiteral : Leaves stringLiteral := by
  intro cs s rest h
  cases cs with
  | nil => cases h
  | cons c cs =>
      obtain ⟨-, h⟩ := Option.ite_none_right_eq_some.1 h
      obtain ⟨⟨body, _⟩, hbody, heq⟩ := Option.map_eq_some_iff.1 h
      cases heq
      exact (leaves_quotedRest c cs body _ hbody).trans (List.suffix_cons c cs)

theorem leaves_number : Leaves number := by
  intro cs l rest h
  simp only [number, Option.bind_eq_bind, Option.bind_eq_some_iff] at h
  obtain ⟨⟨whole, cs₁⟩, hwhole, h⟩ := h
  split at h
  · obtain ⟨_, -, h⟩ := Option.bind_eq_some_iff.1 h
    cases h
    exact (((leaves_one '.').after leaves_digits).optional cs₁).trans
      ((leaves_digits _ _ _ hwhole).trans ((leaves_one '-').optional cs))
  · cases h

theorem leaves_literal : Leaves literal :=
  (leaves_stringLiteral.map _).orElse <| leaves_number.orElse <|
    ((leaves_keyword "TRUE").map _).orElse <| ((leaves_keyword "FALSE").map _).orElse <|
      (leaves_keyword "NULL").map _

/-! ## Expressions -/

namespace Expr

variable {inner : Reader Expr}

theorem leaves_arguments (hinner : Leaves inner) : Leaves (arguments inner) := by
  refine ((leaves_symbol '*').map _).orElse fun cs args rest h => ?_
  cases h
  exact (leaves_comma.sepBy hinner).optional cs

theorem leaves_callOf (hinner : Leaves inner) : Leaves (callOf inner) := by
  intro cs e rest h
  simp only [callOf, Option.bind_eq_bind, Option.bind_eq_some_iff] at h
  obtain ⟨⟨_, _⟩, hname, ⟨_, _⟩, hopen, ⟨_, _⟩, hargs, h⟩ := h
  cases h
  exact (((leaves_arguments hinner).before (leaves_symbol ')')) _ _ _ hargs).trans
    ((leaves_symbol '(' _ _ _ hopen).trans (leaves_bareName _ _ _ hname))

theorem leaves_columnRef : Leaves columnRef := by
  intro cs e rest h
  simp only [columnRef, Option.bind_eq_bind, Option.bind_eq_some_iff] at h
  obtain ⟨⟨_, middle⟩, hfirst, h⟩ := h
  have hqualified := ((leaves_one '.').after (leaves_quotedName.orElse leaves_bareName)).optional middle
  split at h
  · next hread =>
    cases h
    rw [hread] at hqualified
    exact hqualified.trans (leaves_columnName _ _ _ hfirst)
  · next hread =>
    cases h
    rw [hread] at hqualified
    exact hqualified.trans (leaves_columnName _ _ _ hfirst)

theorem leaves_operand (hinner : Leaves inner) : Leaves (operand inner) := by
  refine Leaves.spaced (Leaves.orElse ?_ ((leaves_literal.map _).orElse
    ((leaves_callOf hinner).orElse leaves_columnRef)))
  exact (leaves_one '(').after (hinner.before (leaves_symbol ')'))

theorem leaves_nullTest : Leaves nullTest := by
  intro cs negated rest h
  simp only [nullTest, Option.bind_eq_bind, Option.bind_eq_some_iff] at h
  obtain ⟨⟨_, middle⟩, his, ⟨_, _⟩, hnull, h⟩ := h
  cases h
  exact (leaves_keyword "NULL" _ _ _ hnull).trans
    (((leaves_keyword "NOT").optional middle).trans (leaves_keyword "IS" _ _ _ his))

theorem leaves_likeTest (hinner : Leaves inner) : Leaves (likeTest inner) := by
  intro cs a rest h
  simp only [likeTest, Option.bind_eq_bind, Option.bind_eq_some_iff] at h
  obtain ⟨⟨_, _⟩, hlike, ⟨_, _⟩, hright, h⟩ := h
  cases h
  exact (leaves_operand hinner _ _ _ hright).trans
    ((leaves_keyword "LIKE" _ _ _ hlike).trans ((leaves_keyword "NOT").optional cs))

theorem leaves_compareOp : Leaves compareOp := by
  intro cs op rest h
  refine List.IsSuffix.trans ?_ (skipSpace_suffix cs)
  unfold compareOp at h
  split at h
  case h_8 => cases h
  all_goals
    next heq =>
      cases h
      rw [heq]
      first
      | exact List.suffix_cons _ _
      | exact (List.suffix_cons _ _).trans (List.suffix_cons _ _)

theorem leaves_compareTest (hinner : Leaves inner) : Leaves (compareTest inner) := by
  intro cs a rest h
  simp only [compareTest, Option.bind_eq_bind, Option.bind_eq_some_iff] at h
  obtain ⟨⟨_, _⟩, hop, ⟨_, _⟩, hright, h⟩ := h
  cases h
  exact (leaves_operand hinner _ _ _ hright).trans (leaves_compareOp _ _ _ hop)

theorem leaves_test (hinner : Leaves inner) : Leaves (test inner) := by
  intro cs e rest h
  simp only [test, Option.bind_eq_bind, Option.bind_eq_some_iff] at h
  obtain ⟨⟨left, middle⟩, hleft, h⟩ := h
  have hleft := leaves_operand hinner _ _ _ hleft
  split at h
  · next hnull =>
    cases h
    exact (leaves_nullTest _ _ _ hnull).trans hleft
  · split at h
    · next hright =>
      cases h
      exact ((leaves_likeTest hinner).orElse (leaves_compareTest hinner) _ _ _ hright).trans hleft
    · cases h
      exact hleft

theorem leaves_negation (hinner : Leaves inner) (fuel : Nat) : Leaves (negation inner fuel) := by
  induction fuel with
  | zero => exact leaves_test hinner
  | succ fuel ih => exact (((leaves_keyword "NOT").after ih).map _).orElse (leaves_test hinner)

theorem leaves_chain {p : Reader Expr} (hp : Leaves p) (word : String) (join : Expr → Expr → Expr) :
    Leaves (chain word join p) := by
  intro cs e rest h
  unfold chain at h
  split at h
  · next first middle hfirst =>
    cases h
    exact (many_suffix ((leaves_keyword word).after hp) middle).trans (hp _ _ _ hfirst)
  · cases h

theorem leaves_readWithin (depth : Nat) : Leaves (readWithin depth) := by
  induction depth with
  | zero => exact fun _ _ _ h => nomatch h
  | succ depth ih =>
      intro cs e rest h
      exact leaves_chain (leaves_chain (leaves_negation ih _) _ _) _ _ cs e rest h

theorem leaves_read : Leaves Expr.read :=
  fun cs => leaves_readWithin _ cs

theorem leaves_readOperand : Leaves readOperand :=
  leaves_operand leaves_read

end Expr

/-! ## Statements -/

theorem Name.leaves_read : Leaves Name.read := by
  intro cs name rest h
  unfold Name.read at h
  split at h
  · next hparts =>
    obtain ⟨-, heq⟩ := Option.ite_none_right_eq_some.1 h
    cases heq
    exact (leaves_symbol '.').sepBy leaves_anyName _ _ _ hparts
  · cases h

theorem leaves_labelName : Leaves labelName :=
  fun cs _ _ h => (leaves_columnName _ _ _ h).trans ((leaves_keyword "AS").optional cs)

theorem leaves_nameList : Leaves nameList :=
  (leaves_symbol '(').after ((leaves_comma.sepBy leaves_anyName).before (leaves_symbol ')'))

theorem suffix_clause {α : Type} {p : Reader α} (hp : Leaves p) (word : String) (cs : List Char) :
    (clause word p cs).2 <:+ cs :=
  ((leaves_keyword word).after hp).optional cs

theorem leaves_spacedString : Leaves spacedString :=
  leaves_stringLiteral.spaced

theorem leaves_oneOf {α : Type} (words : List (String × α)) : Leaves (oneOf words) := by
  induction words with
  | nil => exact fun _ _ _ h => nomatch h
  | cons entry more ih => exact ((leaves_keyword entry.1).map _).orElse ih

namespace Source

theorem leaves_readTable : Leaves readTable := by
  intro cs s rest h
  simp only [readTable, Option.bind_eq_bind, Option.bind_eq_some_iff] at h
  obtain ⟨⟨_, middle⟩, hname, h⟩ := h
  cases h
  exact (leaves_labelName.optional middle).trans (Name.leaves_read _ _ _ hname)

theorem leaves_readJoin : Leaves readJoin := by
  intro cs j rest h
  simp only [readJoin, Option.bind_eq_bind, Option.bind_eq_some_iff] at h
  obtain ⟨⟨_, _⟩, hjoin, ⟨_, middle⟩, hright, h⟩ := h
  cases h
  exact (suffix_clause Expr.leaves_read "ON" middle).trans ((leaves_readTable _ _ _ hright).trans
    ((leaves_keyword "JOIN" _ _ _ hjoin).trans ((leaves_oneOf _).optional cs)))

theorem leaves_readComma : Leaves readComma :=
  (leaves_comma.after leaves_readTable).map _

theorem leaves_read : Leaves Source.read := by
  intro cs s rest h
  simp only [Source.read, Option.bind_eq_bind, Option.bind_eq_some_iff] at h
  obtain ⟨⟨_, middle⟩, hfirst, h⟩ := h
  cases h
  exact (many_suffix (leaves_readJoin.orElse leaves_readComma) middle).trans
    (leaves_readTable _ _ _ hfirst)

end Source

theorem SelectItem.leaves_read : Leaves SelectItem.read := by
  refine ((leaves_symbol '*').map _).orElse fun cs item rest h => ?_
  simp only [Option.bind_eq_bind, Option.bind_eq_some_iff] at h
  obtain ⟨⟨_, middle⟩, he, h⟩ := h
  cases h
  exact (leaves_labelName.optional middle).trans (Expr.leaves_read _ _ _ he)

theorem OrderBy.leaves_read : Leaves OrderBy.read := by
  intro cs o rest h
  simp only [OrderBy.read, Option.bind_eq_bind, Option.bind_eq_some_iff] at h
  obtain ⟨⟨_, middle⟩, hcolumn, h⟩ := h
  cases h
  exact ((leaves_oneOf _).optional middle).trans (leaves_columnName _ _ _ hcolumn)

theorem Select.leaves_read : Leaves Select.read := by
  intro cs s rest h
  simp only [Select.read, Option.bind_eq_bind, Option.bind_eq_some_iff] at h
  obtain ⟨⟨_, _⟩, hselect, ⟨_, middle⟩, hitems, h⟩ := h
  cases h
  have horder := (leaves_keyword "BY").after (leaves_comma.sepBy OrderBy.leaves_read)
  calc
    _ <:+ _ := suffix_clause leaves_digits.spaced "LIMIT" _
    _ <:+ _ := suffix_clause horder "ORDER" _
    _ <:+ _ := suffix_clause Expr.leaves_read "WHERE" _
    _ <:+ middle := suffix_clause Source.leaves_read "FROM" middle
    _ <:+ _ := leaves_comma.sepBy SelectItem.leaves_read _ _ _ hitems
    _ <:+ cs := leaves_keyword "SELECT" _ _ _ hselect

theorem Insert.leaves_readRows : Leaves Insert.readRows := by
  have hlist : Leaves ((symbol '(').after ((sepBy comma Expr.read).before (symbol ')'))) :=
    (leaves_symbol '(').after ((leaves_comma.sepBy Expr.leaves_read).before (leaves_symbol ')'))
  exact ((leaves_keyword "VALUES").after (leaves_comma.sepBy hlist)).orElse
    (((leaves_keyword "SELECT").after (leaves_comma.sepBy Expr.leaves_read)).map _)

theorem Insert.leaves_read : Leaves Insert.read := by
  intro cs i rest h
  simp only [Insert.read, Option.bind_eq_bind, Option.bind_eq_some_iff] at h
  obtain ⟨⟨_, _⟩, hinsert, ⟨_, _⟩, hinto, ⟨_, middle⟩, htable, ⟨_, _⟩, hrows, h⟩ := h
  cases h
  calc
    _ <:+ _ := Insert.leaves_readRows _ _ _ hrows
    _ <:+ middle := leaves_nameList.optional middle
    _ <:+ _ := Name.leaves_read _ _ _ htable
    _ <:+ _ := leaves_keyword "INTO" _ _ _ hinto
    _ <:+ cs := leaves_keyword "INSERT" _ _ _ hinsert

theorem Delete.leaves_read : Leaves Delete.read := by
  intro cs d rest h
  simp only [Delete.read, Option.bind_eq_bind, Option.bind_eq_some_iff] at h
  obtain ⟨⟨_, _⟩, hdelete, ⟨_, _⟩, hfrom, ⟨_, middle⟩, htable, h⟩ := h
  cases h
  calc
    _ <:+ middle := suffix_clause Expr.leaves_read "WHERE" middle
    _ <:+ _ := Name.leaves_read _ _ _ htable
    _ <:+ _ := leaves_keyword "FROM" _ _ _ hfrom
    _ <:+ cs := leaves_keyword "DELETE" _ _ _ hdelete

namespace Exec

theorem leaves_readBinding {α : Type} {p : Reader α} (hp : Leaves p) : Leaves (readBinding p) := by
  intro cs a rest h
  simp only [readBinding, Option.bind_eq_bind, Option.bind_eq_some_iff] at h
  obtain ⟨⟨_, _⟩, hname, ⟨_, _⟩, hequals, ⟨_, _⟩, hvalue, h⟩ := h
  cases h
  exact (hp _ _ _ hvalue).trans
    ((leaves_symbol '=' _ _ _ hequals).trans (leaves_bareName _ _ _ hname))

theorem leaves_readArgument : Leaves readArgument := by
  refine Leaves.spaced (Leaves.orElse (Leaves.map ?_ _) (Leaves.map ?_ _))
  · exact (leaves_one '@').after ((leaves_one '@').after (leaves_readBinding leaves_spacedString))
  · exact (leaves_one '@').after (leaves_readBinding Expr.leaves_readOperand)

theorem leaves_read : Leaves Exec.read := by
  intro cs e rest h
  simp only [Exec.read, Option.bind_eq_bind, Option.bind_eq_some_iff] at h
  obtain ⟨⟨_, _⟩, hexec, ⟨_, middle⟩, hmethod, h⟩ := h
  cases h
  have hargument : Leaves fun cs => readArgument (Reader.optional comma cs).2 :=
    fun cs _ _ h => (leaves_readArgument _ _ _ h).trans (leaves_comma.optional cs)
  exact (many_suffix hargument middle).trans
    ((Name.leaves_read _ _ _ hmethod).trans (leaves_keyword "EXEC" _ _ _ hexec))

end Exec

namespace Show

theorem leaves_readTarget (kind : String) : Leaves (readTarget kind) := by
  intro cs a rest h
  unfold readTarget at h
  split at h
  · simp only [Option.bind_eq_bind, Option.bind_eq_some_iff] at h
    obtain ⟨⟨_, _⟩, hinto, ⟨_, middle⟩, htable, h⟩ := h
    cases h
    exact (leaves_nameList.optional middle).trans
      ((Name.leaves_read _ _ _ htable).trans (leaves_keyword "INTO" _ _ _ hinto))
  · cases h
    exact ((leaves_oneOf _).after Name.leaves_read).optional cs

theorem leaves_readFilter : Leaves readFilter :=
  (((leaves_keyword "LIKE").after leaves_spacedString).map _).orElse
    (((leaves_keyword "WHERE").after Expr.leaves_read).map _)

theorem leaves_read : Leaves Show.read := by
  intro cs s rest h
  simp only [Show.read, Option.bind_eq_bind, Option.bind_eq_some_iff] at h
  obtain ⟨⟨_, middle⟩, hshow, ⟨_, _⟩, hkind, ⟨_, last⟩, htarget, h⟩ := h
  cases h
  calc
    _ <:+ last := leaves_readFilter.optional last
    _ <:+ _ := leaves_readTarget _ _ _ _ htarget
    _ <:+ _ := leaves_bareName.spaced _ _ _ hkind
    _ <:+ middle := (leaves_keyword "EXTENDED").optional middle
    _ <:+ cs := leaves_keyword "SHOW" _ _ _ hshow

end Show

theorem Describe.leaves_read : Leaves Describe.read := by
  intro cs d rest h
  simp only [Describe.read, Option.bind_eq_bind, Option.bind_eq_some_iff] at h
  obtain ⟨⟨_, middle⟩, hdescribe, ⟨_, _⟩, htable, h⟩ := h
  cases h
  calc
    _ <:+ _ := Name.leaves_read _ _ _ htable
    _ <:+ _ := (leaves_keyword "FULL").optional _
    _ <:+ middle := (leaves_keyword "EXTENDED").optional middle
    _ <:+ cs := leaves_oneOf _ _ _ _ hdescribe

namespace Statement

theorem leaves_readSelect : Leaves readSelect := by
  intro cs s rest h
  simp only [readSelect, Option.bind_eq_bind, Option.bind_eq_some_iff] at h
  obtain ⟨⟨_, _⟩, hselect, h⟩ := h
  split at h
  · cases h
    exact List.nil_suffix
  · cases h
    exact Select.leaves_read _ _ _ hselect

theorem leaves_readAuth : Leaves readAuth := by
  intro cs s rest h
  simp only [readAuth, Option.bind_eq_bind, Option.bind_eq_some_iff] at h
  obtain ⟨⟨_, _⟩, hauth, h⟩ := h
  have hauth := leaves_keyword "AUTH" _ _ _ hauth
  split at h
  · next hrevoke =>
    exact (leaves_anyName.map _ _ _ _ h).trans ((leaves_keyword "REVOKE" _ _ _ hrevoke).trans hauth)
  · obtain ⟨⟨_, middle⟩, hprovider, h⟩ := Option.bind_eq_some_iff.1 h
    cases h
    calc
      _ <:+ _ := suffix_clause leaves_spacedString "KEYFILE" _
      _ <:+ middle := (leaves_oneOf _).optional middle
      _ <:+ _ := leaves_anyName _ _ _ hprovider
      _ <:+ cs := hauth

theorem leaves_readUnsupported : Leaves readUnsupported := by
  intro cs s rest h
  simp only [readUnsupported, Option.bind_eq_bind, Option.bind_eq_some_iff] at h
  obtain ⟨⟨_, _⟩, -, h⟩ := h
  obtain ⟨-, heq⟩ := Option.ite_none_right_eq_some.1 h
  cases heq
  exact List.nil_suffix

/-- What is left of a text after a statement at its front is a suffix of it. -/
theorem leaves_read : Leaves Statement.read :=
  leaves_readSelect.orElse <| (Insert.leaves_read.map _).orElse <|
    (Delete.leaves_read.map _).orElse <| (Exec.leaves_read.map _).orElse <|
      (Show.leaves_read.map _).orElse <| (Describe.leaves_read.map _).orElse <|
        leaves_readAuth.orElse <| (((leaves_keyword "USE").after leaves_anyName).map _).orElse <|
          (((leaves_keyword "SLEEP").after Expr.leaves_readOperand).map _).orElse
            leaves_readUnsupported

end Statement

end Sql
end RestSql
