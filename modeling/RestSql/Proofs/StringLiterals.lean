import RestSql.Proofs.Literals
import RestSql.Proofs.StatementEnds

/-!
# String literals are read back

A string in quotes, the quotes in it written twice, stands for itself whatever it holds. Three scans have
to agree on that: for the two that look for comments and semicolons a doubled quote ends one quoted text
and starts another, and for the reader of literals it is a quote (`quotedLiteral_survives`).
-/

namespace RestSql.Sql

/-- The text with every `q` written twice. -/
def doubled (q : Char) (cs : List Char) : List Char :=
  cs.flatMap fun c => if c = q then [q, q] else [c]

/-- The text between two `q`, with those in it written twice. -/
def quotedText (q : Char) (cs : List Char) : List Char :=
  q :: (doubled q cs ++ [q])

/-- `quotedText` on strings. -/
def quotedLiteral (q : Char) (s : String) : String :=
  String.ofList (quotedText q s.toList)

theorem doubled_cons_self (q : Char) (cs : List Char) :
    doubled q (q :: cs) = q :: q :: doubled q cs := by
  simp [doubled]

theorem doubled_cons_of_ne {q c : Char} (h : c ≠ q) (cs : List Char) :
    doubled q (c :: cs) = c :: doubled q cs := by
  simp [doubled, h]

variable {q : Char}

/-! ## Quoted texts in the three scans -/

theorem quotedRest_doubled {rest : List Char} (h : rest.head? ≠ some q) (cs : List Char) :
    quotedRest q (doubled q cs ++ q :: rest) = some (cs, rest) := by
  induction cs with
  | nil =>
      cases rest with
      | nil => simp [doubled, quotedRest]
      | cons d rest =>
          have hd : d ≠ q := fun he => h (by simp [he])
          simp [doubled, quotedRest, hd]
  | cons c cs ih =>
      by_cases hc : c = q
      · subst hc
        rw [doubled_cons_self]
        simp [quotedRest, ih]
      · rw [doubled_cons_of_ne hc, List.cons_append, quotedRest.eq_def]
        simp [hc, ih]

theorem stringLiteral_quotedText (hq : q = '\x27' ∨ q = '\x22') {rest : List Char}
    (h : rest.head? ≠ some q) (s : String) :
    stringLiteral (quotedText q s.toList ++ rest) = some (s, rest) := by
  have hopens : (q = '\x27' || q = '\x22') = true := by simpa using hq
  rw [quotedText, List.cons_append, List.append_assoc, List.singleton_append, stringLiteral,
    if_pos hopens, quotedRest_doubled h]
  simp

theorem segments_doubled (hq : isQuote q = true) (cs : List Char) :
    segments (some q) (doubled q cs ++ [q]) = [doubled q cs ++ [q]] := by
  induction cs with
  | nil => simp [doubled, segments_quoted, segments, prepend]
  | cons c cs ih =>
      by_cases hc : c = q
      · subst hc
        rw [doubled_cons_self, List.cons_append, List.cons_append, segments_quoted, if_pos rfl,
          segments_opened hq, ih]
        rfl
      · rw [doubled_cons_of_ne hc, List.cons_append, segments_quoted, if_neg hc, ih]
        rfl

/-! ## Texts without comments -/

/-- The text is no part of a comment, whatever follows it. -/
def IsKept (cs : List Char) : Prop :=
  ∀ rest position, ∃ next, stripFrom position none (cs ++ rest) =
    (stripFrom next none rest).map fun (out, names) => (cs ++ out, names)

theorem IsKept.stripFrom_eq {cs : List Char} (h : IsKept cs) (position : Nat) :
    stripFrom position none cs = .ok (cs, []) := by
  obtain ⟨next, hstrip⟩ := h [] position
  rw [List.append_nil, stripFrom_nil] at hstrip
  rw [hstrip]
  show Except.ok (cs ++ [], []) = _
  rw [List.append_nil]

theorem isKept_nil : IsKept [] := by
  refine fun rest position => ⟨position, ?_⟩
  rw [List.nil_append]
  cases stripFrom position none rest <;> rfl

theorem IsKept.append {a b : List Char} (ha : IsKept a) (hb : IsKept b) : IsKept (a ++ b) := by
  intro rest position
  obtain ⟨middle, ha⟩ := ha (b ++ rest) position
  obtain ⟨next, hb⟩ := hb rest middle
  refine ⟨next, ?_⟩
  rw [List.append_assoc, ha, hb]
  cases stripFrom next none rest with
  | error e => rfl
  | ok r => simp [Except.map]

/-- A character that is no quote does not start a comment before these characters. -/
theorem IsKept.cons {c : Char} {cs : List Char} (h : IsKept cs) (hc : isQuote c = false)
    (hs : ∀ rest, ¬StartsComment c (cs ++ rest)) : IsKept (c :: cs) := by
  intro rest position
  obtain ⟨next, h⟩ := h rest (position + c.utf8Size)
  refine ⟨next, ?_⟩
  rw [List.cons_append, stripFrom_plain _ _ _ hc (hs rest), h]
  cases stripFrom next none rest <;> rfl

theorem stripFrom_doubled (hq : isQuote q = true) (cs rest : List Char) (position : Nat) :
    ∃ next, stripFrom position (some q) (doubled q cs ++ q :: rest) =
      (stripFrom next none rest).map fun (out, names) => (doubled q cs ++ q :: out, names) := by
  induction cs generalizing position with
  | nil =>
      refine ⟨position + q.utf8Size, ?_⟩
      rw [doubled, List.flatMap_nil, List.nil_append, stripFrom_quoted, if_pos rfl]
      rfl
  | cons c cs ih =>
      by_cases hc : c = q
      -- one quoted text ends and the next one starts
      · subst hc
        obtain ⟨next, ih⟩ := ih (position + c.utf8Size + c.utf8Size)
        refine ⟨next, ?_⟩
        rw [doubled_cons_self, List.cons_append, List.cons_append, stripFrom_quoted, if_pos rfl,
          stripFrom_opened _ _ _ hq, ih]
        cases stripFrom next none rest <;> rfl
      · obtain ⟨next, ih⟩ := ih (position + c.utf8Size)
        refine ⟨next, ?_⟩
        rw [doubled_cons_of_ne hc, List.cons_append, stripFrom_quoted, if_neg hc, ih]
        cases stripFrom next none rest <;> rfl

theorem isKept_quotedText (hq : isQuote q = true) (cs : List Char) : IsKept (quotedText q cs) := by
  intro rest position
  obtain ⟨next, h⟩ := stripFrom_doubled hq cs rest (position + q.utf8Size)
  refine ⟨next, ?_⟩
  rw [quotedText, List.cons_append, List.append_assoc, List.singleton_append, stripFrom_opened _ _ _ hq,
    h]
  cases stripFrom next none rest with
  | error e => rfl
  | ok r => simp [Except.map]

/-! ## A quoted text after a plain one -/

/-- The character has no meaning of its own outside quotes. -/
def IsPlain (c : Char) : Prop :=
  isQuote c = false ∧ c ≠ '-' ∧ c ≠ '/' ∧ c ≠ ';'

theorem IsPlain.not_startsComment {c : Char} (h : IsPlain c) (cs : List Char) :
    ¬StartsComment c cs := by
  rintro (⟨hline, -⟩ | ⟨hblock, -⟩)
  · exact h.2.1 hline
  · exact h.2.2.1 hblock

theorem isKept_of_forall {cs : List Char} (h : ∀ c ∈ cs, IsPlain c) : IsKept cs := by
  induction cs with
  | nil => exact isKept_nil
  | cons c cs ih =>
      obtain ⟨hc, h⟩ := List.forall_mem_cons.1 h
      exact (ih h).cons hc.1 fun rest => hc.not_startsComment _

theorem segments_quotedText {before : List Char} (hq : isQuote q = true)
    (h : ∀ c ∈ before, IsPlain c) (cs : List Char) :
    segments none (before ++ quotedText q cs) = [before ++ quotedText q cs] := by
  induction before with
  | nil =>
      rw [List.nil_append, quotedText, segments_opened hq, segments_doubled hq]
      rfl
  | cons c before ih =>
      obtain ⟨hc, h⟩ := List.forall_mem_cons.1 h
      rw [List.cons_append, segments_plain hc.1 (hc.not_startsComment _), if_neg hc.2.2.2, ih h]
      rfl

theorem trim_quotedText (hq : isQuote q = true) {c : Char} (hc : Text.isBlank c = false)
    (before cs : List Char) :
    Text.trim (c :: (before ++ quotedText q cs)) = c :: (before ++ quotedText q cs) := by
  have hlast : Text.trimEnd [q] = [q] :=
    Text.trimEnd_cons_of_not_blank (isBlank_of_isQuote hq) []
  have hend : c :: (before ++ quotedText q cs) = (c :: (before ++ q :: doubled q cs)) ++ [q] := by
    simp [quotedText]
  rw [Text.trim_eq, hend, Text.trimEnd_append_of_ne_nil (by simp [hlast]), hlast, ← hend,
    Text.trimStart, List.dropWhile_cons_of_neg (by simp [hc])]

/-! ## Reading a query of one literal -/

theorem clause_nil {α : Type} {word : String} (h : word ≠ "") (p : Reader α) :
    clause word p [] = (none, []) := by
  simp [clause, Reader.optional, Reader.after, keyword_nil h]

theorem skipSpace_quotedText (hq : q = '\x27' ∨ q = '\x22') (cs : List Char) :
    skipSpace (' ' :: quotedText q cs) = quotedText q cs := by
  rcases hq with rfl | rfl <;> rfl

/-- A quoted text with spaces before it is a literal up to the next comma or the end. -/
theorem read_quotedText (hq : q = '\x27' ∨ q = '\x22') {space : List Char}
    (hspace : space.all isSpace = true) (s : String) {rest : List Char} (hrest : Stops rest) :
    Expr.read (space ++ quotedText q s.toList ++ rest) = some (.literal (.string s), rest) := by
  have hread : stringLiteral (quotedText q s.toList ++ rest) = some (s, rest) := by
    refine stringLiteral_quotedText hq (fun hhead => ?_) s
    cases hrest q hhead
    rcases hq with hq | hq <;> cases hq
  have hliteral : literal (quotedText q s.toList ++ rest) = some (.string s, rest) := by
    simp [literal, Reader.orElse, Reader.map, hread]
  have hskip : skipSpace (space ++ quotedText q s.toList ++ rest) =
      quotedText q s.toList ++ rest := by
    rw [List.append_assoc, skipSpace_append hspace]
    rcases hq with rfl | rfl <;> rfl
  refine Expr.read_of_literal hskip ?_ ?_ hliteral hrest
  · rcases hq with rfl | rfl <;> decide
  · rcases hq with rfl | rfl <;> decide

/-- The query for the items, without any clause. -/
def Select.ofItems (items : List SelectItem) : Select :=
  { directives := .empty, items, source := none, condition := none, orderBy := [], limit := none }

theorem items_quotedText (hq : q = '\x27' ∨ q = '\x22') (s : String) :
    Reader.sepBy comma SelectItem.read (' ' :: quotedText q s.toList) =
      some ([.expr (.literal (.string s)) none], []) := by
  have hstar : Reader.symbol '*' (' ' :: quotedText q s.toList) = none := by
    rw [Reader.symbol, skipSpace_quotedText hq]
    rcases hq with rfl | rfl <;> rfl
  have hlabel : labelName [] = none := by
    simp [labelName, Reader.optional, keyword_nil, columnName, skipSpace, Reader.orElse, quotedName,
      unreservedName, bareName]
  have hread : Expr.read (' ' :: quotedText q s.toList) = some (.literal (.string s), []) := by
    have h : Expr.read ([' '] ++ quotedText q s.toList ++ []) = some (.literal (.string s), []) :=
      read_quotedText hq (by decide) s stops_nil
    rwa [List.append_nil] at h
  have hitem : SelectItem.read (' ' :: quotedText q s.toList) =
      some (.expr (.literal (.string s)) none, []) := by
    simp [SelectItem.read, Reader.orElse, Reader.map, hstar, hread, Reader.optional, hlabel]
  have hmany : Reader.many (comma.after SelectItem.read) [] = ([], []) := by
    rw [Reader.many]
    simp [Reader.after, comma, Reader.map, Reader.symbol, Reader.one, Reader.satisfying, skipSpace]
  simp [Reader.sepBy, hitem, hmany]

theorem readSelect_of_items {cs rest : List Char} {items : List SelectItem}
    (hkeyword : keyword "SELECT" cs = some ((), rest))
    (hitems : Reader.sepBy comma SelectItem.read rest = some (items, [])) :
    Statement.readSelect cs = some (.select (.ofItems items), []) := by
  have hread : Select.read cs = some (.ofItems items, []) := by
    rw [Select.read, hkeyword]
    simp [hitems, clause_nil, Select.ofItems]
  rw [Statement.readSelect, hread]
  simp [oneOf, Reader.orElse, Reader.map, keyword_nil]

theorem read_selectText (hq : q = '\x27' ∨ q = '\x22') (s : String) :
    Statement.read ("SELECT ".toList ++ quotedText q s.toList) =
      some (.select (.ofItems [.expr (.literal (.string s)) none]), []) := by
  have hkeyword : keyword "SELECT" ("SELECT ".toList ++ quotedText q s.toList) =
      some ((), ' ' :: quotedText q s.toList) := by
    have hend : isNameChar ' ' = false := by rfl
    simp [keyword, skipSpace, isSpace, afterWord?, atWordEnd, hend]
  rw [Statement.read, Reader.orElse, readSelect_of_items hkeyword (items_quotedText hq s)]

/-! ## The whole front end -/

theorem ofText_of_strip {text kept : String} {directives : Directives}
    (h : strip text = .ok (kept, directives)) :
    Statement.ofText text =
      (Statement.ofBareText (Text.trimEnd (Statement.dropEnd (Text.trim kept.toList)))).map
        (·.withDirectives directives) := by
  rw [Statement.ofText, h, Except.mapError]
  show (Statement.ofBareText _ >>= _) = _
  cases Statement.ofBareText (Text.trimEnd (Statement.dropEnd (Text.trim kept.toList))) <;> rfl

/-- The text has no comments and no blanks at its ends, and it is not empty. -/
structure IsBare (cs : List Char) : Prop where
  strip_eq : stripFrom 0 none cs = .ok (cs, [])
  trim_eq : Text.trim cs = cs
  ne_nil : cs ≠ []

namespace IsBare

variable {cs : List Char}

theorem strip (h : IsBare cs) : Sql.strip (String.ofList cs) = .ok (String.ofList cs, .empty) := by
  rw [Sql.strip, String.toList_ofList, h.strip_eq]
  rfl

theorem split (h : IsBare cs) (hs : segments none cs = [cs]) :
    Sql.split (String.ofList cs) = [String.ofList cs] := by
  have hblank : isBlankPiece cs = false := by
    rw [isBlankPiece, h.strip_eq]
    simp [h.trim_eq, h.ne_nil]
  rw [Sql.split, String.toList_ofList, hs, List.filter_singleton, hblank]
  simp [h.trim_eq]

theorem ofText (h : IsBare cs) (hlast : cs.getLast? ≠ some ';') {s : Statement}
    (hread : Statement.read cs = some (s, [])) :
    Statement.ofText (String.ofList cs) = .ok (s.withDirectives .empty) := by
  have hend : Text.trimEnd cs = cs := by
    have hlength : cs.length ≤ (Text.trimEnd cs).length := by
      calc cs.length = (Text.trimStart (Text.trimEnd cs)).length := by rw [← Text.trim_eq, h.trim_eq]
        _ ≤ (Text.trimEnd cs).length := (List.dropWhile_suffix _).length_le
    exact (Text.isPrefix_trimEnd cs).eq_of_length_le hlength
  have hbare : Statement.ofBareText cs = .ok s := by
    rw [Statement.ofBareText, if_neg (by simp [h.ne_nil]), hread]
    rfl
  have htext : Text.trimEnd (Statement.dropEnd (Text.trim (String.ofList cs).toList)) = cs := by
    rw [String.toList_ofList, h.trim_eq, Statement.dropEnd, if_neg hlast, hend]
  rw [ofText_of_strip h.strip, htext, hbare]
  rfl

end IsBare

/-- A query of one string literal is one statement without comments or directives, and it is read as that
string; and wherever a literal stands, it is read up to its closing quote. -/
theorem quotedLiteral_survives (hq : q = '\x27' ∨ q = '\x22') (s : String) :
    let text := "SELECT " ++ quotedLiteral q s
    split text = [text] ∧ strip text = .ok (text, .empty) ∧
      Statement.ofText text = .ok (.select
        { directives := .empty, items := [.expr (.literal (.string s)) none], source := none
          condition := none, orderBy := [], limit := none }) ∧
      ∀ rest : List Char, rest.head? ≠ some q →
        stringLiteral ((quotedLiteral q s).toList ++ rest) = some (s, rest) := by
  intro text
  have hquote : isQuote q = true := by rcases hq with rfl | rfl <;> rfl
  have hplain : ∀ c ∈ "SELECT ".toList, IsPlain c := by simp [IsPlain, isQuote]
  have htext : text = String.ofList ("SELECT ".toList ++ quotedText q s.toList) := by
    rw [String.ofList_append, String.ofList_toList]
    rfl
  have hbare : IsBare ("SELECT ".toList ++ quotedText q s.toList) :=
    { strip_eq := ((isKept_of_forall hplain).append (isKept_quotedText hquote s.toList)).stripFrom_eq 0
      trim_eq := trim_quotedText hquote (c := 'S') (by decide) "ELECT ".toList s.toList
      ne_nil := by simp }
  have hlast : ("SELECT ".toList ++ quotedText q s.toList).getLast? ≠ some ';' := by
    rw [quotedText, ← List.cons_append, ← List.append_assoc, List.getLast?_concat]
    rcases hq with rfl | rfl <;> decide
  refine ⟨?_, ?_, ?_, fun rest h => ?_⟩
  · rw [htext]
    exact hbare.split (segments_quotedText hquote hplain s.toList)
  · rw [htext]
    exact hbare.strip
  · rw [htext]
    exact hbare.ofText hlast (read_selectText hq s)
  · rw [quotedLiteral, String.toList_ofList]
    exact stringLiteral_quotedText hq h s

theorem quotedLiteral_survives_separators :
    let text := "SELECT \x27it\x27\x27s; -- /*\x27"
    split text = [text] ∧ strip text = .ok (text, .empty) ∧
      Statement.ofText text =
        .ok (.select (.ofItems [.expr (.literal (.string "it\x27s; -- /*")) none])) ∧
      stringLiteral "\x27it\x27\x27s; -- /*\x27, 1".toList =
        some ("it\x27s; -- /*", ", 1".toList) := by
  have hliteral : quotedLiteral '\x27' "it\x27s; -- /*" = "\x27it\x27\x27s; -- /*\x27" := by
    rfl
  obtain ⟨hsplit, hstrip, hread, hrest⟩ :=
    quotedLiteral_survives (q := '\x27') (.inl rfl) "it\x27s; -- /*"
  have hrest := hrest ", 1".toList (by simp)
  rw [hliteral] at hsplit hstrip hread hrest
  exact ⟨hsplit, hstrip, hread, hrest⟩

end RestSql.Sql
