import RestSql.Proofs.StrippedTexts
import RestSql.Proofs.UnreadTexts

/-!
# Where errors point to

The place of an error is a byte offset. A comment without end is found where the reading for comments
comes to its opening (`LexesTo`), and the place is the length of the text before that (`strip_eq_error_iff`).
What is read as a statement is the text without comments, without blanks at both ends and one semicolon; what
is unread there is a suffix of it, and the place is the length of the text before the suffix
(`Statement.error_places`).
-/

namespace RestSql

theorem map_eq_error {α β ε : Type} {f : α → β} {x : Except ε α} {e : ε} :
    x.map f = .error e ↔ x = .error e := by
  cases x with
  | error e' => exact ⟨fun h => by cases h; rfl, fun h => by cases h; rfl⟩
  | ok a => exact iff_of_false (by simp [Except.map]) (by simp)

/-! ## Texts and their lengths in bytes -/

namespace Text

theorem foldl_utf8Size (cs : List Char) (n : Nat) :
    cs.foldl (fun n c => n + c.utf8Size) n = n + byteLength cs := by
  induction cs generalizing n with
  | nil => rfl
  | cons c cs ih =>
      rw [byteLength, List.foldl_cons, List.foldl_cons, ih, ih]
      omega

theorem byteLength_cons (c : Char) (cs : List Char) :
    byteLength (c :: cs) = c.utf8Size + byteLength cs := by
  rw [byteLength, List.foldl_cons, foldl_utf8Size, Nat.zero_add]

theorem byteLength_append (a b : List Char) : byteLength (a ++ b) = byteLength a + byteLength b := by
  rw [byteLength, List.foldl_append, foldl_utf8Size, ← byteLength]

theorem byteLength_nil : byteLength [] = 0 :=
  rfl

theorem byteLength_singleton (c : Char) : byteLength [c] = c.utf8Size := by
  rw [byteLength_cons, byteLength_nil, Nat.add_zero]

theorem utf8ByteSize_ofList (cs : List Char) : (String.ofList cs).utf8ByteSize = byteLength cs := by
  induction cs with
  | nil => rfl
  | cons c cs ih =>
      have hcons : String.ofList (c :: cs) = String.singleton c ++ String.ofList cs := by
        rw [← String.toList_inj]
        simp
      rw [hcons, String.utf8ByteSize_append, ih, byteLength_cons, String.utf8ByteSize_singleton]

theorem isSpace_eq_false {c : Char} (h : isBlank c = false) : isSpace c = false := by
  have hwhite (hs : isSpace c = true) : c.isWhitespace = true := by
    simp only [isSpace, Bool.or_eq_true, decide_eq_true_eq] at hs
    rcases hs with ((rfl | rfl) | rfl) | rfl <;> rfl
  exact Bool.eq_false_iff.2 fun hs => Bool.eq_false_iff.1 h (isBlank_of_isWhitespace (hwhite hs))

end Text

namespace Sql

/-! ## Comments without end -/

/-- The text is read as these lexemes up to a comment without end, of which `after` follows the opening. -/
inductive LexesTo : List Char → List Lexeme → List Char → Prop
  | opened {cs : List Char} (hbody : commentBody? cs = none) : LexesTo ('/' :: '*' :: cs) [] cs
  | quoted {q : Char} {body rest : List Char} {lexemes : List Lexeme} {after : List Char}
      (hq : isQuote q = true) (hbody : q ∉ body) (h : LexesTo rest lexemes after) :
      LexesTo (q :: (body ++ q :: rest)) (.quoted q body :: lexemes) after
  | line {cs : List Char} {lexemes : List Lexeme} {after : List Char}
      (h : LexesTo (cs.dropWhile (· ≠ '\n')) lexemes after) :
      LexesTo ('-' :: '-' :: cs) (.lineComment (cs.takeWhile (· ≠ '\n')) :: lexemes) after
  | block {body cs rest : List Char} {lexemes : List Lexeme} {after : List Char}
      (hbody : commentBody? cs = some (body, rest)) (h : LexesTo rest lexemes after) :
      LexesTo ('/' :: '*' :: cs) (.blockComment body :: lexemes) after
  | plain {c : Char} {cs : List Char} {lexemes : List Lexeme} {after : List Char}
      (hc : isQuote c = false) (hs : ¬StartsComment c cs) (h : LexesTo cs lexemes after) :
      LexesTo (c :: cs) (.plain c :: lexemes) after

/-- The text of lexemes. -/
abbrev textOf (lexemes : List Lexeme) : List Char :=
  lexemes.flatMap Lexeme.text

theorem byteLength_textOf_cons (l : Lexeme) (lexemes : List Lexeme) :
    Text.byteLength (textOf (l :: lexemes)) = Text.byteLength l.text + Text.byteLength (textOf lexemes) := by
  rw [textOf, List.flatMap_cons, Text.byteLength_append]

theorem byteLength_quoted (q : Char) (body : List Char) :
    Text.byteLength (Lexeme.quoted q body).text = q.utf8Size + Text.byteLength body + q.utf8Size := by
  rw [Lexeme.text, Text.byteLength_cons, Text.byteLength_append, Text.byteLength_singleton, Nat.add_assoc]

theorem byteLength_block (body : List Char) :
    Text.byteLength (Lexeme.blockComment body).text = Text.byteLength body + 4 := by
  have hopening : Text.byteLength ['/', '*'] = 2 := rfl
  have hclosing : Text.byteLength ['*', '/'] = 2 := rfl
  have htext : (Lexeme.blockComment body).text = ['/', '*'] ++ (body ++ ['*', '/']) := rfl
  rw [htext, Text.byteLength_append, Text.byteLength_append, hopening, hclosing]
  omega

theorem byteLength_plain (c : Char) : Text.byteLength (Lexeme.plain c).text = c.utf8Size :=
  Text.byteLength_singleton c

variable {cs after : List Char} {lexemes : List Lexeme} {position p : Nat}

theorem LexesTo.eq_append (h : LexesTo cs lexemes after) : cs = textOf lexemes ++ '/' :: '*' :: after := by
  induction h with
  | opened => rfl
  | quoted _ _ _ ih => simp [textOf, Lexeme.text, ih]
  | @line cs lexemes after _ ih =>
      rw [textOf, List.flatMap_cons, List.append_assoc, ← ih, Lexeme.text, List.cons_append,
        List.cons_append, List.takeWhile_append_dropWhile]
  | block hbody _ ih => simp [textOf, Lexeme.text, ih, eq_append_of_commentBody? hbody]
  | plain _ _ _ ih => simp [textOf, Lexeme.text, ih]

theorem LexesTo.commentBody?_after (h : LexesTo cs lexemes after) : commentBody? after = none := by
  induction h with
  | opened hbody => exact hbody
  | quoted _ _ _ ih | line _ ih | block _ _ ih | plain _ _ _ ih => exact ih

theorem LexesTo.of_quote {q : Char} (hq : isQuote q = true) (h : LexesTo (q :: cs) lexemes after) :
    ∃ body rest tail, q ∉ body ∧ cs = body ++ q :: rest ∧ LexesTo rest tail after ∧
      lexemes = .quoted q body :: tail := by
  cases h with
  | opened => cases hq
  | @quoted _ body rest tail _ _ hbody h => exact ⟨body, rest, tail, hbody, rfl, h, rfl⟩
  | line => cases hq
  | block => cases hq
  | plain hc => exact absurd hq (ne_true_of_eq_false hc)

/-- The end of a comment stands nowhere in a text that has none. -/
theorem commentBody?_eq_none_iff : commentBody? cs = none ↔ ¬ ['*', '/'] <:+: cs := by
  fun_induction commentBody? cs with
  | case1 rest => exact iff_of_false (by simp) (not_not_intro ⟨[], rest, rfl⟩)
  | case2 c rest hne ih =>
      rw [Option.map_eq_none_iff, ih, List.infix_cons_iff, not_or]
      refine (and_iff_right ?_).symm
      rintro ⟨tail, htail⟩
      cases htail
      exact hne _ rfl rfl
  | case3 => exact iff_of_true rfl (by simp)

/-- Where reading for comments stops, a comment without end is opened. The quote that is open stands before
the text. -/
theorem exists_lexesTo_of_error {quote : Option Char} (hquote : ∀ q ∈ quote, isQuote q = true)
    (h : stripFrom position quote cs = .error p) :
    ∃ lexemes after, LexesTo (quote.toList ++ cs) lexemes after ∧
      p + Text.byteLength quote.toList = position + Text.byteLength (textOf lexemes) := by
  fun_induction blockBodies quote cs generalizing position with
  | case1 quote =>
      rw [stripFrom_nil] at h
      cases h
  | case2 c rest q ih =>
      rw [stripFrom_quoted, map_eq_error] at h
      have hq := hquote q rfl
      by_cases hc : c = q
      · subst hc
        rw [if_pos rfl] at h
        rw [dif_pos rfl] at ih
        obtain ⟨lexemes, after, hlexes, hp⟩ := ih (by simp) h
        refine ⟨.quoted c [] :: lexemes, after, @LexesTo.quoted c [] _ _ _ hq List.not_mem_nil hlexes, ?_⟩
        simp only [Option.toList_some, Option.toList_none, Text.byteLength_singleton, Text.byteLength_nil,
          byteLength_textOf_cons, byteLength_quoted] at hp ⊢
        omega
      · rw [if_neg hc] at h
        rw [dif_neg hc] at ih
        obtain ⟨lexemes, after, hlexes, hp⟩ := ih hquote h
        obtain ⟨body, rest, tail, hbody, rfl, htail, rfl⟩ := hlexes.of_quote hq
        refine ⟨.quoted q (c :: body) :: tail, after, @LexesTo.quoted q (c :: body) _ _ _ hq
          (List.not_mem_cons_of_ne_of_not_mem (Ne.symm hc) hbody) htail, ?_⟩
        simp only [Text.byteLength_cons, byteLength_textOf_cons, byteLength_quoted] at hp ⊢
        omega
  | case3 c rest hc ih =>
      rw [stripFrom_opened _ _ _ hc, map_eq_error] at h
      obtain ⟨lexemes, after, hlexes, hp⟩ := ih (by simpa using hc) h
      refine ⟨lexemes, after, hlexes, ?_⟩
      simp only [Option.toList_some, Option.toList_none, Text.byteLength_singleton,
        Text.byteLength_nil] at hp ⊢
      omega
  | case4 c rest hc hline ih =>
      obtain ⟨rfl, hrest⟩ := hline
      obtain ⟨cs, rfl⟩ := List.head?_eq_some_iff.1 hrest
      rw [stripFrom_line, map_eq_error] at h
      obtain ⟨lexemes, after, hlexes, hp⟩ := ih (by simp) h
      refine ⟨_, after, .line hlexes, ?_⟩
      rw [byteLength_textOf_cons, ← Nat.add_assoc]
      exact hp
  | case5 c rest hc hline hblock hbody =>
      obtain ⟨rfl, hrest⟩ := hblock
      obtain ⟨cs, rfl⟩ := List.head?_eq_some_iff.1 hrest
      rw [List.tail_cons] at hbody
      rw [stripFrom_unclosed _ _ hbody] at h
      cases h
      exact ⟨[], cs, .opened hbody, rfl⟩
  | case6 c rest hc hline hblock body tail hbody ih =>
      obtain ⟨rfl, hrest⟩ := hblock
      obtain ⟨cs, rfl⟩ := List.head?_eq_some_iff.1 hrest
      rw [List.tail_cons] at hbody
      rw [stripFrom_block _ _ hbody, map_eq_error] at h
      obtain ⟨lexemes, after, hlexes, hp⟩ := ih (by simp) h
      refine ⟨_, after, .block hbody hlexes, ?_⟩
      rw [byteLength_textOf_cons, byteLength_block, ← Nat.add_assoc, ← Nat.add_assoc]
      exact hp
  | case7 c rest hc hline hblock ih =>
      have hs : ¬StartsComment c rest := not_or.2 ⟨hline, hblock⟩
      have hc : isQuote c = false := Bool.eq_false_iff.2 hc
      rw [stripFrom_plain _ _ _ hc hs, map_eq_error] at h
      obtain ⟨lexemes, after, hlexes, hp⟩ := ih (by simp) h
      refine ⟨_, after, .plain hc hs hlexes, ?_⟩
      rw [byteLength_textOf_cons, byteLength_plain, ← Nat.add_assoc]
      exact hp

theorem stripFrom_error_of_body {q : Char} {body : List Char} (hbody : q ∉ body)
    (h : stripFrom (position + Text.byteLength body + q.utf8Size) none cs = .error p) :
    stripFrom position (some q) (body ++ q :: cs) = .error p := by
  induction body generalizing position with
  | nil =>
      rw [List.nil_append, stripFrom_quoted, if_pos rfl]
      exact map_eq_error.2 h
  | cons c body ih =>
      obtain ⟨hc, hbody⟩ := not_or.1 (mt List.mem_cons.2 hbody)
      rw [Text.byteLength_cons, ← Nat.add_assoc] at h
      rw [List.cons_append, stripFrom_quoted, if_neg (Ne.symm hc)]
      exact map_eq_error.2 (ih hbody h)

theorem LexesTo.stripFrom_eq (h : LexesTo cs lexemes after) (position : Nat) :
    stripFrom position none cs = .error (position + Text.byteLength (textOf lexemes)) := by
  induction h generalizing position with
  | opened hbody => exact stripFrom_unclosed position _ hbody
  | quoted hq hbody _ ih =>
      rw [stripFrom_opened _ _ _ hq, byteLength_textOf_cons, byteLength_quoted, ← Nat.add_assoc,
        ← Nat.add_assoc, ← Nat.add_assoc]
      exact map_eq_error.2 (stripFrom_error_of_body hbody (ih _))
  | line _ ih =>
      rw [stripFrom_line, byteLength_textOf_cons, ← Nat.add_assoc]
      exact map_eq_error.2 (ih _)
  | block hbody _ ih =>
      rw [stripFrom_block _ _ hbody, byteLength_textOf_cons, byteLength_block, ← Nat.add_assoc,
        ← Nat.add_assoc]
      exact map_eq_error.2 (ih _)
  | plain hc hs _ ih =>
      rw [stripFrom_plain _ _ _ hc hs, byteLength_textOf_cons, byteLength_plain, ← Nat.add_assoc]
      exact map_eq_error.2 (ih _)

/-- The comments of a text cannot be taken out exactly if one of them has no end; its place is the length of
the text before its opening. -/
theorem strip_eq_error_iff {text : String} :
    strip text = .error p ↔ ∃ lexemes after, LexesTo text.toList lexemes after ∧
      p = (String.ofList (textOf lexemes)).utf8ByteSize := by
  rw [strip, map_eq_error]
  constructor
  · intro h
    have hquote : ∀ q ∈ (none : Option Char), isQuote q = true := by simp
    obtain ⟨lexemes, after, hlexes, hp⟩ := exists_lexesTo_of_error hquote h
    refine ⟨lexemes, after, hlexes, ?_⟩
    rw [Text.utf8ByteSize_ofList]
    simpa [Text.byteLength] using hp
  · rintro ⟨lexemes, after, hlexes, rfl⟩
    rw [hlexes.stripFrom_eq, Text.utf8ByteSize_ofList, Nat.zero_add]

/-- The place of a comment without end is before its opening, which no end follows. -/
theorem LexesTo.eq_opening {text : String} (h : LexesTo text.toList lexemes after) :
    text = String.ofList (textOf lexemes) ++ "/*" ++ String.ofList after ∧ ¬ ['*', '/'] <:+: after := by
  refine ⟨?_, commentBody?_eq_none_iff.1 h.commentBody?_after⟩
  rw [← String.toList_inj, h.eq_append]
  simp

/-! ## Statements -/

namespace Statement

/-- The text that is read as a statement: without blanks at both ends and without one semicolon. -/
def bareText (kept : String) : String :=
  String.ofList (Text.trimEnd (dropEnd (Text.trim kept.toList)))

/-- What is unread where an error is, and why. Either no statement begins the text; then the last of the readers
that are tried finds no blanks to skip and fails at the start. Or something follows the statement that begins
the text. -/
def Unread (text : String) (e : ParseError) (rest : String) : Prop :=
  (e = .noStatement e.position rest ∧ read text.toList = none ∧ skipSpace text.toList = rest.toList) ∨
    (e = .trailing e.position rest ∧ rest ≠ "" ∧
      ∃ s unread, read text.toList = some (s, unread) ∧ skipSpace unread = rest.toList)

theorem ofText_eq {text kept : String} {directives : Directives}
    (h : strip text = .ok (kept, directives)) :
    ofText text = (ofBareText (bareText kept).toList).map (·.withDirectives directives) := by
  rw [ofText, h, bareText, String.toList_ofList]
  show (ofBareText _ >>= fun s => pure (s.withDirectives directives)) = _
  cases ofBareText (Text.trimEnd (dropEnd (Text.trim kept.toList))) <;> rfl

theorem ofBareText_ne_openComment (cs : List Char) (p : Nat) :
    ofBareText cs ≠ .error (.openComment p) := by
  intro h
  unfold ofBareText at h
  split at h
  · cases h
  · split at h
    · cases h
    · split at h
      · cases h
      · cases h

theorem ofBareText_eq_ok_iff {cs : List Char} {s : Statement} :
    ofBareText cs = .ok s ↔ cs ≠ [] ∧ ∃ unread, read cs = some (s, unread) ∧ skipSpace unread = [] := by
  unfold ofBareText
  cases cs with
  | nil => simp
  | cons c cs =>
      simp only [List.isEmpty_cons, Bool.false_eq_true, if_false, ne_eq, reduceCtorEq, not_false_eq_true,
        true_and]
      cases hread : read (c :: cs) with
      | none => simp
      | some found =>
          obtain ⟨found, unread⟩ := found
          cases hrest : skipSpace unread with
          | nil => simp [hrest]
          | cons d rest => simp [hrest]

theorem ofText_eq_openComment_iff {text : String} :
    ofText text = .error (.openComment p) ↔ strip text = .error p := by
  cases h : strip text with
  | error p' =>
      rw [ofText, h]
      constructor
      · intro he
        cases he
        rfl
      · intro he
        cases he
        rfl
  | ok kept =>
      obtain ⟨kept, directives⟩ := kept
      rw [ofText_eq h, map_eq_error]
      exact iff_of_false (ofBareText_ne_openComment _ p) (by simp)

theorem isPrefix_dropEnd (cs : List Char) : dropEnd cs <+: cs := by
  unfold dropEnd
  split
  · exact List.dropLast_prefix cs
  · exact List.prefix_rfl

/-- No blanks stand before the text that is read as a statement. -/
theorem skipSpace_bareText (kept : String) :
    skipSpace (bareText kept).toList = (bareText kept).toList := by
  have hprefix : (bareText kept).toList <+: Text.trimStart kept.toList := by
    rw [bareText, String.toList_ofList]
    exact (Text.isPrefix_trimEnd _).trans ((isPrefix_dropEnd _).trans (Text.isPrefix_trimEnd _))
  cases hbare : (bareText kept).toList with
  | nil => rfl
  | cons c cs =>
      obtain ⟨tail, htail⟩ := hprefix
      have hc : Text.isBlank c = false := by
        have hhead := List.head?_dropWhile_not Text.isBlank kept.toList
        rwa [← Text.trimStart, ← htail, hbare] at hhead
      exact Json.skipSpace_of_not_isSpace (Text.isSpace_eq_false hc) cs

/-- An error in a text without comments is that the text is empty, or its place is the length of the text
before what is unread. -/
theorem exists_unread_of_error {text : String} {e : ParseError}
    (hskip : skipSpace text.toList = text.toList) (h : ofBareText text.toList = .error e) :
    (e = .empty ∧ text = "") ∨
      ∃ front rest, text = front ++ rest ∧ e.position = front.utf8ByteSize ∧ Unread text e rest := by
  unfold ofBareText at h
  split at h
  · next hempty =>
    cases h
    exact .inl ⟨rfl, String.toList_eq_nil_iff.1 (List.isEmpty_iff.1 hempty)⟩
  · split at h
    · next hread =>
      cases h
      refine .inr ⟨"", text, by simp, rfl, .inl ⟨?_, hread, hskip⟩⟩
      rw [String.ofList_toList]
      rfl
    · next s unread hread =>
      split at h
      · cases h
      · next hne =>
        cases h
        obtain ⟨front, hfront⟩ := (Reader.skipSpace_suffix unread).trans (leaves_read _ _ _ hread)
        refine .inr ⟨String.ofList front, String.ofList (skipSpace unread), ?_, ?_,
          .inr ⟨rfl, ?_, s, unread, hread, String.toList_ofList.symm⟩⟩
        · rw [← String.ofList_append, hfront, String.ofList_toList]
        · rw [ParseError.position, ← hfront, Text.byteLength_append, Nat.add_sub_cancel,
            Text.utf8ByteSize_ofList]
        · exact fun h => hne (String.ofList_eq_empty_iff.1 h)

end Statement

end Sql
end RestSql
