import RestSql.Proofs.StringLiterals

/-!
# Texts without their comments

A text is read for comments as a sequence of lexemes: quoted parts, comments, and single characters
(`Lexes`). Without its comments it is the same sequence with a blank for each comment, and read once more it
gives the same quoted parts and no comments, as no two of its lexemes grow together into another one
(`strip_keeps`). So what a text says as a statement is what it says without its comments, but for the
directives in them.
-/

namespace RestSql.Sql

/-- A part of a text that is read for comments. -/
inductive Lexeme
  | quoted (quote : Char) (body : List Char)
  /-- A quoted part up to the end of the text. -/
  | unclosed (quote : Char) (body : List Char)
  | lineComment (body : List Char)
  | blockComment (body : List Char)
  | plain (c : Char)

namespace Lexeme

/-- The lexeme as it is written. -/
def text : Lexeme → List Char
  | quoted q body => q :: (body ++ [q])
  | unclosed q body => q :: body
  | lineComment body => '-' :: '-' :: body
  | blockComment body => '/' :: '*' :: (body ++ ['*', '/'])
  | plain c => [c]

/-- A blank for a comment, and all else as it is. -/
def stripped : Lexeme → Lexeme
  | lineComment _ | blockComment _ => plain ' '
  | l => l

/-- The text of a quoted part. -/
def quotedText? : Lexeme → Option (List Char)
  | quoted q body => some (quoted q body).text
  | unclosed q body => some (unclosed q body).text
  | _ => none

end Lexeme

/-- The text is read as these lexemes. -/
inductive Lexes : List Char → List Lexeme → Prop
  | nil : Lexes [] []
  | quoted {q : Char} {body rest : List Char} {lexemes : List Lexeme} (hq : isQuote q = true)
      (hbody : q ∉ body) (h : Lexes rest lexemes) :
      Lexes (q :: (body ++ q :: rest)) (.quoted q body :: lexemes)
  | unclosed {q : Char} {body : List Char} (hq : isQuote q = true) (hbody : q ∉ body) :
      Lexes (q :: body) [.unclosed q body]
  | line {cs : List Char} {lexemes : List Lexeme} (h : Lexes (cs.dropWhile (· ≠ '\n')) lexemes) :
      Lexes ('-' :: '-' :: cs) (.lineComment (cs.takeWhile (· ≠ '\n')) :: lexemes)
  | block {body cs rest : List Char} {lexemes : List Lexeme} (hbody : commentBody? cs = some (body, rest))
      (h : Lexes rest lexemes) : Lexes ('/' :: '*' :: cs) (.blockComment body :: lexemes)
  | plain {c : Char} {cs : List Char} {lexemes : List Lexeme} (hc : isQuote c = false)
      (hs : ¬StartsComment c cs) (h : Lexes cs lexemes) : Lexes (c :: cs) (.plain c :: lexemes)

variable {cs out : List Char} {lexemes : List Lexeme} {bodies : List (List Char)}

/-- The lexemes make up the text. -/
theorem Lexes.eq_flatMap (h : Lexes cs lexemes) : cs = lexemes.flatMap Lexeme.text := by
  induction h with
  | nil => rfl
  | quoted _ _ _ ih => simp [Lexeme.text, ← ih]
  | unclosed => simp [Lexeme.text]
  | @line cs lexemes _ ih =>
      rw [List.flatMap_cons, ← ih, Lexeme.text, List.cons_append, List.cons_append,
        List.takeWhile_append_dropWhile]
  | block hbody _ ih => simp [Lexeme.text, ← ih, eq_append_of_commentBody? hbody]
  | plain _ _ _ ih => simp [Lexeme.text, ← ih]

theorem startsComment_line (cs : List Char) : StartsComment '-' ('-' :: cs) :=
  .inl ⟨rfl, rfl⟩

theorem startsComment_block (cs : List Char) : StartsComment '/' ('*' :: cs) :=
  .inr ⟨rfl, rfl⟩

theorem eq_of_append_quote {q : Char} {body rest body' rest' : List Char} (h : q ∉ body) (h' : q ∉ body')
    (heq : body ++ q :: rest = body' ++ q :: rest') : body = body' ∧ rest = rest' := by
  have hcut {a : List Char} (ha : q ∉ a) (b : List Char) :
      Text.cutFirst (· == q) (a ++ q :: b) = some (a, b) :=
    Text.cutFirst_append_cons (fun c hc => beq_eq_false_iff_ne.2 (ne_of_mem_of_not_mem hc ha))
      (beq_self_eq_true q) b
  have hsame := hcut h rest
  rw [heq, hcut h' rest', Option.some.injEq, Prod.mk.injEq] at hsame
  exact ⟨hsame.1.symm, hsame.2.symm⟩

/-! One inversion for each way a text begins. -/

section

variable {q c : Char}

theorem Lexes.of_quote (hq : isQuote q = true) (h : Lexes (q :: cs) lexemes) :
    (∃ body rest tail, q ∉ body ∧ cs = body ++ q :: rest ∧ Lexes rest tail ∧
      lexemes = .quoted q body :: tail) ∨ (q ∉ cs ∧ lexemes = [.unclosed q cs]) := by
  cases h with
  | @quoted _ body rest tail _ hbody h => exact .inl ⟨body, rest, tail, hbody, rfl, h, rfl⟩
  | unclosed _ hbody => exact .inr ⟨hbody, rfl⟩
  | line => cases hq
  | block => cases hq
  | plain hc => exact absurd hq (ne_true_of_eq_false hc)

theorem Lexes.of_line (h : Lexes ('-' :: '-' :: cs) lexemes) :
    ∃ tail, Lexes (cs.dropWhile (· ≠ '\n')) tail ∧
      lexemes = .lineComment (cs.takeWhile (· ≠ '\n')) :: tail := by
  generalize htext : '-' :: cs = text at h
  cases h with
  | quoted hq => cases hq
  | unclosed hq => cases hq
  | line h =>
      cases htext
      exact ⟨_, h, rfl⟩
  | plain _ hs =>
      subst htext
      exact absurd (startsComment_line cs) hs

theorem Lexes.of_block (h : Lexes ('/' :: '*' :: cs) lexemes) :
    ∃ body rest tail, commentBody? cs = some (body, rest) ∧ Lexes rest tail ∧
      lexemes = .blockComment body :: tail := by
  generalize htext : '*' :: cs = text at h
  cases h with
  | quoted hq => cases hq
  | unclosed hq => cases hq
  | block hbody h =>
      cases htext
      exact ⟨_, _, _, hbody, h, rfl⟩
  | plain _ hs =>
      subst htext
      exact absurd (startsComment_block cs) hs

theorem Lexes.of_plain (hc : isQuote c = false) (hs : ¬StartsComment c cs) (h : Lexes (c :: cs) lexemes) :
    ∃ tail, Lexes cs tail ∧ lexemes = .plain c :: tail := by
  cases h with
  | quoted hq => exact absurd hq (ne_true_of_eq_false hc)
  | unclosed hq => exact absurd hq (ne_true_of_eq_false hc)
  | line => exact absurd (startsComment_line _) hs
  | block => exact absurd (startsComment_block _) hs
  | plain _ _ h => exact ⟨_, h, rfl⟩

end

/-- A text is read in one way. -/
theorem Lexes.unique (h : Lexes cs lexemes) {other : List Lexeme} (h' : Lexes cs other) :
    other = lexemes := by
  induction h generalizing other with
  | nil =>
      cases h'
      rfl
  | quoted hq hbody _ ih =>
      obtain ⟨body', rest', tail, hbody', heq, htail, rfl⟩ | ⟨hmem, -⟩ := h'.of_quote hq
      · obtain ⟨rfl, rfl⟩ := eq_of_append_quote hbody hbody' heq
        rw [ih htail]
      · exact absurd (List.mem_append_right _ List.mem_cons_self) hmem
  | unclosed hq hbody =>
      obtain ⟨body', rest', tail, -, rfl, -, -⟩ | ⟨-, rfl⟩ := h'.of_quote hq
      · exact absurd (List.mem_append_right _ List.mem_cons_self) hbody
      · rfl
  | line _ ih =>
      obtain ⟨tail, htail, rfl⟩ := h'.of_line
      rw [ih htail]
  | block hbody _ ih =>
      obtain ⟨body', rest', tail, hbody', htail, rfl⟩ := h'.of_block
      rw [hbody, Option.some.injEq, Prod.mk.injEq] at hbody'
      obtain ⟨rfl, rfl⟩ := hbody'
      rw [ih htail]
  | plain hc hs _ ih =>
      obtain ⟨tail, htail, rfl⟩ := h'.of_plain hc hs
      rw [ih htail]

/-! ## The lexemes of a text without comments -/

/-- A text for its lexemes, without comments. -/
def strippedText (lexemes : List Lexeme) : List Char :=
  lexemes.flatMap fun l => l.stripped.text

theorem Lexeme.stripped_stripped (l : Lexeme) : l.stripped.stripped = l.stripped := by
  cases l <;> rfl

theorem Lexeme.quotedText?_stripped (l : Lexeme) : l.stripped.quotedText? = l.quotedText? := by
  cases l <;> rfl

theorem strippedText_stripped (lexemes : List Lexeme) :
    strippedText (lexemes.map Lexeme.stripped) = strippedText lexemes := by
  rw [strippedText, strippedText, List.flatMap_map]
  simp only [Lexeme.stripped_stripped]

/-- Where comments become blanks, none of them starts anew. -/
theorem Lexes.not_startsComment {c : Char} (h : Lexes cs lexemes) (hs : ¬StartsComment c cs) :
    ¬StartsComment c (strippedText lexemes) := by
  -- a text and what is left of it start alike, but for a blank
  cases h with
  | nil => exact hs
  | line => simp [strippedText, Lexeme.stripped, Lexeme.text, StartsComment]
  | block => simp [strippedText, Lexeme.stripped, Lexeme.text, StartsComment]
  | quoted | unclosed | plain => exact hs

theorem Lexes.stripped (h : Lexes cs lexemes) :
    Lexes (strippedText lexemes) (lexemes.map Lexeme.stripped) := by
  have hblank : isQuote ' ' = false := rfl
  induction h with
  | nil => exact .nil
  | @quoted q body rest lexemes hq hbody _ ih =>
      have htext : strippedText (.quoted q body :: lexemes) = q :: (body ++ q :: strippedText lexemes) := by
        simp [strippedText, Lexeme.stripped, Lexeme.text]
      rw [htext]
      exact .quoted hq hbody ih
  | @unclosed q body hq hbody =>
      have htext : strippedText [.unclosed q body] = q :: body := by
        simp [strippedText, Lexeme.stripped, Lexeme.text]
      rw [htext]
      exact .unclosed hq hbody
  | line _ ih => exact .plain hblank (by simp [StartsComment]) ih
  | block _ _ ih => exact .plain hblank (by simp [StartsComment]) ih
  | plain hc hs h ih => exact .plain hc (h.not_startsComment hs) ih

/-! ## What is stripped -/

/-- The body of a block comment. -/
def Lexeme.blockBody? : Lexeme → Option (List Char)
  | blockComment body => some body
  | _ => none

theorem strips_unclosed {q : Char} {body : List Char} (h : q ∉ body) : Strips (some q) body body [] := by
  induction body with
  | nil => exact .nil _
  | cons c body ih =>
      obtain ⟨hc, hbody⟩ := not_or.1 (mt List.mem_cons.2 h)
      refine .quoted ?_
      rw [if_neg (Ne.symm hc)]
      exact ih hbody

theorem strips_closed {q : Char} {body : List Char} (hbody : q ∉ body) (h : Strips none cs out bodies) :
    Strips (some q) (body ++ q :: cs) (body ++ q :: out) bodies := by
  induction body with
  | nil =>
      refine .quoted ?_
      rw [if_pos rfl]
      exact h
  | cons c body ih =>
      obtain ⟨hc, hbody⟩ := not_or.1 (mt List.mem_cons.2 hbody)
      refine .quoted ?_
      rw [if_neg (Ne.symm hc)]
      exact ih hbody

theorem Lexes.strips (h : Lexes cs lexemes) :
    Strips none cs (strippedText lexemes) (lexemes.filterMap Lexeme.blockBody?) := by
  induction h with
  | nil => exact .nil none
  | @quoted q body rest lexemes hq hbody _ ih =>
      have htext : strippedText (.quoted q body :: lexemes) = q :: (body ++ q :: strippedText lexemes) := by
        simp [strippedText, Lexeme.stripped, Lexeme.text]
      rw [htext]
      exact .opened hq (strips_closed hbody ih)
  | @unclosed q body hq hbody =>
      have htext : strippedText [.unclosed q body] = q :: body := by
        simp [strippedText, Lexeme.stripped, Lexeme.text]
      rw [htext]
      exact .opened hq (strips_unclosed hbody)
  | line _ ih => exact .line ih
  | block hbody _ ih => exact .block hbody ih
  | plain hc hs _ ih => exact .plain hc hs ih

/-- A quoted part may begin with any other character. -/
theorem Lexes.exists_cons_quote {q c : Char} (hq : isQuote q = true) (hc : c ≠ q)
    (h : Lexes (q :: cs) lexemes) : ∃ other, Lexes (q :: c :: cs) other := by
  obtain ⟨body, rest, tail, hbody, rfl, h, -⟩ | ⟨hbody, -⟩ := h.of_quote hq
  · exact ⟨_, @Lexes.quoted q (c :: body) _ _ hq (List.not_mem_cons_of_ne_of_not_mem (Ne.symm hc) hbody) h⟩
  · exact ⟨_, .unclosed hq (List.not_mem_cons_of_ne_of_not_mem (Ne.symm hc) hbody)⟩

/-- A text of which something is left has lexemes. -/
theorem Strips.exists_lexes {quote : Option Char} (h : Strips quote cs out bodies)
    (hquote : ∀ q ∈ quote, isQuote q = true) : ∃ lexemes, Lexes (quote.toList ++ cs) lexemes := by
  induction h with
  | nil quote =>
      cases quote with
      | none => exact ⟨_, .nil⟩
      | some q => exact ⟨_, .unclosed (hquote q rfl) List.not_mem_nil⟩
  | @quoted q c cs out bodies h ih =>
      have hq := hquote q rfl
      by_cases hc : c = q
      · subst hc
        rw [if_pos rfl] at ih
        obtain ⟨lexemes, h⟩ := ih (by simp)
        exact ⟨_, @Lexes.quoted c [] _ _ hq List.not_mem_nil h⟩
      · rw [if_neg hc] at ih
        obtain ⟨lexemes, h⟩ := ih hquote
        exact h.exists_cons_quote hq hc
  | opened hc _ ih => exact ih (by simpa using hc)
  | line _ ih =>
      obtain ⟨lexemes, h⟩ := ih hquote
      exact ⟨_, .line h⟩
  | block hbody _ ih =>
      obtain ⟨lexemes, h⟩ := ih hquote
      exact ⟨_, .block hbody h⟩
  | plain hc hs _ ih =>
      obtain ⟨lexemes, h⟩ := ih hquote
      exact ⟨_, .plain hc hs h⟩

/-! ## Once more -/

theorem strips_of_strip {text kept : String} {d : Directives} (h : strip text = .ok (kept, d)) :
    ∃ bodies, Strips none text.toList kept.toList bodies := by
  obtain ⟨⟨out, names⟩, hfrom, he⟩ := map_eq_ok.1 h
  cases he
  rw [String.toList_ofList]
  exact ⟨_, strips_of_stripFrom hfrom⟩

theorem Strips.strip_eq {text : String} (h : Strips none text.toList out []) :
    strip text = .ok (String.ofList out, .empty) := by
  rw [strip, h.stripFrom_eq]
  rfl

theorem Statement.withDirectives_withDirectives (s : Statement) (d e : Directives) :
    (s.withDirectives d).withDirectives e = s.withDirectives e := by
  cases s <;> rfl

theorem filterMap_blockBody?_stripped (lexemes : List Lexeme) :
    (lexemes.map Lexeme.stripped).filterMap Lexeme.blockBody? = [] := by
  rw [List.filterMap_map, List.filterMap_eq_nil_iff]
  intro l _
  cases l <;> rfl

/-- What is left of a text without its comments has no comments and no directives. It is the text with a
blank for each of its comments, read as the same lexemes but for these, so the quoted parts are those of the
text; and it is the statement that the text is, but for the directives. -/
theorem strip_keeps {text kept : String} {d : Directives} (h : strip text = .ok (kept, d)) :
    strip kept = .ok (kept, .empty) ∧
      (∃ lexemes : List Lexeme,
        (∀ other, Lexes text.toList other ↔ other = lexemes) ∧
        (∀ other, Lexes kept.toList other ↔ other = lexemes.map Lexeme.stripped) ∧
        text.toList = lexemes.flatMap Lexeme.text ∧
        kept.toList = (lexemes.map Lexeme.stripped).flatMap Lexeme.text ∧
        (lexemes.map Lexeme.stripped).filterMap Lexeme.quotedText? = lexemes.filterMap Lexeme.quotedText?) ∧
      Statement.ofText kept = (Statement.ofText text).map (·.withDirectives .empty) := by
  obtain ⟨bodies, hs⟩ := strips_of_strip h
  obtain ⟨lexemes, hlex⟩ := hs.exists_lexes (by simp)
  rw [Option.toList_none, List.nil_append] at hlex
  have hkept : kept.toList = strippedText lexemes := by
    have hsame := (hs.stripFrom_eq 0).symm.trans (hlex.strips.stripFrom_eq 0)
    rw [Except.ok.injEq, Prod.mk.injEq] at hsame
    exact hsame.1
  have hlex' : Lexes kept.toList (lexemes.map Lexeme.stripped) := by
    rw [hkept]
    exact hlex.stripped
  have hagain : strip kept = .ok (kept, .empty) := by
    have hstrips := hlex'.strips
    rw [strippedText_stripped, filterMap_blockBody?_stripped] at hstrips
    rw [hstrips.strip_eq, ← hkept, String.ofList_toList]
  refine ⟨hagain, ⟨lexemes, ?_, ?_, hlex.eq_flatMap, hlex'.eq_flatMap, ?_⟩, ?_⟩
  · exact fun other => ⟨hlex.unique, fun he => he ▸ hlex⟩
  · exact fun other => ⟨hlex'.unique, fun he => he ▸ hlex'⟩
  · rw [List.filterMap_map]
    exact List.filterMap_congr fun l _ => l.quotedText?_stripped
  · rw [ofText_of_strip hagain, ofText_of_strip h]
    cases Statement.ofBareText (Text.trimEnd (Statement.dropEnd (Text.trim kept.toList))) with
    | error e => rfl
    | ok s =>
        exact congrArg Except.ok (s.withDirectives_withDirectives d .empty).symm

theorem strip_keeps_quoted :
    let text := "/*+ dryrun */SELECT \x27a--b\x27/**/FROM disks-- all"
    let kept := " SELECT \x27a--b\x27 FROM disks "
    strip text = .ok (kept, ⟨["DRYRUN"]⟩) ∧ strip kept = .ok (kept, .empty) ∧
      Statement.ofText kept = (Statement.ofText text).map (·.withDirectives .empty) := by
  intro text kept
  have h : strip text = .ok (kept, ⟨["DRYRUN"]⟩) := by decide +kernel
  obtain ⟨hagain, -, hparse⟩ := strip_keeps h
  exact ⟨h, hagain, hparse⟩

end RestSql.Sql
