import Mathlib.Data.List.DropRight
import RestSql.Proofs.StringLiterals

/-!
# The scan for statement ends

`segments` looks ahead and skips quotes and comments as a whole. Here the same scan takes one character at a
time, with a state for what the characters so far leave open (`segments_eq_cutFrom`). So a text may be cut
after a semicolon that the scan finds outside quotes and comments, and the statements of the whole are
those of the two parts (`split_append`).
-/

namespace RestSql

namespace Text

/-- A text is the trimmed one with blanks at its ends. -/
theorem exists_trim (cs : List Char) :
    ∃ lead trail, cs = lead ++ (trim cs ++ trail) ∧ (∀ c ∈ lead, isBlank c = true) ∧
      ∀ c ∈ trail, isBlank c = true := by
  refine ⟨cs.takeWhile isBlank, ((trimStart cs).reverse.takeWhile isBlank).reverse, ?_,
    fun c hc => List.mem_takeWhile_imp hc, fun c hc => List.mem_takeWhile_imp (List.mem_reverse.1 hc)⟩
  have hend : trim cs ++ ((trimStart cs).reverse.takeWhile isBlank).reverse = trimStart cs := by
    rw [trim, trimEnd, ← List.reverse_append, List.takeWhile_append_dropWhile, List.reverse_reverse]
  rw [hend, trimStart, List.takeWhile_append_dropWhile]

theorem trim_trim (cs : List Char) : trim (trim cs) = trim cs := by
  have hstart : trimStart (trim cs) = trim cs := by
    rw [trim_eq, trimStart, trimStart, List.dropWhile_idempotent]
  have hend : trimEnd (trim cs) = trim cs := by
    rw [trim, trimEnd, trimEnd, List.reverse_reverse, List.dropWhile_idempotent]
  rw [trim, hstart, hend]

theorem trim_append_of_blank {trail : List Char} (h : ∀ c ∈ trail, isBlank c = true) (cs : List Char) :
    trim (cs ++ trail) = trim cs := by
  have hend : trimEnd (cs ++ trail) = trimEnd cs := by
    rw [trimEnd, List.reverse_append, List.dropWhile_append_of_pos, trimEnd]
    exact fun c hc => h c (List.mem_reverse.1 hc)
  rw [trim_eq, hend, ← trim_eq]

end Text

namespace Sql

/-- What is open at the end of a text that is read for statement ends. -/
inductive ScanState
  /-- Nothing; the last character is kept, as it may start a comment with the next one. -/
  | outside (last : Option Char)
  | quoted (quote : Char)
  | lineComment
  /-- A block comment; `star` says that its last character is a star. -/
  | blockComment (star : Bool)
  deriving DecidableEq, Repr

namespace ScanState

def next : ScanState → Char → ScanState
  | outside last, c =>
    if isQuote c then quoted c
    else if last = some '-' ∧ c = '-' then lineComment
    else if last = some '/' ∧ c = '*' then blockComment true
    else outside (some c)
  | quoted q, c => if c = q then outside none else quoted q
  | lineComment, c => if c = '\n' then outside none else lineComment
  | blockComment star, c => if star ∧ c = '/' then outside none else blockComment (c = '*')

/-- The state after more characters. -/
def after (s : ScanState) (cs : List Char) : ScanState :=
  cs.foldl next s

def isOutside : ScanState → Bool
  | outside _ => true
  | _ => false

/-- The pieces of the rest of a text between the semicolons outside quotes and comments. -/
def cutFrom : ScanState → List Char → List (List Char)
  | _, [] => [[]]
  | s, c :: cs =>
    if s.isOutside ∧ c = ';' then [] :: cutFrom (s.next c) cs
    else prepend [c] (cutFrom (s.next c) cs)

theorem cutFrom_ne_nil (s : ScanState) (cs : List Char) : cutFrom s cs ≠ [] := by
  cases cs with
  | nil => exact List.cons_ne_nil _ _
  | cons c cs =>
      rw [cutFrom]
      split
      · exact List.cons_ne_nil _ _
      · cases cutFrom (s.next c) cs <;> exact List.cons_ne_nil _ _

/-- The last character is forgotten where it starts no comment. -/
theorem cutFrom_outside {c : Char} {cs : List Char} (h : ¬StartsComment c cs) :
    cutFrom (outside (some c)) cs = cutFrom (outside none) cs := by
  cases cs with
  | nil => rfl
  | cons d cs =>
      have hnext : (outside (some c)).next d = (outside none).next d := by
        have hline : ¬(c = '-' ∧ d = '-') := fun hd => h (Or.inl ⟨hd.1, by simp [hd.2]⟩)
        have hblock : ¬(c = '/' ∧ d = '*') := fun hd => h (Or.inr ⟨hd.1, by simp [hd.2]⟩)
        simp [next, hline, hblock]
      rw [cutFrom, cutFrom, hnext]
      rfl

theorem cutFrom_lineComment (cs : List Char) :
    cutFrom lineComment cs = prepend (skipLine cs).1 (cutFrom (outside none) (skipLine cs).2) := by
  induction cs with
  | nil => rfl
  | cons c cs ih =>
      rw [cutFrom, if_neg (by simp [isOutside]), skipLine]
      by_cases hc : c = '\n'
      · rw [next, if_pos hc, if_pos hc]
      · rw [next, if_neg hc, if_neg hc, ih, ← prepend_append]
        rfl

theorem cutFrom_blockComment (star : Bool) (cs : List Char) :
    cutFrom (blockComment star) cs =
      prepend (skipBlock star cs).1 (cutFrom (outside none) (skipBlock star cs).2) := by
  induction cs generalizing star with
  | nil => rfl
  | cons c cs ih =>
      rw [cutFrom, if_neg (by simp [isOutside]), skipBlock]
      by_cases hc : star = true ∧ c = '/'
      · rw [next, if_pos hc, if_pos hc]
      · rw [next, if_neg hc, if_neg hc, ih, ← prepend_append]
        rfl

/-- The state while a quote is open, or nothing. -/
def ofQuote : Option Char → ScanState
  | none => outside none
  | some q => quoted q

theorem cutFrom_quoted (q c : Char) (cs : List Char) :
    cutFrom (quoted q) (c :: cs) =
      prepend [c] (cutFrom (ofQuote (if c = q then none else some q)) cs) := by
  rw [cutFrom, if_neg (by simp [isOutside])]
  by_cases hc : c = q <;> simp [next, hc, ofQuote]

theorem cutFrom_opened {c : Char} (hc : isQuote c = true) (cs : List Char) :
    cutFrom (outside none) (c :: cs) = prepend [c] (cutFrom (quoted c) cs) := by
  have hsemi : c ≠ ';' := by
    rintro rfl
    cases hc
  rw [cutFrom, if_neg fun h => hsemi h.2, next, if_pos hc]

theorem cutFrom_line (cs : List Char) :
    cutFrom (outside none) ('-' :: '-' :: cs) = prepend ['-', '-'] (cutFrom lineComment cs) := by
  simp only [cutFrom, next, isOutside]
  simp +decide only [if_false, if_true]
  exact (prepend_append ['-'] ['-'] _).symm

theorem cutFrom_block (cs : List Char) :
    cutFrom (outside none) ('/' :: '*' :: cs) =
      prepend ['/', '*'] (cutFrom (blockComment true) cs) := by
  simp only [cutFrom, next, isOutside]
  simp +decide only [if_false, if_true]
  exact (prepend_append ['/'] ['*'] _).symm

theorem cutFrom_plain {c : Char} {cs : List Char} (hc : isQuote c = false)
    (hs : ¬StartsComment c cs) :
    cutFrom (outside none) (c :: cs) =
      if c = ';' then [] :: cutFrom (outside none) cs else prepend [c] (cutFrom (outside none) cs) := by
  have hnext : (outside none).next c = outside (some c) := by simp [next, hc]
  rw [cutFrom, hnext, cutFrom_outside hs]
  simp [isOutside]

theorem segments_eq_cutFrom (quote : Option Char) (cs : List Char) :
    segments quote cs = cutFrom (ofQuote quote) cs := by
  fun_induction segments quote cs with
  | case1 quote => cases quote <;> rfl
  | case2 c rest q ih =>
      rw [dite_eq_ite] at ih
      rw [ih, ofQuote, cutFrom_quoted]
  | case3 c rest hc ih => rw [ih, ofQuote, ofQuote, cutFrom_opened hc]
  | case4 c rest hc hline ih =>
      obtain ⟨rfl, hrest⟩ := hline
      obtain ⟨cs, rfl⟩ := List.head?_eq_some_iff.1 hrest
      rw [ih, ofQuote, cutFrom_line, cutFrom_lineComment, ← prepend_append]
      rfl
  | case5 c rest hc hline hblock ih =>
      obtain ⟨rfl, hrest⟩ := hblock
      obtain ⟨cs, rfl⟩ := List.head?_eq_some_iff.1 hrest
      rw [ih, ofQuote, cutFrom_block, cutFrom_blockComment, ← prepend_append]
      rfl
  | case6 rest hc hline hblock ih =>
      rw [ih, ofQuote, cutFrom_plain rfl (not_or.2 ⟨hline, hblock⟩), if_pos rfl]
  | case7 c rest hc hline hblock hsemi ih =>
      rw [ih, ofQuote, cutFrom_plain (Bool.eq_false_iff.2 hc) (not_or.2 ⟨hline, hblock⟩),
        if_neg hsemi]

/-- The pieces before a semicolon outside quotes and comments are those of the text before it. -/
theorem cutFrom_append {s : ScanState} {a : List Char} (h : (s.after a).isOutside = true)
    (b : List Char) :
    cutFrom s (a ++ ';' :: b) = cutFrom s a ++ cutFrom (outside (some ';')) b := by
  induction a generalizing s with
  | nil =>
      cases s with
      | outside last =>
          have hnext : (outside last).next ';' = outside (some ';') := by simp +decide [next]
          have hcut : cutFrom (outside last) (';' :: b) = [] :: cutFrom ((outside last).next ';') b := by
            rw [cutFrom, if_pos ⟨rfl, rfl⟩]
          rw [List.nil_append, hcut, hnext]
          rfl
      | quoted => cases h
      | lineComment => cases h
      | blockComment => cases h
  | cons c a ih =>
      rw [List.cons_append, cutFrom, cutFrom, ih h]
      split
      · rfl
      · obtain ⟨piece, pieces, hpieces⟩ := List.exists_cons_of_ne_nil (cutFrom_ne_nil (s.next c) a)
        rw [hpieces]
        rfl

end ScanState

open ScanState

theorem segments_ne_nil (quote : Option Char) (cs : List Char) : segments quote cs ≠ [] := by
  rw [segments_eq_cutFrom]
  exact cutFrom_ne_nil _ _

theorem segments_append {a : List Char} (h : ((outside none).after a).isOutside = true)
    (b : List Char) : segments none (a ++ ';' :: b) = segments none a ++ segments none b := by
  have hb : ¬StartsComment ';' b := by simp [StartsComment]
  simp only [segments_eq_cutFrom, ofQuote]
  rw [cutFrom_append h, cutFrom_outside hb]

/-! ## Statements of a text in two parts -/

/-- The text ends with a semicolon outside quotes and comments, blanks after it apart. -/
def EndsStatement (text : List Char) : Prop :=
  ∃ body blanks, text = body ++ ';' :: blanks ∧ (∀ c ∈ blanks, Text.isBlank c = true) ∧
    ((outside none).after body).isOutside = true

section

variable {blanks : List Char}

theorem isPlain_of_isBlank {c : Char} (h : Text.isBlank c = true) : IsPlain c := by
  refine ⟨?_, ?_, ?_, ?_⟩
  · cases hq : isQuote c with
    | false => rfl
    | true => exact absurd h (by simp [isBlank_of_isQuote hq])
  all_goals
    rintro rfl
    exact absurd h (by decide)

theorem segments_blanks (h : ∀ c ∈ blanks, Text.isBlank c = true) (cs : List Char) :
    segments none (blanks ++ cs) = prepend blanks (segments none cs) := by
  induction blanks with
  | nil =>
      obtain ⟨piece, pieces, hpieces⟩ := List.exists_cons_of_ne_nil (segments_ne_nil none cs)
      rw [List.nil_append, hpieces]
      rfl
  | cons c blanks ih =>
      obtain ⟨hc, h⟩ := List.forall_mem_cons.1 h
      have hplain := isPlain_of_isBlank hc
      rw [List.cons_append, segments_plain hplain.1 (hplain.not_startsComment _),
        if_neg hplain.2.2.2, ih h, ← prepend_append]
      rfl

theorem trim_blanks_append (h : ∀ c ∈ blanks, Text.isBlank c = true) (cs : List Char) :
    Text.trim (blanks ++ cs) = Text.trim cs := by
  rw [Text.trim, Text.trimStart, List.dropWhile_append_of_pos h]
  rfl

theorem commentBody?_append_right {cs body rest : List Char}
    (h : commentBody? cs = some (body, rest)) (other : List Char) :
    commentBody? (cs ++ other) = some (body, rest ++ other) := by
  rw [eq_append_of_commentBody? h, List.append_assoc]
  exact commentBody?_append h (rest ++ other)

theorem strips_blanks (quote : Option Char) (h : ∀ c ∈ blanks, Text.isBlank c = true) :
    Strips quote blanks blanks [] := by
  induction blanks generalizing quote with
  | nil => exact .nil quote
  | cons c blanks ih =>
      obtain ⟨hc, h⟩ := List.forall_mem_cons.1 h
      cases quote with
      | none =>
          have hplain := isPlain_of_isBlank hc
          exact .plain hplain.1 (hplain.not_startsComment blanks) (ih none h)
      | some q => exact .quoted (ih _ h)

theorem not_startsComment_append_blanks {c : Char} {cs : List Char} (hs : ¬StartsComment c cs)
    (h : ∀ c ∈ blanks, Text.isBlank c = true) : ¬StartsComment c (cs ++ blanks) := by
  cases cs with
  | cons d cs => exact hs
  | nil =>
      rintro (⟨-, hd⟩ | ⟨-, hd⟩)
      · exact absurd (h _ (List.mem_of_mem_head? hd)) (by decide)
      · exact absurd (h _ (List.mem_of_mem_head? hd)) (by decide)

/-- Blanks after a text do not keep it from being stripped. -/
theorem Strips.append_blanks {quote : Option Char} {cs out : List Char} {bodies : List (List Char)}
    (h : Strips quote cs out bodies) (hblanks : ∀ c ∈ blanks, Text.isBlank c = true) :
    ∃ out', Strips quote (cs ++ blanks) out' bodies := by
  induction h with
  | nil quote => exact ⟨blanks, strips_blanks quote hblanks⟩
  | quoted _ ih =>
      obtain ⟨out', ih⟩ := ih
      exact ⟨_, .quoted ih⟩
  | opened hc _ ih =>
      obtain ⟨out', ih⟩ := ih
      exact ⟨_, .opened hc ih⟩
  | @line cs out bodies h ih =>
      obtain ⟨out', ih⟩ := ih
      -- a comment without a line feed takes the blanks up to one of them
      cases hend : cs.dropWhile (· ≠ '\n') with
      | nil =>
          rw [hend] at h
          cases h
          have hrest : (cs ++ blanks).dropWhile (· ≠ '\n') = blanks.dropWhile (· ≠ '\n') := by
            rw [List.dropWhile_append, hend, List.isEmpty_nil, if_pos rfl]
          have hline : Strips none (blanks.dropWhile (· ≠ '\n')) (blanks.dropWhile (· ≠ '\n')) [] :=
            strips_blanks none fun c hc => hblanks c ((List.dropWhile_suffix _).subset hc)
          rw [← hrest] at hline
          exact ⟨_, .line hline⟩
      | cons c rest =>
          have hrest : (cs ++ blanks).dropWhile (· ≠ '\n') = cs.dropWhile (· ≠ '\n') ++ blanks := by
            rw [List.dropWhile_append, hend, List.isEmpty_cons, if_neg Bool.false_ne_true]
          rw [← hrest] at ih
          exact ⟨_, .line ih⟩
  | @block body cs rest _ _ hbody _ ih =>
      obtain ⟨out', ih⟩ := ih
      exact ⟨_, .block (commentBody?_append_right hbody blanks) ih⟩
  | plain hc hs _ ih =>
      obtain ⟨out', ih⟩ := ih
      exact ⟨_, .plain hc (not_startsComment_append_blanks hs hblanks) ih⟩

/-- Nor do blanks before it. -/
theorem Strips.blanks_append {cs out : List Char} {bodies : List (List Char)}
    (h : Strips none cs out bodies) (hblanks : ∀ c ∈ blanks, Text.isBlank c = true) :
    Strips none (blanks ++ cs) (blanks ++ out) bodies := by
  induction blanks with
  | nil => exact h
  | cons c blanks ih =>
      obtain ⟨hc, hblanks⟩ := List.forall_mem_cons.1 hblanks
      have hplain := isPlain_of_isBlank hc
      exact .plain hplain.1 (hplain.not_startsComment _) (ih hblanks)

theorem isBlankPiece_of_not_stripsTo {piece : List Char} (h : ∀ out, ¬StripsTo none piece out) :
    isBlankPiece piece = (Text.trim piece).isEmpty := by
  unfold isBlankPiece
  split
  · next out names hstrip => exact absurd ⟨_, strips_of_stripFrom hstrip⟩ (h out)
  · rfl

/-- Trimming does not matter to whether a piece is blank. -/
theorem isBlankPiece_trim (piece : List Char) : isBlankPiece (Text.trim piece) = isBlankPiece piece := by
  by_cases hstrips : ∃ out, StripsTo none piece out
  · obtain ⟨out, hout⟩ := hstrips
    obtain ⟨out', hout', htrim⟩ := hout.trim
    rw [hout'.isBlankPiece_eq, hout.isBlankPiece_eq, htrim]
  · have hnone : ∀ out, ¬StripsTo none (Text.trim piece) out := by
      rintro out ⟨bodies, hout⟩
      obtain ⟨lead, trail, hpiece, hlead, htrail⟩ := Text.exists_trim piece
      obtain ⟨out', hall⟩ := hout.append_blanks htrail
      have hall := hall.blanks_append hlead
      rw [← hpiece] at hall
      exact hstrips ⟨_, _, hall⟩
    rw [isBlankPiece_of_not_stripsTo hnone, Text.trim_trim,
      isBlankPiece_of_not_stripsTo fun out hout => hstrips ⟨out, hout⟩]

theorem isBlankPiece_congr {piece other : List Char} (h : Text.trim piece = Text.trim other) :
    isBlankPiece piece = isBlankPiece other := by
  rw [← isBlankPiece_trim, h, isBlankPiece_trim]

end

/-- The statements that pieces hold. -/
def statementsOf (pieces : List (List Char)) : List String :=
  (pieces.filter (!isBlankPiece ·)).map fun p => String.ofList (Text.trim p)

theorem split_ofList (cs : List Char) :
    split (String.ofList cs) = statementsOf (segments none cs) := by
  rw [split, String.toList_ofList]
  rfl

theorem statementsOf_append (a b : List (List Char)) :
    statementsOf (a ++ b) = statementsOf a ++ statementsOf b := by
  rw [statementsOf, List.filter_append, List.map_append]
  rfl

theorem statementsOf_cons (piece : List Char) (pieces : List (List Char)) :
    statementsOf (piece :: pieces) =
      (if isBlankPiece piece then [] else [String.ofList (Text.trim piece)]) ++
        statementsOf pieces := by
  unfold statementsOf
  rw [List.filter_cons]
  cases isBlankPiece piece <;> rfl

/-- What a piece holds does not depend on the blanks at its ends. -/
theorem statementsOf_congr {piece other : List Char} (h : Text.trim piece = Text.trim other)
    (pieces : List (List Char)) : statementsOf (piece :: pieces) = statementsOf (other :: pieces) := by
  rw [statementsOf_cons, statementsOf_cons, isBlankPiece_congr h, h]

theorem statementsOf_prepend {blanks : List Char} (h : ∀ c ∈ blanks, Text.isBlank c = true)
    {pieces : List (List Char)} (hne : pieces ≠ []) :
    statementsOf (prepend blanks pieces) = statementsOf pieces := by
  obtain ⟨piece, pieces, rfl⟩ := List.exists_cons_of_ne_nil hne
  exact statementsOf_congr (trim_blanks_append h piece) pieces

/-- After a text that ends a statement, the statements go on as in a text of their own. -/
theorem split_append {a : List Char} (h : EndsStatement a) (b : List Char) :
    split (String.ofList (a ++ b)) = split (String.ofList a) ++ split (String.ofList b) := by
  obtain ⟨body, blanks, rfl, hblanks, hbody⟩ := h
  have hsplit (cs : List Char) : split (String.ofList (body ++ ';' :: (blanks ++ cs))) =
      statementsOf (segments none body) ++ split (String.ofList cs) := by
    rw [split_ofList, segments_append hbody, statementsOf_append, segments_blanks hblanks,
      statementsOf_prepend hblanks (segments_ne_nil none cs), ← split_ofList cs]
  have hnil : split (String.ofList []) = [] := by decide +kernel
  have ha := hsplit []
  rw [List.append_nil, hnil, List.append_nil] at ha
  rw [List.append_assoc, List.cons_append, hsplit, ha]

/-- Texts that end their statements may be joined; it does not matter how the last one ends. -/
theorem split_join {texts : List String} (h : ∀ text ∈ texts.dropLast, EndsStatement text.toList) :
    split (String.join texts) = texts.flatMap split := by
  induction texts with
  | nil => decide +kernel
  | cons text texts ih =>
      cases texts with
      | nil => rw [String.join_cons, String.join_nil, String.append_empty, List.flatMap_singleton]
      | cons second texts =>
          rw [List.dropLast_cons_cons] at h
          obtain ⟨htext, h⟩ := List.forall_mem_cons.1 h
          have hjoin := split_append htext (String.join (second :: texts)).toList
          rw [← String.toList_append, String.ofList_toList, String.ofList_toList,
            String.ofList_toList] at hjoin
          rw [String.join_cons, hjoin, ih h]
          rfl

end Sql
end RestSql
