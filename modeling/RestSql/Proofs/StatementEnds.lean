import Mathlib.Data.List.Forall2
import Mathlib.Data.List.TakeWhile
import RestSql.Proofs.Steps
import RestSql.Sql.Comment

/-!
# Where statements end

`strip` and `split` each scan a text in their own way. `Strips` says without positions what is left of a
text without its comments, and the pieces of `split` are compared with the pieces of what is left. The
two scans agree on every text without a block comment that begins `/*/` (`strip_split`): such a comment
ends at once for `split`, but not for `strip`.
-/

namespace RestSql.Sql

/-! ## Texts without their comments -/

/-- A comment starts with the character `c` before `cs`. -/
def StartsComment (c : Char) (cs : List Char) : Prop :=
  (c = '-' ∧ cs.head? = some '-') ∨ (c = '/' ∧ cs.head? = some '*')

/-- `Strips quote cs out bodies`: read while `quote` is open, the text `cs` without its comments is `out`,
and `bodies` are what stands between the marks of its block comments. -/
inductive Strips : Option Char → List Char → List Char → List (List Char) → Prop
  | nil (quote : Option Char) : Strips quote [] [] []
  | quoted {q c : Char} {cs out : List Char} {bodies : List (List Char)}
      (h : Strips (if c = q then none else some q) cs out bodies) :
      Strips (some q) (c :: cs) (c :: out) bodies
  | opened {c : Char} {cs out : List Char} {bodies : List (List Char)} (hc : isQuote c = true)
      (h : Strips (some c) cs out bodies) : Strips none (c :: cs) (c :: out) bodies
  | line {cs out : List Char} {bodies : List (List Char)}
      (h : Strips none (cs.dropWhile (· ≠ '\n')) out bodies) :
      Strips none ('-' :: '-' :: cs) (' ' :: out) bodies
  | block {body cs rest out : List Char} {bodies : List (List Char)}
      (hbody : commentBody? cs = some (body, rest)) (h : Strips none rest out bodies) :
      Strips none ('/' :: '*' :: cs) (' ' :: out) (body :: bodies)
  | plain {c : Char} {cs out : List Char} {bodies : List (List Char)} (hc : isQuote c = false)
      (hs : ¬StartsComment c cs) (h : Strips none cs out bodies) :
      Strips none (c :: cs) (c :: out) bodies

/-- What stands between the marks of the block comments of a text. -/
def blockBodies (quote : Option Char) (cs : List Char) : List (List Char) :=
  match cs with
  | [] => []
  | c :: rest =>
    match quote with
    | some q => blockBodies (if c = q then none else some q) rest
    | none =>
      if isQuote c then blockBodies (some c) rest
      else if c = '-' ∧ rest.head? = some '-' then
        blockBodies none (rest.dropWhile (· ≠ '\n'))
      else if c = '/' ∧ rest.head? = some '*' then
        match _h : commentBody? rest.tail with
        | none => []
        | some (body, tail) => body :: blockBodies none tail
      else blockBodies none rest
termination_by cs.length
decreasing_by
  · simp
  · simp
  · exact Nat.lt_succ_of_le (List.dropWhile_suffix _).length_le
  · have := commentBody?_length _h
    have : rest.tail.length ≤ rest.length := by simp
    simp only [List.length_cons]; omega
  · simp

/-! One equation of `stripFrom` for each rule. -/

section

variable (position : Nat) (c : Char) (cs : List Char)

theorem stripFrom_nil (quote : Option Char) : stripFrom position quote [] = .ok ([], []) := by
  rw [stripFrom]

theorem stripFrom_quoted (q : Char) :
    stripFrom position (some q) (c :: cs) =
      (stripFrom (position + c.utf8Size) (if c = q then none else some q) cs).map
        fun (out, names) => (c :: out, names) := by
  rw [stripFrom]

theorem stripFrom_opened (hc : isQuote c = true) :
    stripFrom position none (c :: cs) = (stripFrom (position + c.utf8Size) (some c) cs).map
      fun (out, names) => (c :: out, names) := by
  rw [stripFrom]
  simp only [hc, if_true]

theorem stripFrom_plain (hc : isQuote c = false) (hs : ¬StartsComment c cs) :
    stripFrom position none (c :: cs) = (stripFrom (position + c.utf8Size) none cs).map
      fun (out, names) => (c :: out, names) := by
  obtain ⟨hline, hblock⟩ := not_or.1 hs
  rw [stripFrom]
  simp only [hc, hline, hblock, if_false]
  rfl

theorem stripFrom_line :
    stripFrom position none ('-' :: '-' :: cs) =
      (stripFrom (position + Text.byteLength ('-' :: '-' :: cs.takeWhile (· ≠ '\n'))) none
        (cs.dropWhile (· ≠ '\n'))).map fun (out, names) => (' ' :: out, names) := by
  rw [stripFrom]
  rfl

theorem stripFrom_block {body rest : List Char} (h : commentBody? cs = some (body, rest)) :
    stripFrom position none ('/' :: '*' :: cs) =
      (stripFrom (position + Text.byteLength body + 4) none rest).map
        fun (out, names) => (' ' :: out, directiveNames body ++ names) := by
  rw [stripFrom]
  simp +decide only [List.head?_cons, List.tail_cons, and_self, if_true, if_false]
  split
  · next hn => rw [h] at hn; cases hn
  · next hs => rw [h] at hs; cases hs; rfl

theorem stripFrom_unclosed (h : commentBody? cs = none) :
    stripFrom position none ('/' :: '*' :: cs) = .error position := by
  rw [stripFrom]
  simp +decide only [List.head?_cons, List.tail_cons, and_self, if_true, if_false]
  split
  · rfl
  · next hs => rw [h] at hs; cases hs

end

theorem strips_of_stripFrom {position : Nat} {quote : Option Char} {cs out : List Char}
    {names : List String} (h : stripFrom position quote cs = .ok (out, names)) :
    Strips quote cs out (blockBodies quote cs) := by
  fun_induction blockBodies quote cs generalizing position out names with
  | case1 quote =>
      rw [stripFrom_nil] at h
      cases h
      exact .nil quote
  | case2 c rest q ih =>
      rw [stripFrom_quoted, map_eq_ok] at h
      obtain ⟨⟨out, names⟩, h, he⟩ := h
      cases he
      exact .quoted (ih h)
  | case3 c rest hc ih =>
      rw [stripFrom_opened _ _ _ hc, map_eq_ok] at h
      obtain ⟨⟨out, names⟩, h, he⟩ := h
      cases he
      exact .opened hc (ih h)
  | case4 c rest hc hline ih =>
      obtain ⟨rfl, hrest⟩ := hline
      obtain ⟨cs, rfl⟩ := List.head?_eq_some_iff.1 hrest
      rw [stripFrom_line, map_eq_ok] at h
      obtain ⟨⟨out, names⟩, h, he⟩ := h
      cases he
      exact .line (ih h)
  | case5 c rest hc hline hblock hbody =>
      obtain ⟨rfl, hrest⟩ := hblock
      obtain ⟨cs, rfl⟩ := List.head?_eq_some_iff.1 hrest
      rw [List.tail_cons] at hbody
      rw [stripFrom_unclosed _ _ hbody] at h
      cases h
  | case6 c rest hc hline hblock body tail hbody ih =>
      obtain ⟨rfl, hrest⟩ := hblock
      obtain ⟨cs, rfl⟩ := List.head?_eq_some_iff.1 hrest
      rw [List.tail_cons] at hbody
      rw [stripFrom_block _ _ hbody, map_eq_ok] at h
      obtain ⟨⟨out, names⟩, h, he⟩ := h
      cases he
      exact .block hbody (ih h)
  | case7 c rest hc hline hblock ih =>
      have hs : ¬StartsComment c rest := not_or.2 ⟨hline, hblock⟩
      have hc : isQuote c = false := Bool.eq_false_iff.2 hc
      rw [stripFrom_plain _ _ _ hc hs, map_eq_ok] at h
      obtain ⟨⟨out, names⟩, h, he⟩ := h
      cases he
      exact .plain hc hs (ih h)

theorem Strips.stripFrom_eq {quote : Option Char} {cs out : List Char} {bodies : List (List Char)}
    (h : Strips quote cs out bodies) (position : Nat) :
    stripFrom position quote cs = .ok (out, bodies.flatMap directiveNames) := by
  induction h generalizing position with
  | nil quote => exact stripFrom_nil position quote
  | quoted _ ih =>
      rw [stripFrom_quoted, ih]
      rfl
  | opened hc _ ih =>
      rw [stripFrom_opened _ _ _ hc, ih]
      rfl
  | line _ ih =>
      rw [stripFrom_line, ih]
      rfl
  | block hbody _ ih =>
      rw [stripFrom_block _ _ hbody, ih]
      rfl
  | plain hc hs _ ih =>
      rw [stripFrom_plain _ _ _ hc hs, ih]
      rfl

/-! ## Pieces -/

/-- The pieces of a text without comments between the semicolons outside quotes. -/
def cutOutsideQuotes (quote : Option Char) : List Char → List (List Char)
  | [] => [[]]
  | c :: cs =>
    match quote with
    | some q => prepend [c] (cutOutsideQuotes (if c = q then none else some q) cs)
    | none =>
      if isQuote c then prepend [c] (cutOutsideQuotes (some c) cs)
      else if c = ';' then [] :: cutOutsideQuotes none cs
      else prepend [c] (cutOutsideQuotes none cs)

theorem prepend_append (a b : List Char) (pieces : List (List Char)) :
    prepend (a ++ b) pieces = prepend a (prepend b pieces) := by
  cases pieces <;> simp [prepend]

theorem segments_quoted (q c : Char) (cs : List Char) :
    segments (some q) (c :: cs) = prepend [c] (segments (if c = q then none else some q) cs) := by
  rw [segments]

theorem segments_opened {c : Char} (hc : isQuote c = true) (cs : List Char) :
    segments none (c :: cs) = prepend [c] (segments (some c) cs) := by
  rw [segments]
  simp only [hc, if_true]

theorem segments_plain {c : Char} {cs : List Char} (hc : isQuote c = false)
    (hs : ¬StartsComment c cs) :
    segments none (c :: cs) =
      if c = ';' then [] :: segments none cs else prepend [c] (segments none cs) := by
  obtain ⟨hline, hblock⟩ := not_or.1 hs
  rw [segments]
  simp only [hc, hline, hblock, if_false]
  rfl

/-- A line feed is the last character of a comment for `segments`, and the first one after it for
`stripFrom`. -/
theorem segments_skipLine (cs : List Char) :
    prepend (skipLine cs).1 (segments none (skipLine cs).2) =
      prepend (cs.takeWhile (· ≠ '\n')) (segments none (cs.dropWhile (· ≠ '\n'))) := by
  induction cs with
  | nil => rfl
  | cons c cs ih =>
      by_cases hc : c = '\n'
      · subst hc
        have hs : ¬StartsComment '\n' cs := by simp [StartsComment]
        simp [skipLine, segments_plain (c := '\n') rfl hs, ← prepend_append]
      · simp only [skipLine, hc, if_false, ne_eq, not_false_eq_true, decide_true,
          List.takeWhile_cons_of_pos, List.dropWhile_cons_of_pos]
        rw [← List.singleton_append, prepend_append, ih, ← prepend_append, List.singleton_append]

theorem segments_line (cs : List Char) :
    segments none ('-' :: '-' :: cs) =
      prepend ('-' :: '-' :: cs.takeWhile (· ≠ '\n'))
        (segments none (cs.dropWhile (· ≠ '\n'))) := by
  have hskip : ('-' :: (skipLine ('-' :: cs)).1) = ['-', '-'] ++ (skipLine cs).1 := rfl
  rw [segments]
  simp +decide only [List.head?_cons, and_self, if_true, if_false]
  rw [hskip, prepend_append]
  show prepend ['-', '-'] (prepend (skipLine cs).1 (segments none (skipLine cs).2)) = _
  rw [segments_skipLine, ← prepend_append]
  rfl

theorem eq_append_of_commentBody? {cs body rest : List Char}
    (h : commentBody? cs = some (body, rest)) : cs = body ++ '*' :: '/' :: rest := by
  fun_induction commentBody? cs generalizing body rest with
  | case1 r =>
      cases h
      rfl
  | case2 c r hne ih =>
      obtain ⟨⟨b, r'⟩, hb, he⟩ := Option.map_eq_some_iff.1 h
      cases he
      rw [List.cons_append, ← ih hb]
  | case3 => cases h

theorem commentBody?_append {cs body rest : List Char} (h : commentBody? cs = some (body, rest))
    (other : List Char) : commentBody? (body ++ '*' :: '/' :: other) = some (body, other) := by
  fun_induction commentBody? cs generalizing body rest with
  | case1 r =>
      cases h
      simp [commentBody?]
  | case2 c r hne ih =>
      obtain ⟨⟨b, r'⟩, hb, he⟩ := Option.map_eq_some_iff.1 h
      cases he
      rw [List.cons_append, commentBody?, ih hb, Option.map_some]
      -- the star of a mark at the front would stand in the text as well
      rintro tail rfl htail
      cases b with
      | nil => exact absurd (List.cons.inj htail).1 (by decide)
      | cons d b =>
          obtain ⟨rfl, -⟩ := List.cons.inj htail
          exact hne _ rfl (eq_append_of_commentBody? hb)
  | case3 => cases h

/-- The end of a block comment is found, unless the star of its opening mark already counts. -/
theorem skipBlock_eq {star : Bool} {cs body rest : List Char}
    (h : commentBody? cs = some (body, rest)) (hs : star = true → body.head? ≠ some '/') :
    skipBlock star cs = (body ++ ['*', '/'], rest) := by
  fun_induction commentBody? cs generalizing star body rest with
  | case1 r =>
      cases h
      simp [skipBlock]
  | case2 c r hne ih =>
      obtain ⟨⟨b, r'⟩, hb, he⟩ := Option.map_eq_some_iff.1 h
      cases he
      have hc : ¬(star = true ∧ c = '/') := by
        rintro ⟨hstar, rfl⟩
        exact hs hstar rfl
      have hb' : decide (c = '*') = true → b.head? ≠ some '/' := by
        intro hc hhead
        obtain ⟨b', rfl⟩ := List.head?_eq_some_iff.1 hhead
        exact hne _ (of_decide_eq_true hc) (eq_append_of_commentBody? hb)
      rw [skipBlock, if_neg hc, ih hb hb']
      rfl
  | case3 => cases h

theorem segments_block {cs body rest : List Char} (h : commentBody? cs = some (body, rest))
    (hb : body.head? ≠ some '/') :
    segments none ('/' :: '*' :: cs) =
      prepend ('/' :: '*' :: (body ++ ['*', '/'])) (segments none rest) := by
  have hskip : skipBlock false ('*' :: cs) = ('*' :: (body ++ ['*', '/']), rest) := by
    rw [skipBlock, skipBlock_eq h fun _ => hb]
    rfl
  rw [segments]
  simp +decide only [List.head?_cons, and_self, if_true, if_false, hskip]

/-- Read while `quote` is open, the piece without its comments is `out`. -/
def StripsTo (quote : Option Char) (piece out : List Char) : Prop :=
  ∃ bodies, Strips quote piece out bodies

/-- Pieces at the front of `cs`, and what they are without comments. Only the first one starts while
`quote` is open. -/
inductive Pieces (quote : Option Char) (cs : List Char) :
    List (List Char) → List (List Char) → Prop
  | intro {piece out : List Char} {pieces outs : List (List Char)} (hp : piece <+: cs)
      (h : StripsTo quote piece out) (hrest : List.Forall₂ (StripsTo none) pieces outs) :
      Pieces quote cs (piece :: pieces) (out :: outs)

theorem Pieces.prepend {quote quote' : Option Char} {cs : List Char} {pieces outs : List (List Char)}
    {a b : List Char} (h : Pieces quote cs pieces outs)
    (hstep : ∀ piece out, piece <+: cs → StripsTo quote piece out →
      StripsTo quote' (a ++ piece) (b ++ out)) :
    Pieces quote' (a ++ cs) (prepend a pieces) (prepend b outs) := by
  cases h with
  | intro hp h hrest => exact .intro ((List.prefix_append_right_inj a).2 hp) (hstep _ _ hp h) hrest

theorem Pieces.forall₂ {cs : List Char} {pieces outs : List (List Char)}
    (h : Pieces none cs pieces outs) : List.Forall₂ (StripsTo none) pieces outs := by
  cases h with
  | intro _ h hrest => exact .cons h hrest

theorem StartsComment.mono {c : Char} {piece cs : List Char} (hp : piece <+: cs)
    (h : StartsComment c piece) : StartsComment c cs := by
  obtain ⟨tail, rfl⟩ := hp
  cases piece with
  | nil => simp [StartsComment] at h
  | cons d piece => exact h

theorem dropWhile_takeWhile_append {p : Char → Bool} {piece cs : List Char}
    (hp : piece <+: cs.dropWhile p) : (cs.takeWhile p ++ piece).dropWhile p = piece := by
  rw [List.dropWhile_append_of_pos fun c hc => List.mem_takeWhile_imp hc]
  cases piece with
  | nil => rfl
  | cons c piece =>
      obtain ⟨tail, htail⟩ := hp
      have hc : p c = false := by
        have := List.head?_dropWhile_not p cs
        rwa [← htail] at this
      rw [List.dropWhile_cons, hc]
      rfl

theorem cutOutsideQuotes_plain {c : Char} (hc : isQuote c = false) (cs : List Char) :
    cutOutsideQuotes none (c :: cs) =
      if c = ';' then [] :: cutOutsideQuotes none cs else prepend [c] (cutOutsideQuotes none cs) := by
  simp [cutOutsideQuotes, hc]

/-- The pieces of a text without their comments are the pieces of the text without its comments. -/
theorem Strips.pieces {quote : Option Char} {cs out : List Char} {bodies : List (List Char)}
    (h : Strips quote cs out bodies) (hb : ∀ body ∈ bodies, body.head? ≠ some '/') :
    Pieces quote cs (segments quote cs) (cutOutsideQuotes quote out) := by
  induction h with
  | nil quote =>
      rw [segments]
      exact .intro List.prefix_rfl ⟨[], .nil quote⟩ .nil
  | @quoted q c cs _ _ _ ih =>
      rw [segments_quoted, cutOutsideQuotes]
      refine (ih hb).prepend (a := [c]) (b := [c]) ?_
      rintro piece out - ⟨bs, hs⟩
      exact ⟨bs, .quoted hs⟩
  | @opened c cs _ _ hc _ ih =>
      rw [segments_opened hc, cutOutsideQuotes, if_pos hc]
      refine (ih hb).prepend (a := [c]) (b := [c]) ?_
      rintro piece out - ⟨bs, hs⟩
      exact ⟨bs, .opened hc hs⟩
  | @line cs _ _ _ ih =>
      have hcs : '-' :: '-' :: cs =
          ('-' :: '-' :: cs.takeWhile (· ≠ '\n')) ++ cs.dropWhile (· ≠ '\n') := by simp
      rw [segments_line, cutOutsideQuotes_plain (c := ' ') rfl, if_neg (by decide), hcs]
      refine (ih hb).prepend ?_
      rintro piece out hp ⟨bs, hs⟩
      rw [← dropWhile_takeWhile_append hp] at hs
      exact ⟨bs, .line hs⟩
  | @block body cs rest _ _ hbody _ ih =>
      have hcs : '/' :: '*' :: cs = ('/' :: '*' :: (body ++ ['*', '/'])) ++ rest := by
        simp [eq_append_of_commentBody? hbody]
      rw [segments_block hbody (hb _ List.mem_cons_self), cutOutsideQuotes_plain (c := ' ') rfl,
        if_neg (by decide), hcs]
      refine (ih fun b h => hb b (List.mem_cons_of_mem _ h)).prepend ?_
      rintro piece out - ⟨bs, hs⟩
      have hpiece : commentBody? ((body ++ ['*', '/']) ++ piece) = some (body, piece) := by
        rw [List.append_assoc]
        exact commentBody?_append hbody piece
      exact ⟨body :: bs, .block hpiece hs⟩
  | @plain c cs _ _ hc hs _ ih =>
      rw [segments_plain hc hs, cutOutsideQuotes_plain hc]
      by_cases hsemi : c = ';'
      · rw [if_pos hsemi, if_pos hsemi]
        exact .intro (List.nil_prefix) ⟨[], .nil none⟩ (ih hb).forall₂
      · rw [if_neg hsemi, if_neg hsemi]
        refine (ih hb).prepend (a := [c]) (b := [c]) ?_
        rintro piece out hp ⟨bs, h⟩
        exact ⟨bs, .plain hc (mt (.mono hp) hs) h⟩

/-! ## Trimming -/

theorem StripsTo.eq_nil {quote : Option Char} {out : List Char} (h : StripsTo quote [] out) :
    out = [] := by
  obtain ⟨bodies, h⟩ := h
  cases h
  rfl

/-- Trimmed at its end, the piece is without comments what `out` is trimmed at its end. -/
def Trims (quote : Option Char) (piece out : List Char) : Prop :=
  ∃ out', StripsTo quote (Text.trimEnd piece) out' ∧ Text.trimEnd out' = Text.trimEnd out

theorem Trims.cons {quote quote' : Option Char} {c : Char} {piece out : List Char}
    (h : Trims quote' piece out)
    (hstep : ∀ piece' out', piece' <+: piece → StripsTo quote' piece' out' →
      StripsTo quote (c :: piece') (c :: out')) :
    Trims quote (c :: piece) (c :: out) := by
  obtain ⟨out', h, heq⟩ := h
  by_cases hc : Text.trimEnd piece = [] ∧ Text.isBlank c
  · have hout : Text.trimEnd out = [] := by
      rw [hc.1] at h
      rw [← heq, h.eq_nil]
      rfl
    refine ⟨[], ?_, ?_⟩
    · rw [Text.trimEnd_cons, if_pos hc]
      exact ⟨[], .nil quote⟩
    · rw [Text.trimEnd_cons, if_pos ⟨hout, hc.2⟩]
      rfl
  · refine ⟨c :: out', ?_, ?_⟩
    · rw [Text.trimEnd_cons, if_neg hc]
      exact hstep _ _ (Text.isPrefix_trimEnd piece) h
    · rw [Text.trimEnd_cons, Text.trimEnd_cons, heq]

theorem Strips.trims {quote : Option Char} {cs out : List Char} {bodies : List (List Char)}
    (h : Strips quote cs out bodies) : Trims quote cs out := by
  induction h with
  | nil quote => exact ⟨[], ⟨[], .nil quote⟩, rfl⟩
  | quoted _ ih => exact ih.cons fun _ _ _ ⟨bs, hs⟩ => ⟨bs, .quoted hs⟩
  | opened hc _ ih => exact ih.cons fun _ _ _ ⟨bs, hs⟩ => ⟨bs, .opened hc hs⟩
  | @line cs _ _ _ ih =>
      obtain ⟨out', ⟨bs, hs⟩, heq⟩ := ih
      rw [← Text.dropWhile_trimEnd] at hs
      refine ⟨' ' :: out', ?_, ?_⟩
      · rw [Text.trimEnd_cons_of_not_blank (by decide), Text.trimEnd_cons_of_not_blank (by decide)]
        exact ⟨bs, .line hs⟩
      · rw [Text.trimEnd_cons, Text.trimEnd_cons, heq]
  | @block body cs rest _ _ hbody _ ih =>
      obtain ⟨out', ⟨bs, hs⟩, heq⟩ := ih
      have hend : Text.trimEnd ('*' :: '/' :: rest) = '*' :: '/' :: Text.trimEnd rest := by
        rw [Text.trimEnd_cons_of_not_blank (by decide), Text.trimEnd_cons_of_not_blank (by decide)]
      refine ⟨' ' :: out', ?_, ?_⟩
      · rw [Text.trimEnd_cons_of_not_blank (by decide), Text.trimEnd_cons_of_not_blank (by decide),
          eq_append_of_commentBody? hbody, Text.trimEnd_append_of_ne_nil (by simp [hend]), hend]
        exact ⟨body :: bs, .block (commentBody?_append hbody _) hs⟩
      · rw [Text.trimEnd_cons, Text.trimEnd_cons, heq]
  | plain hc hs _ ih =>
      exact ih.cons fun _ _ hp ⟨bs, h⟩ => ⟨bs, .plain hc (mt (.mono hp) hs) h⟩

theorem isBlank_of_isQuote {c : Char} (hc : isQuote c = true) : Text.isBlank c = false := by
  simp only [isQuote, Bool.or_eq_true, decide_eq_true_eq] at hc
  rcases hc with (rfl | rfl) | rfl <;> decide

theorem Strips.of_blank {c : Char} {cs out : List Char} {bodies : List (List Char)}
    (h : Strips none (c :: cs) out bodies) (hc : Text.isBlank c = true) :
    ∃ out', out = c :: out' ∧ Strips none cs out' bodies := by
  cases h with
  | opened hq _ => exact absurd hc (by simp [isBlank_of_isQuote hq])
  | line => exact absurd hc (by decide)
  | block => exact absurd hc (by decide)
  | plain _ _ h => exact ⟨_, rfl, h⟩

theorem StripsTo.trimStart {piece out : List Char} (h : StripsTo none piece out) :
    ∃ out', StripsTo none (Text.trimStart piece) out' ∧ Text.trimStart out' = Text.trimStart out := by
  induction piece generalizing out with
  | nil => exact ⟨out, h, rfl⟩
  | cons c piece ih =>
      by_cases hc : Text.isBlank c
      · obtain ⟨bodies, h⟩ := h
        obtain ⟨out', rfl, hrest⟩ := h.of_blank hc
        simp only [Text.trimStart, List.dropWhile_cons_of_pos hc]
        exact ih ⟨bodies, hrest⟩
      · refine ⟨out, ?_, rfl⟩
        rwa [Text.trimStart, List.dropWhile_cons_of_neg hc]

theorem StripsTo.trim {piece out : List Char} (h : StripsTo none piece out) :
    ∃ out', StripsTo none (Text.trim piece) out' ∧ Text.trim out' = Text.trim out := by
  obtain ⟨out₁, ⟨bodies, h₁⟩, hstart⟩ := h.trimStart
  obtain ⟨out₂, h₂, hend⟩ := h₁.trims
  refine ⟨out₂, h₂, ?_⟩
  calc Text.trim out₂ = Text.trimStart (Text.trimEnd out₁) := by rw [Text.trim_eq, hend]
    _ = Text.trimEnd (Text.trimStart out₁) := (Text.trim_eq out₁).symm
    _ = Text.trim out := by rw [hstart]; rfl

/-! ## Statements -/

theorem StripsTo.isBlankPiece_eq {piece out : List Char} (h : StripsTo none piece out) :
    isBlankPiece piece = (Text.trim out).isEmpty := by
  obtain ⟨bodies, h⟩ := h
  simp only [isBlankPiece, h.stripFrom_eq 0]

theorem StripsTo.strip_trim {piece out : List Char} (h : StripsTo none piece out) :
    ∃ text d, strip (String.ofList (Text.trim piece)) = .ok (text, d) ∧
      Text.trimmed text = String.ofList (Text.trim out) := by
  obtain ⟨out', ⟨bodies, h⟩, heq⟩ := h.trim
  refine ⟨String.ofList out', (bodies.flatMap directiveNames).foldl Directives.insert .empty, ?_, ?_⟩
  · rw [strip, String.toList_ofList, h.stripFrom_eq 0]
    rfl
  · rw [Text.trimmed, String.toList_ofList, heq]

theorem strip_all {pieces outs : List (List Char)} (h : List.Forall₂ (StripsTo none) pieces outs) :
    ∃ stripped,
      ((pieces.filter (!isBlankPiece ·)).map fun p => String.ofList (Text.trim p)).mapM strip =
        .ok stripped ∧
      stripped.map (fun s => Text.trimmed s.1) =
        ((outs.map Text.trim).filter (· ≠ [])).map String.ofList := by
  induction h with
  | nil => exact ⟨[], rfl, rfl⟩
  | @cons piece out pieces outs h _ ih =>
      obtain ⟨stripped, hall, hmap⟩ := ih
      have hblank := h.isBlankPiece_eq
      cases hout : Text.trim out with
      | nil =>
          refine ⟨stripped, ?_, ?_⟩
          · rw [List.filter_cons_of_neg (by simp [hblank, hout]), hall]
          · rw [List.map_cons, List.filter_cons_of_neg (by simp [hout]), hmap]
      | cons c cs =>
          obtain ⟨text, d, hstrip, htext⟩ := h.strip_trim
          refine ⟨(text, d) :: stripped, ?_, ?_⟩
          · rw [List.filter_cons_of_pos (by simp [hblank, hout]), List.map_cons, List.mapM_cons,
              hstrip, hall]
            rfl
          · rw [List.map_cons, List.map_cons, List.filter_cons_of_pos (by simp [hout]),
              List.map_cons, hmap, htext]

/-- If `strip` accepts a text without a block comment that begins `/*/`, it accepts each of its statements.
Without comments they are the pieces of the stripped text between its semicolons outside quotes. -/
theorem strip_split {text out : String} {d : Directives} (h : strip text = .ok (out, d))
    (hb : ∀ body ∈ blockBodies none text.toList, body.head? ≠ some '/') :
    ∃ stripped, (split text).mapM strip = .ok stripped ∧
      stripped.map (fun s => Text.trimmed s.1) =
        (((cutOutsideQuotes none out.toList).map Text.trim).filter (· ≠ [])).map String.ofList := by
  rw [strip, map_eq_ok] at h
  obtain ⟨⟨cs, names⟩, h, he⟩ := h
  cases he
  rw [String.toList_ofList]
  exact strip_all ((strips_of_stripFrom h).pieces hb).forall₂

theorem strip_split_comment :
    ∃ stripped, (split "SLEEP 1 /* ; */; -- ;\n;SLEEP 2").mapM strip = .ok stripped ∧
      stripped.map (fun s => Text.trimmed s.1) = ["SLEEP 1", "SLEEP 2"] := by
  have hstrip : strip "SLEEP 1 /* ; */; -- ;\n;SLEEP 2" = .ok ("SLEEP 1  ;  \n;SLEEP 2", .empty) := by
    decide +kernel
  obtain ⟨stripped, h, heq⟩ := strip_split hstrip (by decide +kernel)
  exact ⟨stripped, h, heq.trans (by decide +kernel)⟩

/-- The semicolon in this comment ends a statement, although `strip` takes it for a part of the comment. -/
theorem not_strip_split :
    strip "SLEEP 1 /*/ ; */" = .ok ("SLEEP 1  ", .empty) ∧
      ∀ stripped, (split "SLEEP 1 /*/ ; */").mapM strip ≠ .ok stripped := by
  have hfails : ((split "SLEEP 1 /*/ ; */").mapM strip).isOk = false := by decide +kernel
  refine ⟨by decide +kernel, fun stripped h => ?_⟩
  rw [h] at hfails
  cases hfails

end RestSql.Sql
