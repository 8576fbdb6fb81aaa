import Mathlib.Data.List.Forall2
import RestSql.Filter

/-!
# Which texts a pattern matches

A text matches a pattern if it can be cut into pieces that the characters of the pattern take in order: a
percent sign takes any piece, an underscore one character, and every other character only itself. A filter
`column LIKE pattern` keeps the rows whose text has such pieces with no line feed for percent signs and
underscores (`keeps_like_iff`), so a line feed is matched by a line feed of the pattern and by nothing else.
-/

namespace RestSql.LikePattern

/-- The pieces that a character of a pattern takes, if percent signs and underscores take only the
characters that are `free`. -/
inductive Takes (free : Char → Prop) : Char → List Char → Prop
  | anyText {piece : List Char} (h : ∀ c ∈ piece, free c) : Takes free '%' piece
  | anyChar {c : Char} (h : free c) : Takes free '_' [c]
  | itself {c : Char} (hp : c ≠ '%') (hu : c ≠ '_') : Takes free c [c]

/-- The text can be cut into pieces that the characters of the pattern take in order. -/
def Cuts (free : Char → Prop) (pattern text : List Char) : Prop :=
  ∃ pieces, List.Forall₂ (Takes free) pattern pieces ∧ pieces.flatten = text

variable {free : Char → Prop}

theorem takes_percent_iff {piece : List Char} :
    Takes free '%' piece ↔ ∀ c ∈ piece, free c := by
  constructor
  · intro h
    cases h with
    | anyText h => exact h
    | itself hp _ => exact absurd rfl hp
  · exact .anyText

theorem takes_underscore_iff {piece : List Char} :
    Takes free '_' piece ↔ ∃ c, piece = [c] ∧ free c := by
  constructor
  · intro h
    cases h with
    | anyChar h => exact ⟨_, rfl, h⟩
    | itself _ hu => exact absurd rfl hu
  · rintro ⟨c, rfl, h⟩
    exact .anyChar h

theorem takes_itself_iff {p : Char} (hp : p ≠ '%') (hu : p ≠ '_') {piece : List Char} :
    Takes free p piece ↔ piece = [p] := by
  constructor
  · intro h
    cases h with
    | anyText => exact absurd rfl hp
    | anyChar => exact absurd rfl hu
    | itself => rfl
  · rintro rfl
    exact .itself hp hu

theorem Takes.mono {other : Char → Prop} {p : Char} {piece : List Char} (h : Takes free p piece)
    (hfree : ∀ c ∈ piece, free c → other c) : Takes other p piece := by
  cases h with
  | anyText h => exact .anyText fun c hc => hfree c hc (h c hc)
  | anyChar h => exact .anyChar (hfree _ List.mem_cons_self h)
  | itself hp hu => exact .itself hp hu

theorem cuts_nil_iff {text : List Char} : Cuts free [] text ↔ text = [] := by
  constructor
  · rintro ⟨pieces, h, rfl⟩
    cases h
    rfl
  · rintro rfl
    exact ⟨[], .nil, rfl⟩

theorem cuts_cons_iff {p : Char} {pattern text : List Char} :
    Cuts free (p :: pattern) text ↔
      ∃ piece rest, text = piece ++ rest ∧ Takes free p piece ∧ Cuts free pattern rest := by
  constructor
  · rintro ⟨pieces, h, rfl⟩
    cases h with
    | @cons _ piece _ pieces hp hs =>
        exact ⟨piece, pieces.flatten, List.flatten_cons, hp, pieces, hs, rfl⟩
  · rintro ⟨piece, rest, rfl, hp, pieces, hs, rfl⟩
    exact ⟨piece :: pieces, .cons hp hs, List.flatten_cons⟩

/-- What is free matters only for the characters of the text. -/
theorem Cuts.mono {other : Char → Prop} {pattern text : List Char} (h : Cuts free pattern text)
    (hfree : ∀ c ∈ text, free c → other c) : Cuts other pattern text := by
  induction pattern generalizing text with
  | nil => exact cuts_nil_iff.2 (cuts_nil_iff.1 h)
  | cons p pattern ih =>
      obtain ⟨piece, rest, rfl, hp, hrest⟩ := cuts_cons_iff.1 h
      refine cuts_cons_iff.2 ⟨piece, rest, rfl, hp.mono fun c hc => ?_, ih hrest fun c hc => ?_⟩
      · exact hfree c (List.mem_append_left rest hc)
      · exact hfree c (List.mem_append_right piece hc)

/-! ## The parts of a pattern -/

/-- The part of a pattern that a character stands for. -/
def partOf (c : Char) : LikePart :=
  if c = '%' then .anyText else if c = '_' then .anyChar else .char c

theorem parts_ofText (pattern : String) : (ofText pattern).parts = pattern.toList.map partOf :=
  rfl

theorem accepts_anyText_iff {ps : List LikePart} {cs : List Char} :
    accepts (.anyText :: ps) cs = true ↔
      ∃ piece rest, cs = piece ++ rest ∧ (∀ c ∈ piece, c ≠ '\n') ∧ accepts ps rest = true := by
  induction cs with
  | nil =>
      rw [accepts]
      constructor
      · intro h
        exact ⟨[], [], rfl, fun c hc => absurd hc List.not_mem_nil, h⟩
      · rintro ⟨piece, rest, hcut, -, h⟩
        obtain ⟨-, rfl⟩ := List.append_eq_nil_iff.1 hcut.symm
        exact h
  | cons c cs ih =>
      rw [accepts, Bool.or_eq_true, Bool.and_eq_true, ih]
      constructor
      · rintro (h | ⟨hc, piece, rest, rfl, hpiece, h⟩)
        · exact ⟨[], c :: cs, rfl, fun c hc => absurd hc List.not_mem_nil, h⟩
        · have hc : c ≠ '\n' := by simpa [LikePart.admits] using hc
          exact ⟨c :: piece, rest, rfl, List.forall_mem_cons.2 ⟨hc, hpiece⟩, h⟩
      · rintro ⟨piece, rest, hcut, hpiece, h⟩
        cases piece with
        | nil =>
            rw [List.nil_append] at hcut
            rw [hcut]
            exact Or.inl h
        | cons d piece =>
            obtain ⟨rfl, rfl⟩ := List.cons.inj hcut
            obtain ⟨hc, hpiece⟩ := List.forall_mem_cons.1 hpiece
            refine Or.inr ⟨?_, piece, rest, rfl, hpiece, h⟩
            simpa [LikePart.admits] using hc

/-- A part for one character takes the first one. -/
theorem accepts_cons_iff {p : LikePart} (hp : p ≠ .anyText) {ps : List LikePart} {cs : List Char} :
    accepts (p :: ps) cs = true ↔
      ∃ c rest, cs = c :: rest ∧ p.admits c = true ∧ accepts ps rest = true := by
  cases cs with
  | nil => cases p <;> simp_all [accepts]
  | cons c cs => cases p <;> simp_all [accepts]

theorem accepts_iff_cuts {pattern text : List Char} :
    accepts (pattern.map partOf) text = true ↔ Cuts (· ≠ '\n') pattern text := by
  induction pattern generalizing text with
  | nil => rw [List.map_nil, accepts, List.isEmpty_iff, cuts_nil_iff]
  | cons p pattern ih =>
      rw [List.map_cons, cuts_cons_iff]
      simp only [← ih]
      by_cases hpercent : p = '%'
      · subst hpercent
        simp only [takes_percent_iff]
        exact accepts_anyText_iff
      by_cases hunderscore : p = '_'
      · subst hunderscore
        rw [show partOf '_' = .anyChar from rfl, accepts_cons_iff (by decide)]
        simp only [takes_underscore_iff]
        constructor
        · rintro ⟨c, rest, rfl, hc, h⟩
          exact ⟨[c], rest, rfl, ⟨c, rfl, by simpa [LikePart.admits] using hc⟩, h⟩
        · rintro ⟨_, rest, rfl, ⟨c, rfl, hc⟩, h⟩
          exact ⟨c, rest, rfl, by simpa [LikePart.admits] using hc, h⟩
      · have hpart : partOf p = .char p := by rw [partOf, if_neg hpercent, if_neg hunderscore]
        rw [hpart, accepts_cons_iff (by simp)]
        simp only [takes_itself_iff hpercent hunderscore]
        constructor
        · rintro ⟨c, rest, rfl, hc, h⟩
          obtain rfl : p = c := by simpa [LikePart.admits] using hc
          exact ⟨[p], rest, rfl, rfl, h⟩
        · rintro ⟨_, rest, rfl, rfl, h⟩
          exact ⟨p, rest, rfl, by simp [LikePart.admits], h⟩

theorem matches_ofText_iff {pattern text : String} :
    (ofText pattern).matches text = true ↔ Cuts (· ≠ '\n') pattern.toList text.toList := by
  rw [matches_eq, parts_ofText, accepts_iff_cuts]

/-! ## Filters -/

open Sql (Expr)

/-- `column LIKE pattern` as a filter. It keeps the rows with a text that can be cut by the pattern with no
line feed for its percent signs and underscores. Of the texts without line feeds it keeps all that can be
cut. -/
theorem keeps_like_iff (use : FilterUse) {skip : String → Bool} (qualifier : Option String)
    {column : String} (hskip : skip column = false) (pattern : String) :
    ∃ f, Filter.ofExpr use skip
        (.comparison (.column qualifier column) .like (.literal (.string pattern))) = .ok f ∧
      ∀ (row : Row) (text : String), row.cell? column = some (.string text) →
        (f.keeps row = true ↔ Cuts (· ≠ '\n') pattern.toList text.toList) ∧
        ('\n' ∉ text.toList →
          (f.keeps row = true ↔ Cuts (fun _ => True) pattern.toList text.toList)) := by
  refine ⟨.like [column] (.ofText pattern) false, ?_, fun row text hcell => ?_⟩
  · simp [Filter.ofExpr, Filter.comparison?, hskip, Filter.ofComparison, Sql.Literal.raw]
  · have hkeeps : Filter.keeps row (.like [column] (.ofText pattern) false) =
        (ofText pattern).matches text := by
      simp [Filter.keeps, Filter.likeCell, hcell, Json.isNull, Json.cellText]
    rw [hkeeps, matches_ofText_iff]
    refine ⟨Iff.rfl, fun hfree => ⟨fun h => h.mono fun _ _ _ => trivial, fun h => ?_⟩⟩
    exact h.mono fun c hc _ he => hfree (he ▸ hc)

/-- A line feed of the pattern is matched, and so are the characters around it. -/
theorem keeps_like_iff_lines :
    ∃ f, Filter.ofExpr .rows (· == "project")
        (.comparison (.column none "note") .like (.literal (.string "%\n_"))) = .ok f ∧
      f.keeps [("note", .string "ab\nc")] = true := by
  obtain ⟨f, hf, hkeeps⟩ :=
    @keeps_like_iff .rows (· == "project") none "note" rfl "%\n_"
  refine ⟨f, hf, (hkeeps [("note", .string "ab\nc")] "ab\nc" rfl).1.2 ?_⟩
  refine ⟨[['a', 'b'], ['\n'], ['c']], .cons ?_ (.cons ?_ (.cons ?_ .nil)), rfl⟩
  · exact .anyText (by simp)
  · exact .itself (by decide) (by decide)
  · exact .anyChar (by decide)

/-- The pieces of this text include a line feed for the percent sign, and the filter drops it. -/
theorem not_keeps_across_lines :
    ∃ f, Filter.ofExpr .rows (fun _ => false)
        (.comparison (.column none "note") .like (.literal (.string "a%b"))) = .ok f ∧
      Cuts (fun _ => True) "a%b".toList "a\nb".toList ∧
      f.keeps [("note", .string "a\nb")] = false := by
  refine ⟨.like ["note"] (.ofText "a%b") false, rfl, ?_, by decide +kernel⟩
  refine ⟨[['a'], ['\n'], ['b']], .cons ?_ (.cons ?_ (.cons ?_ .nil)), rfl⟩
  · exact .itself (by decide) (by decide)
  · exact .anyText fun _ _ => trivial
  · exact .itself (by decide) (by decide)

end RestSql.LikePattern
