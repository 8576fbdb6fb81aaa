import RestSql.Proofs.FailedPlans
import RestSql.Proofs.StatementScan

/-!
# Statements of joined texts

A line feed and a semicolon part two texts if the scan for statement ends has no quote and no block comment
open where they stand: the line feed ends a line comment, and the semicolon a statement (`split_separated`).
The statements of a text are such texts themselves, but for the last one, and each of them is one statement
(`Cut`). So they can be joined and are cut apart as they were, and a session executes the joined text as it
does its two parts one after the other (`Session.joined_statements`).
-/

namespace RestSql

namespace Sql

namespace ScanState

/-- No quote and no block comment is open. -/
def isClosed : ScanState → Bool
  | outside _ | lineComment => true
  | quoted _ | blockComment _ => false

/-- What is open at the end of a text. -/
def endOf (text : String) : ScanState :=
  (outside none).after text.toList

/-- No semicolon in the text is outside quotes and comments. -/
def IsWhole (s : ScanState) (cs : List Char) : Prop :=
  cutFrom s cs = [cs]

/-- The pieces are whole, and all but the last one end outside quotes and comments. -/
def Cut (s : ScanState) : List (List Char) → Prop
  | [] => False
  | [last] => IsWhole s last
  | piece :: more => IsWhole s piece ∧ (s.after piece).isOutside = true ∧ Cut (outside none) more

variable {s : ScanState} {c : Char} {a b cs : List Char} {pieces : List (List Char)}

theorem isClosed_of_isOutside (h : s.isOutside = true) : s.isClosed = true := by
  cases s with
  | outside | lineComment => rfl
  | quoted | blockComment => cases h

theorem isOutside_next_lineFeed (h : s.isClosed = true) : (s.next '\n').isOutside = true := by
  cases s with
  | outside last => simp [next, isQuote, isOutside]
  | lineComment => rfl
  | quoted | blockComment => cases h

theorem isWhole_cons :
    IsWhole s (c :: cs) ↔ ¬(s.isOutside = true ∧ c = ';') ∧ IsWhole (s.next c) cs := by
  unfold IsWhole
  obtain ⟨piece, pieces, hpieces⟩ := List.exists_cons_of_ne_nil (cutFrom_ne_nil (s.next c) cs)
  rw [cutFrom, hpieces]
  by_cases hc : s.isOutside = true ∧ c = ';'
  · simp [hc]
  · simp [hc, prepend]

theorem IsWhole.of_append (h : IsWhole s (a ++ b)) : IsWhole s a := by
  induction a generalizing s with
  | nil => rfl
  | cons c a ih =>
      obtain ⟨hc, h⟩ := isWhole_cons.1 h
      exact isWhole_cons.2 ⟨hc, ih h⟩

theorem Cut.cons (hc : ¬(s.isOutside = true ∧ c = ';')) (h : Cut (s.next c) pieces) :
    Cut s (prepend [c] pieces) := by
  match pieces, h with
  | [_], h => exact isWhole_cons.2 ⟨hc, h⟩
  | _ :: _ :: _, ⟨hwhole, hend, hmore⟩ => exact ⟨isWhole_cons.2 ⟨hc, hwhole⟩, hend, hmore⟩

theorem Cut.nil_cons (hs : s.isOutside = true) (h : Cut (outside none) pieces) : Cut s ([] :: pieces) := by
  match pieces, h with
  | _ :: _, h => exact ⟨rfl, hs, h⟩

theorem cut_cutFrom (s : ScanState) (cs : List Char) : Cut s (cutFrom s cs) := by
  induction cs generalizing s with
  | nil => exact rfl
  | cons c cs ih =>
      rw [cutFrom]
      split
      · next hc =>
        obtain ⟨hs, rfl⟩ := hc
        obtain ⟨last, rfl⟩ : ∃ last, s = outside last := by
          cases s with
          | outside last => exact ⟨last, rfl⟩
          | quoted | lineComment | blockComment => cases hs
        have hnext : (outside last).next ';' = outside (some ';') := by simp +decide [next]
        rw [hnext, cutFrom_outside (by simp [StartsComment])]
        exact .nil_cons rfl (ih _)
      · next hc => exact (ih _).cons hc

theorem Cut.isWhole (h : Cut (outside none) pieces) {piece : List Char} (hmem : piece ∈ pieces) :
    IsWhole (outside none) piece := by
  induction pieces with
  | nil => cases h
  | cons first more ih =>
      cases more with
      | nil =>
          cases List.mem_singleton.1 hmem
          exact h
      | cons second more =>
          rcases List.mem_cons.1 hmem with rfl | hmem
          · exact h.1
          · exact ih h.2.2 hmem

theorem Cut.isOutside (h : Cut (outside none) pieces) {piece : List Char} (hmem : piece ∈ pieces.dropLast) :
    ((outside none).after piece).isOutside = true := by
  induction pieces with
  | nil => cases h
  | cons first more ih =>
      cases more with
      | nil => cases hmem
      | cons second more =>
          rw [List.dropLast_cons_cons] at hmem
          rcases List.mem_cons.1 hmem with rfl | hmem
          · exact h.2.1
          · exact ih h.2.2 hmem

/-! ## Trimmed pieces -/

variable {blanks : List Char}

theorem IsWhole.trim (h : IsWhole (outside none) cs) : IsWhole (outside none) (Text.trim cs) := by
  obtain ⟨lead, trail, hcs, hlead, -⟩ := Text.exists_trim cs
  have hcut (x : List Char) :
      cutFrom (outside none) (lead ++ x) = prepend lead (cutFrom (outside none) x) := by
    have hblanks := segments_blanks hlead x
    rwa [segments_eq_cutFrom, segments_eq_cutFrom] at hblanks
  obtain ⟨piece, pieces, hpieces⟩ :=
    List.exists_cons_of_ne_nil (cutFrom_ne_nil (outside none) (Text.trim cs ++ trail))
  rw [hcs, IsWhole, hcut, hpieces, prepend, List.cons.injEq, List.append_cancel_left_eq] at h
  obtain ⟨rfl, rfl⟩ := h
  exact IsWhole.of_append hpieces

/-- Only quotes are open quotes. -/
def IsProper (s : ScanState) : Prop :=
  ∀ q, s = quoted q → isQuote q = true

theorem isProper_outside (last : Option Char) : (outside last).IsProper := by
  rintro q ⟨⟩

theorem IsProper.next (h : s.IsProper) (c : Char) : (s.next c).IsProper := by
  intro q hq
  cases s with
  | outside last =>
      rw [ScanState.next] at hq
      split_ifs at hq with hc
      cases hq
      exact hc
  | quoted p =>
      rw [ScanState.next] at hq
      split_ifs at hq
      exact h q hq
  | lineComment | blockComment =>
      rw [ScanState.next] at hq
      split_ifs at hq

theorem IsProper.after (h : s.IsProper) (cs : List Char) : (s.after cs).IsProper := by
  induction cs generalizing s with
  | nil => exact h
  | cons c cs ih => exact ih (h.next c)

/-- Blanks close no quote and no block comment. -/
theorem IsProper.isClosed_of_blanks (hs : s.IsProper) (hblanks : ∀ c ∈ blanks, Text.isBlank c = true)
    (h : (s.after blanks).isClosed = true) : s.isClosed = true := by
  induction blanks generalizing s with
  | nil => exact h
  | cons c blanks ih =>
      obtain ⟨hc, hblanks⟩ := List.forall_mem_cons.1 hblanks
      have hnext := ih (hs.next c) hblanks h
      cases s with
      | outside | lineComment => rfl
      | quoted q =>
          have hne : c ≠ q := by
            rintro rfl
            cases (isBlank_of_isQuote (hs c rfl)).symm.trans hc
          rw [ScanState.next, if_neg hne] at hnext
          cases hnext
      | blockComment star =>
          have hne : c ≠ '/' := by
            rintro rfl
            exact absurd hc (by decide)
          rw [ScanState.next, if_neg fun hend => hne hend.2] at hnext
          cases hnext

theorem isClosed_after_outside {last : Option Char} (hline : last ≠ some '-') (hblock : last ≠ some '/')
    (cs : List Char) : ((outside last).after cs).isClosed = ((outside none).after cs).isClosed := by
  cases cs with
  | nil => rfl
  | cons c cs =>
      have hnext : (outside last).next c = (outside none).next c := by simp [ScanState.next, hline, hblock]
      rw [ScanState.after, List.foldl_cons, hnext]
      rfl

theorem isClosed_blanks_append (h : ∀ c ∈ blanks, Text.isBlank c = true) (cs : List Char) :
    ((outside none).after (blanks ++ cs)).isClosed = ((outside none).after cs).isClosed := by
  induction blanks with
  | nil => rfl
  | cons c blanks ih =>
      obtain ⟨hc, h⟩ := List.forall_mem_cons.1 h
      have hplain := isPlain_of_isBlank hc
      have hnext : (outside none).next c = outside (some c) := by simp [ScanState.next, hplain.1]
      calc ((outside none).after (c :: (blanks ++ cs))).isClosed
          = ((outside (some c)).after (blanks ++ cs)).isClosed := by
            rw [ScanState.after, List.foldl_cons, hnext]
            rfl
        _ = ((outside none).after (blanks ++ cs)).isClosed :=
            isClosed_after_outside (by simpa using hplain.2.1) (by simpa using hplain.2.2.1) _
        _ = ((outside none).after cs).isClosed := ih h

theorem isClosed_trim (h : ((outside none).after cs).isClosed = true) :
    ((outside none).after (Text.trim cs)).isClosed = true := by
  obtain ⟨lead, trail, hcs, hlead, htrail⟩ := Text.exists_trim cs
  rw [hcs, isClosed_blanks_append hlead, ScanState.after, List.foldl_append] at h
  exact ((isProper_outside none).after (Text.trim cs)).isClosed_of_blanks htrail h

/-- A character at the end that is no semicolon belongs to the last piece. -/
theorem cutFrom_concat (s : ScanState) (a : List Char) (hc : c ≠ ';') :
    ∃ front last, cutFrom s a = front ++ [last] ∧ cutFrom s (a ++ [c]) = front ++ [last ++ [c]] := by
  induction a generalizing s with
  | nil => exact ⟨[], [], rfl, by rw [List.nil_append, cutFrom, if_neg fun h => hc h.2]; rfl⟩
  | cons d a ih =>
      obtain ⟨front, last, hcut, hconcat⟩ := ih (s.next d)
      rw [List.cons_append, cutFrom, cutFrom, hcut, hconcat]
      split
      · exact ⟨[] :: front, last, rfl, rfl⟩
      · cases front with
        | nil => exact ⟨[], d :: last, rfl, rfl⟩
        | cons piece front => exact ⟨(d :: piece) :: front, last, rfl, rfl⟩

end ScanState

open ScanState

/-! ## Texts that are parted by a line feed and a semicolon -/

theorem statementsOf_concat_lineFeed (a : List Char) :
    statementsOf (segments none (a ++ ['\n'])) = statementsOf (segments none a) := by
  obtain ⟨front, last, hcut, hconcat⟩ := cutFrom_concat (outside none) a (c := '\n') (by decide)
  have htrim : Text.trim (last ++ ['\n']) = Text.trim last :=
    Text.trim_append_of_blank (List.forall_mem_singleton.2 rfl) last
  rw [segments_eq_cutFrom, segments_eq_cutFrom, ofQuote, hcut, hconcat, statementsOf_append,
    statementsOf_append, statementsOf_congr htrim]

/-- A line feed and a semicolon part the statements where no quote and no block comment is open. -/
theorem split_separated {a : String} (h : (endOf a).isClosed = true) (b : String) :
    split (a ++ "\n;" ++ b) = split a ++ split b := by
  have houtside : ((outside none).after (a.toList ++ ['\n'])).isOutside = true := by
    rw [ScanState.after, List.foldl_append]
    exact isOutside_next_lineFeed h
  have htext : a ++ "\n;" ++ b = String.ofList ((a.toList ++ ['\n']) ++ ';' :: b.toList) := by
    rw [← String.toList_inj]
    simp
  have hsplit (text : String) : split text = statementsOf (segments none text.toList) := by
    rw [← split_ofList, String.ofList_toList]
  rw [htext, split_ofList, segments_append houtside, statementsOf_append, statementsOf_concat_lineFeed,
    ← hsplit, ← hsplit]

/-! ## The statements of a text -/

theorem split_of_mem_split {text piece : String} (h : piece ∈ split text) : split piece = [piece] := by
  obtain ⟨cs, hcs, rfl⟩ := List.mem_map.1 h
  obtain ⟨hmem, hblank⟩ := List.mem_filter.1 hcs
  have hcut := cut_cutFrom (outside none) text.toList
  have hwhole := (hcut.isWhole (by rwa [segments_eq_cutFrom] at hmem)).trim
  have hsegments : segments none (Text.trim cs) = [Text.trim cs] := by
    rw [segments_eq_cutFrom]
    exact hwhole
  have hstatement : isBlankPiece (Text.trim cs) = false := by
    rw [isBlankPiece_trim]
    simpa using hblank
  rw [split_ofList, hsegments, statementsOf_cons, hstatement, Text.trim_trim]
  rfl

theorem mem_of_mem_dropLast_statementsOf {pieces : List (List Char)} {text : String}
    (h : text ∈ (statementsOf pieces).dropLast) :
    ∃ piece ∈ pieces.dropLast, text = String.ofList (Text.trim piece) := by
  rcases pieces.eq_nil_or_concat' with rfl | ⟨front, last, rfl⟩
  · cases h
  have hmem : text ∈ statementsOf front := by
    have hnil : statementsOf [] = [] := rfl
    rw [statementsOf_append, statementsOf_cons, hnil, List.append_nil] at h
    split at h
    · rw [List.append_nil] at h
      exact List.dropLast_subset _ h
    · rwa [List.dropLast_concat] at h
  obtain ⟨piece, hpiece, rfl⟩ := List.mem_map.1 hmem
  rw [List.dropLast_concat]
  exact ⟨piece, (List.mem_filter.1 hpiece).1, rfl⟩

theorem isClosed_of_mem_dropLast_split {text piece : String} (h : piece ∈ (split text).dropLast) :
    (endOf piece).isClosed = true := by
  obtain ⟨cs, hcs, rfl⟩ := mem_of_mem_dropLast_statementsOf h
  rw [segments_eq_cutFrom] at hcs
  have houtside := (cut_cutFrom (outside none) text.toList).isOutside hcs
  rw [endOf, String.toList_ofList]
  exact isClosed_trim (isClosed_of_isOutside houtside)

theorem split_intercalate {texts : List String}
    (h : ∀ text ∈ texts.dropLast, (endOf text).isClosed = true) :
    split (String.intercalate "\n;" texts) = texts.flatMap split := by
  induction texts with
  | nil => decide +kernel
  | cons text texts ih =>
      cases texts with
      | nil => rw [String.intercalate_singleton, List.flatMap_singleton]
      | cons second texts =>
          rw [List.dropLast_cons_cons] at h
          obtain ⟨htext, h⟩ := List.forall_mem_cons.1 h
          rw [String.intercalate_cons_cons, split_separated htext, ih h]
          rfl

theorem split_intercalate_split (text : String) :
    split (String.intercalate "\n;" (split text)) = split text := by
  have hpieces : (split text).flatMap split = (split text).flatMap fun piece => [piece] :=
    List.flatMap_congr fun piece hpiece => split_of_mem_split hpiece
  rw [split_intercalate fun piece hpiece => isClosed_of_mem_dropLast_split hpiece, hpieces,
    List.flatMap_singleton']

end Sql

namespace Session

/-- Two texts that are joined by a line feed and a semicolon have the statements of the first and then those
of the second, and a session executes these and then those, if no quote and no block comment is open at the
end of the first. The statements of any text are single statements, and joined in this way they are
its statements. -/
theorem joined_statements :
    (∀ a b : String, (Sql.ScanState.endOf a).isClosed = true →
      Sql.split (a ++ "\n;" ++ b) = Sql.split a ++ Sql.split b ∧
      ∀ s : Session, execute (a ++ "\n;" ++ b) s =
        ((execute a s).1 ++ (execute b (execute a s).2).1, (execute b (execute a s).2).2)) ∧
    ∀ text : String, Sql.split (String.intercalate "\n;" (Sql.split text)) = Sql.split text ∧
      ∀ piece ∈ Sql.split text, Sql.split piece = [piece] := by
  refine ⟨fun a b h => ⟨Sql.split_separated h b, fun s => ?_⟩, fun text =>
    ⟨Sql.split_intercalate_split text, fun piece => Sql.split_of_mem_split⟩⟩
  rw [execute, Sql.split_separated h]
  exact executeEach_append (Sql.split a) (Sql.split b) s

/-- The line feed ends the line comment, so that the semicolon after it counts. -/
theorem joined_statements_comment :
    Sql.split ("SLEEP 1 -- a; b" ++ "\n;" ++ "SLEEP ';'; USE x") =
        ["SLEEP 1 -- a; b"] ++ ["SLEEP ';'", "USE x"] ∧
      ∀ piece ∈ ["SLEEP ';'", "USE x"], Sql.split piece = [piece] := by
  have ha : Sql.split "SLEEP 1 -- a; b" = ["SLEEP 1 -- a; b"] := by decide +kernel
  have hb : Sql.split "SLEEP ';'; USE x" = ["SLEEP ';'", "USE x"] := by decide +kernel
  obtain ⟨hjoined, hpieces⟩ := joined_statements
  have hsplit := (hjoined "SLEEP 1 -- a; b" "SLEEP ';'; USE x" (by decide)).1
  have hwhole := (hpieces "SLEEP ';'; USE x").2
  rw [ha, hb] at hsplit
  rw [hb] at hwhole
  exact ⟨hsplit, hwhole⟩

end Session
end RestSql
