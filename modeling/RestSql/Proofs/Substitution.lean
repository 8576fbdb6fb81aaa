import Mathlib.Data.List.Basic
import RestSql.Proofs.Templates

/-!
# Expansion is substitution

A template is read as literal texts and tokens in braces. Its expansion puts the text of a value in place of
each token, whatever the other tokens and values are, or fails with the first token that has no value; a brace
that is not closed makes it fail too (`expand_substitutes`).
-/

namespace RestSql

namespace Text

variable {p : Char → Bool}

theorem cutFirst_append_of_forall_not {a : List Char} (h : ∀ x ∈ a, p x = false) (b : List Char) :
    cutFirst p (a ++ b) = (cutFirst p b).map fun (before, after) => (a ++ before, after) := by
  induction a with
  | nil => simp
  | cons x a ih =>
    rw [List.forall_mem_cons] at h
    rw [List.cons_append, cutFirst, if_neg (by simp [h.1]), ih h.2, Option.map_map]
    rfl

end Text

namespace PathTemplate

/-! ## What stands for a token -/

/-- The name of the value for a token: a plus sign at its front does not belong to it. -/
def tokenName (token : String) : String :=
  (Text.rest? "+" token).getD token

/-- The text of a value in place of a token: as it is after a plus sign, else with its slashes encoded. -/
def inserted (token : String) (v : Json) : List Char :=
  if (Text.rest? "+" token).isSome then v.urlText.toList
  else v.urlText.toList.flatMap fun c => if c = '/' then "%2F".toList else [c]

/-- What stands for a piece in the expansion, if there is a value for it. -/
def Piece.insertion? (values : Fields) : Piece → Option (List Char)
  | literal text => some text.toList
  | hole token => (Dict.find? values (tokenName token)).map (inserted token)

theorem ofToken_toList (token : String) :
    Placeholder.ofToken token.toList = ⟨tokenName token, (Text.rest? "+" token).isSome⟩ := by
  unfold Placeholder.ofToken
  split
  · next name hname =>
    have hrest : Text.rest? "+" token = some (String.ofList name) := by
      rw [Text.rest?, hname]
      rfl
    rw [tokenName, hrest]
    rfl
  · next hplus =>
    have hrest : Text.rest? "+" token = none := by
      cases h : Text.rest? "+" token with
      | none => rfl
      | some rest =>
        refine absurd ?_ (hplus rest.toList)
        rw [Text.eq_append_of_rest? h, String.toList_append]
        rfl
    rw [tokenName, hrest, String.ofList_toList]
    rfl

theorem fill_ofToken (token : String) (v : Json) :
    (Placeholder.ofToken token.toList).fill v = inserted token v := by
  rw [ofToken_toList, Placeholder.fill, inserted]
  dsimp only
  split
  · rfl
  · rw [Text.replace_singleton]
    exact List.flatMap_congr fun c _ => if_congr eq_comm rfl rfl

/-! ## One piece after the other -/

variable (template : String) {values : Fields}

theorem start_append {literal : List Char} (h : '\x7b' ∉ literal) (cs : List Char) :
    start (literal ++ cs) =
      match start cs with
      | .plain => .plain
      | .unterminated => .unterminated
      | .placeholder before token after => .placeholder (literal ++ before) token after := by
  have hliteral : ∀ c ∈ literal, (c == '\x7b') = false :=
    fun c hc => beq_eq_false_iff_ne.2 (ne_of_mem_of_not_mem hc h)
  rw [start, start, Text.cutFirst_append_of_forall_not hliteral]
  cases Text.cutFirst (· == '\x7b') cs with
  | none => rfl
  | some cut =>
    obtain ⟨before, rest⟩ := cut
    dsimp only [Option.map_some]
    cases Text.cutFirst (· == '\x7d') rest <;> rfl

theorem expandFrom_literal_append {literal : List Char} (h : '\x7b' ∉ literal) (fuel : Nat)
    (cs : List Char) :
    expandFrom template values fuel (literal ++ cs) =
      (expandFrom template values fuel cs).map (literal ++ ·) := by
  cases fuel with
  | zero => rfl
  | succ fuel =>
    rw [expandFrom, expandFrom, start_append h]
    cases start cs with
    | plain => rfl
    | unterminated => rfl
    | placeholder before token after =>
      dsimp only
      cases Dict.find? values (Placeholder.ofToken token).name with
      | none => rfl
      | some v =>
        dsimp only
        cases expandFrom template values fuel after with
        | error e => rfl
        | ok rest => simp [Except.map]

theorem expandFrom_hole {token : String} (h : '\x7d' ∉ token.toList) (fuel : Nat) (cs : List Char) :
    expandFrom template values (fuel + 1) ((Piece.hole token).text.toList ++ cs) =
      match Dict.find? values (tokenName token) with
      | none => .error (.missingPathParameter (tokenName token) template)
      | some v => (expandFrom template values fuel cs).map (inserted token v ++ ·) := by
  have htext : (Piece.hole token).text.toList ++ cs =
      [] ++ '\x7b' :: (token.toList ++ '\x7d' :: cs) := by
    simp [Piece.text]
  rw [htext, expandFrom, start_placeholder List.not_mem_nil h]
  dsimp only
  rw [ofToken_toList]
  dsimp only
  cases Dict.find? values (tokenName token) with
  | none => rfl
  | some v =>
    dsimp only
    rw [← ofToken_toList, fill_ofToken]
    rfl

theorem expandFrom_pieces {pieces : List Piece} (hread : ∀ piece ∈ pieces, piece.IsRead)
    (hvalue : ∀ piece ∈ pieces, (piece.insertion? values).isSome) (fuel : Nat) (cs : List Char) :
    expandFrom template values (pieces.countP (·.isHole) + fuel)
        (pieces.flatMap (·.text.toList) ++ cs) =
      (expandFrom template values fuel cs).map
        (pieces.flatMap (fun piece => (piece.insertion? values).getD []) ++ ·) := by
  induction pieces with
  | nil =>
    rw [List.countP_nil, Nat.zero_add, List.flatMap_nil, List.flatMap_nil, List.nil_append]
    cases expandFrom template values fuel cs <;> rfl
  | cons piece pieces ih =>
    rw [List.forall_mem_cons] at hread hvalue
    rw [List.flatMap_cons, List.flatMap_cons, List.append_assoc]
    have hrest := ih hread.2 hvalue.2
    cases piece with
    | literal text =>
      rw [List.countP_cons_of_neg (by simp [Piece.isHole])]
      refine (expandFrom_literal_append template hread.1 _ _).trans ?_
      rw [hrest]
      cases expandFrom template values fuel cs with
      | error e => rfl
      | ok rest => simp [Except.map, Piece.insertion?]
    | hole token =>
      obtain ⟨v, hv⟩ := Option.isSome_iff_exists.1 (Option.isSome_map.symm.trans hvalue.1)
      rw [List.countP_cons_of_pos rfl, Nat.add_right_comm, expandFrom_hole template hread.1, hv, hrest]
      cases expandFrom template values fuel cs with
      | error e => rfl
      | ok rest => simp [Except.map, Piece.insertion?, hv]

/-! ## Whole templates -/

/-- The template that is made of pieces. -/
def ofPieces (pieces : List Piece) : String :=
  String.join (pieces.map (·.text))

theorem toList_ofPieces (pieces : List Piece) :
    (ofPieces pieces).toList = pieces.flatMap (·.text.toList) := by
  rw [ofPieces, String.toList_join, List.flatMap_map]

/-- After the pieces that have values there are steps left for the rest of the template. -/
theorem exists_fuel (pieces rest : List Piece) :
    ∃ fuel, (ofPieces (pieces ++ rest)).toList.length + 1 =
      pieces.countP (·.isHole) + (fuel + 1) := by
  have hlength := countP_isHole_le (pieces ++ rest)
  rw [List.countP_append, ← toList_ofPieces] at hlength
  exact ⟨(ofPieces (pieces ++ rest)).toList.length - pieces.countP (·.isHole), by omega⟩

theorem expand_ofPieces {pieces : List Piece} (hread : ∀ piece ∈ pieces, piece.IsRead)
    (hvalue : ∀ piece ∈ pieces, (piece.insertion? values).isSome) :
    expand (ofPieces pieces) values =
      .ok (String.ofList (pieces.flatMap fun piece => (piece.insertion? values).getD [])) := by
  obtain ⟨fuel, hfuel⟩ := exists_fuel pieces []
  rw [List.append_nil] at hfuel
  have hall := expandFrom_pieces (ofPieces pieces) hread hvalue (fuel + 1) []
  rw [List.append_nil, expandFrom_plain List.not_mem_nil] at hall
  rw [expand, hfuel, toList_ofPieces, hall]
  simp [Except.map]

theorem expand_of_missing {before after : List Piece} {token : String}
    (hread : ∀ piece ∈ before ++ [.hole token], piece.IsRead)
    (hvalue : ∀ piece ∈ before, (piece.insertion? values).isSome)
    (hmissing : Dict.find? values (tokenName token) = none) :
    expand (ofPieces (before ++ .hole token :: after)) values =
      .error (.missingPathParameter (tokenName token) (ofPieces (before ++ .hole token :: after))) := by
  rw [List.forall_mem_append, List.forall_mem_singleton] at hread
  obtain ⟨fuel, hfuel⟩ := exists_fuel before (.hole token :: after)
  rw [expand, hfuel, toList_ofPieces, List.flatMap_append, expandFrom_pieces _ hread.1 hvalue,
    List.flatMap_cons, expandFrom_hole _ hread.2, hmissing]
  rfl

/-- A brace that is not closed is met, unless a token before it has no value. -/
theorem expandFrom_of_open_brace {before after : List Char} (hclose : '\x7d' ∉ after) {fuel : Nat}
    (hfuel : before.length < fuel) :
    ∃ e, expandFrom template values fuel (before ++ '\x7b' :: after) = .error e ∧
      (e = .openPlaceholder template ∨ ∃ name, e = .missingPathParameter name template) := by
  induction fuel generalizing before with
  | zero => exact absurd hfuel (Nat.not_lt_zero _)
  | succ fuel ih =>
    have hunterminated {front rest : List Char} (hfront : '\x7b' ∉ front) (hrest : '\x7d' ∉ rest) :
        start (front ++ '\x7b' :: rest) = .unterminated := by
      rw [start, Text.cutFirst_append_cons (fun c hc => beq_eq_false_iff_ne.2
        (ne_of_mem_of_not_mem hc hfront)) rfl]
      dsimp only
      rw [Text.cutFirst_of_forall_not fun c hc => beq_eq_false_iff_ne.2 (ne_of_mem_of_not_mem hc hrest)]
    rw [expandFrom]
    by_cases hbefore : '\x7b' ∈ before
    · obtain ⟨front, middle, rfl, hfront⟩ := List.eq_append_cons_of_mem hbefore
      rw [List.append_assoc, List.cons_append]
      by_cases hmiddle : '\x7d' ∈ middle
      · obtain ⟨token, rest, rfl, htoken⟩ := List.eq_append_cons_of_mem hmiddle
        rw [List.append_assoc, List.cons_append, start_placeholder hfront htoken]
        dsimp only
        cases Dict.find? values (Placeholder.ofToken token).name with
        | none => exact ⟨_, rfl, .inr ⟨_, rfl⟩⟩
        | some v =>
          have hrest : rest.length < fuel := by simp at hfuel; omega
          obtain ⟨e, he, hcause⟩ := ih hrest
          exact ⟨e, by rw [he]; rfl, hcause⟩
      · have hnone : '\x7d' ∉ middle ++ '\x7b' :: after := by simp [hmiddle, hclose]
        rw [hunterminated hfront hnone]
        exact ⟨_, rfl, .inl rfl⟩
    · rw [hunterminated hbefore hclose]
      exact ⟨_, rfl, .inl rfl⟩

/-- A template whose literals hold no opening brace, and whose tokens hold no closing one, expands to its
literals with the values in place of the tokens, or fails with the first token that has no value. A template
with an opening brace that is not closed after it fails. -/
theorem expand_substitutes (values : Fields) :
    (∀ pieces : List Piece, (∀ piece ∈ pieces, piece.IsRead) →
      (∀ piece ∈ pieces, (piece.insertion? values).isSome) →
      expand (ofPieces pieces) values =
        .ok (String.ofList (pieces.flatMap fun piece => (piece.insertion? values).getD []))) ∧
    (∀ (before : List Piece) (token : String) (after : List Piece),
      (∀ piece ∈ before ++ [.hole token], piece.IsRead) →
      (∀ piece ∈ before, (piece.insertion? values).isSome) →
      Dict.find? values (tokenName token) = none →
      expand (ofPieces (before ++ .hole token :: after)) values = .error
        (.missingPathParameter (tokenName token) (ofPieces (before ++ .hole token :: after)))) ∧
    ∀ before after : String, '\x7d' ∉ after.toList →
      ∃ e, expand (before ++ "\x7b" ++ after) values = .error e ∧
        (e = .openPlaceholder (before ++ "\x7b" ++ after) ∨
          ∃ name, e = .missingPathParameter name (before ++ "\x7b" ++ after)) := by
  refine ⟨fun pieces => expand_ofPieces, fun before token after => expand_of_missing,
    fun before after hclose => ?_⟩
  have htext : (before ++ "\x7b" ++ after).toList = before.toList ++ '\x7b' :: after.toList := by simp
  have hfuel : before.toList.length < (before ++ "\x7b" ++ after).toList.length + 1 := by
    rw [htext, List.length_append]
    omega
  obtain ⟨e, he, hcause⟩ := expandFrom_of_open_brace (before ++ "\x7b" ++ after) hclose hfuel
  refine ⟨e, ?_, hcause⟩
  rw [← htext] at he
  rw [expand, he]
  rfl

theorem expand_substitutes_braces :
    let values : Fields := [("a", .string "x/\x7bb\x7d"), ("b", .string "y/z")]
    expand "v1/\x7ba\x7d/\x7b+b\x7d" values = .ok "v1/x%2F\x7bb\x7d/y/z" ∧
      expand "v1/\x7ba\x7d/\x7bc\x7d\x7bd\x7d" values =
        .error (.missingPathParameter "c" "v1/\x7ba\x7d/\x7bc\x7d\x7bd\x7d") ∧
      ∃ e, expand "v1/\x7ba" values = .error e := by
  intro values
  obtain ⟨hfilled, hmissing, hopen⟩ := expand_substitutes values
  have hfilled := hfilled [.literal "v1/", .hole "a", .literal "/", .hole "+b"]
    (by simp [Piece.IsRead]) (List.all_eq_true.1 (by decide +kernel))
  have hmissing := hmissing [.literal "v1/", .hole "a", .literal "/"] "c" [.hole "d"]
    (by simp [Piece.IsRead]) (List.all_eq_true.1 (by decide +kernel)) rfl
  obtain ⟨e, he, -⟩ := hopen "v1/" "a" (by simp)
  exact ⟨hfilled, hmissing, e, he⟩

end PathTemplate
end RestSql
