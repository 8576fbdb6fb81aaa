import RestSql.PathTemplate

/-!
# Expanding a path template

A template is read as literal texts with placeholders between them, and its expansion fills them all at
once (`expandFrom_flatMap`): no inserted value is read again.
-/

namespace RestSql.PathTemplate

/-- A piece of a template. -/
inductive Piece
  | literal (text : String)
  | hole (token : String)
  deriving DecidableEq, Repr

namespace Piece

def text : Piece → String
  | literal text => text
  | hole token => "\x7b" ++ token ++ "\x7d"

/-- The piece is read off a template as one. -/
def IsRead : Piece → Prop
  | literal text => '\x7b' ∉ text.toList
  | hole token => '\x7d' ∉ token.toList

def placeholder (token : String) : Placeholder :=
  .ofToken token.toList

/-- What stands for the piece in the expansion. -/
def filled (values : Fields) : Piece → List Char
  | literal text => text.toList
  | hole token =>
    ((Dict.find? values (placeholder token).name).map (placeholder token).fill).getD []

/-- There is a value for the piece, if it needs one. -/
def HasValue (values : Fields) : Piece → Prop
  | literal _ => True
  | hole token => (Dict.find? values (placeholder token).name).isSome

def isHole : Piece → Bool
  | literal _ => false
  | hole _ => true

end Piece

theorem start_plain {cs : List Char} (h : '\x7b' ∉ cs) : start cs = .plain := by
  rw [start, Text.cutFirst_of_forall_not fun c hc => beq_eq_false_iff_ne.2 (ne_of_mem_of_not_mem hc h)]

theorem start_placeholder {before token : List Char} (hbefore : '\x7b' ∉ before)
    (htoken : '\x7d' ∉ token) (after : List Char) :
    start (before ++ '\x7b' :: (token ++ '\x7d' :: after)) = .placeholder before token after := by
  have cut {c : Char} {cs : List Char} (h : c ∉ cs) (rest : List Char) :
      Text.cutFirst (· == c) (cs ++ c :: rest) = some (cs, rest) :=
    Text.cutFirst_append_cons (fun x hx => beq_eq_false_iff_ne.2 (ne_of_mem_of_not_mem hx h))
      (beq_self_eq_true c) rest
  rw [start, cut hbefore]
  dsimp only
  rw [cut htoken]

variable {template : String} {values : Fields}

theorem expandFrom_plain {cs : List Char} (h : '\x7b' ∉ cs) (fuel : Nat) :
    expandFrom template values fuel cs = .ok cs := by
  cases fuel with
  | zero => rfl
  | succ fuel => rw [expandFrom, start_plain h]

theorem expandFrom_flatMap {pieces : List Piece} (hread : ∀ piece ∈ pieces, piece.IsRead)
    (hvalue : ∀ piece ∈ pieces, piece.HasValue values) {before : List Char} (hbefore : '\x7b' ∉ before)
    {fuel : Nat} (hfuel : pieces.countP (·.isHole) ≤ fuel) :
    expandFrom template values fuel (before ++ pieces.flatMap (·.text.toList)) =
      .ok (before ++ pieces.flatMap (·.filled values)) := by
  -- literals are collected in `before` until a placeholder follows
  induction pieces generalizing before fuel with
  | nil =>
    rw [List.flatMap_nil, List.flatMap_nil, List.append_nil]
    exact expandFrom_plain hbefore fuel
  | cons piece pieces ih =>
    rw [List.forall_mem_cons] at hread hvalue
    rw [List.flatMap_cons, List.flatMap_cons]
    cases piece with
    | literal text =>
      have hbefore' : '\x7b' ∉ before ++ text.toList := by
        rw [List.mem_append, not_or]
        exact ⟨hbefore, hread.1⟩
      have hfuel' : pieces.countP (·.isHole) ≤ fuel := by simpa [Piece.isHole] using hfuel
      have hrest := ih hread.2 hvalue.2 hbefore' hfuel'
      rwa [List.append_assoc, List.append_assoc] at hrest
    | hole token =>
      obtain ⟨v, hv⟩ := Option.isSome_iff_exists.1 hvalue.1
      obtain _ | fuel := fuel
      · simp [Piece.isHole] at hfuel
      have htext : (Piece.hole token).text.toList ++ pieces.flatMap (·.text.toList) =
          '\x7b' :: (token.toList ++ '\x7d' :: pieces.flatMap (·.text.toList)) := by
        simp [Piece.text]
      have hfuel' : pieces.countP (·.isHole) ≤ fuel := by simpa [Piece.isHole] using hfuel
      have hrest := ih hread.2 hvalue.2 (List.not_mem_nil (a := '\x7b')) hfuel'
      rw [List.nil_append, List.nil_append] at hrest
      rw [htext, expandFrom, start_placeholder hbefore hread.1]
      dsimp only
      rw [← Piece.placeholder, hv]
      dsimp only
      rw [hrest, Piece.filled, hv, ← List.append_assoc]
      rfl

theorem countP_isHole_le (pieces : List Piece) :
    pieces.countP (·.isHole) ≤ (pieces.flatMap (·.text.toList)).length := by
  induction pieces with
  | nil => exact Nat.le_refl 0
  | cons piece pieces ih =>
    have hpiece : (if piece.isHole then 1 else 0) ≤ piece.text.toList.length := by
      cases piece with
      | literal text => exact Nat.zero_le _
      | hole token => simp [Piece.isHole, Piece.text]
    rw [List.countP_cons, List.flatMap_cons, List.length_append]
    omega

theorem expand_flatMap {pieces : List Piece} (hread : ∀ piece ∈ pieces, piece.IsRead)
    (hvalue : ∀ piece ∈ pieces, piece.HasValue values)
    (htemplate : template.toList = pieces.flatMap (·.text.toList)) :
    expand template values = .ok (String.ofList (pieces.flatMap (·.filled values))) := by
  have hfuel : pieces.countP (·.isHole) ≤ template.toList.length + 1 := by
    have := countP_isHole_le pieces
    rw [← htemplate] at this
    omega
  have hfrom := @expandFrom_flatMap template values _ hread hvalue _ (List.not_mem_nil (a := '\x7b'))
    _ hfuel
  rw [List.nil_append, List.nil_append, ← htemplate] at hfrom
  rw [expand, hfrom]
  rfl

/-- The expansion of a template that is a list of segments has these segments, filled. -/
theorem expand_intercalate {parts : List Piece} (hread : ∀ part ∈ parts, part.IsRead)
    (hvalue : ∀ part ∈ parts, part.HasValue values)
    (htemplate : template = String.intercalate "/" (parts.map (·.text))) :
    expand template values =
      .ok (String.ofList (List.intercalate ['/'] (parts.map (·.filled values)))) := by
  have hseparator {P : Piece → Prop} (h : P (.literal "/")) (hparts : ∀ part ∈ parts, P part) :
      ∀ piece ∈ parts.intersperse (.literal "/"), P piece := by
    intro piece hpiece
    rcases Text.eq_or_mem_of_mem_intersperse hpiece with rfl | hpiece
    · exact h
    · exact hparts piece hpiece
  have htext : template.toList = (parts.intersperse (.literal "/")).flatMap (·.text.toList) := by
    rw [htemplate, String.toList_intercalate, Text.flatMap_intersperse, List.map_map]
    rfl
  have hslash : (Piece.literal "/").IsRead := by simp [Piece.IsRead]
  rw [expand_flatMap (hseparator hslash hread) (hseparator trivial hvalue) htext,
    Text.flatMap_intersperse]
  rfl

end RestSql.PathTemplate
