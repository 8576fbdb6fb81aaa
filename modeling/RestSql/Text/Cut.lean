/-!
Cutting a text at separators and searching it. Main statement: `cut` gives back the pieces that were
joined with a separator (`cut_intercalate`).
-/

namespace RestSql.Text

/-- The pieces between the characters that satisfy `p`; one piece if there is none. -/
def cut (p : Char → Bool) : List Char → List (List Char)
  | [] => [[]]
  | c :: cs =>
    if p c then [] :: cut p cs
    else match cut p cs with
      | [] => [[c]]
      | piece :: pieces => (c :: piece) :: pieces

/-- The text before the first character that satisfies `p`, and the text after it. -/
def cutFirst (p : Char → Bool) : List Char → Option (List Char × List Char)
  | [] => none
  | c :: cs => if p c then some ([], cs) else (cutFirst p cs).map fun (a, b) => (c :: a, b)

/-- `s` cut at every `sep`. -/
def cutAt (sep : Char) (s : String) : List String :=
  (cut (· == sep) s.toList).map String.ofList

/-- What follows `start` if the text starts with it. -/
def after? : List Char → List Char → Option (List Char)
  | [], cs => some cs
  | _ :: _, [] => none
  | p :: ps, c :: cs => if p = c then after? ps cs else none

/-- What follows `start` in `s`, if `s` starts with it. -/
def rest? (start s : String) : Option String :=
  (after? start.toList s.toList).map String.ofList

/-- Some suffix of the text starts with `part`. -/
def holds (part : List Char) : List Char → Bool
  | [] => (after? part []).isSome
  | c :: cs => (after? part (c :: cs)).isSome || holds part cs

/-- The text before the first occurrence of `part`, and the text after it. -/
def cutAround (part : List Char) : List Char → Option (List Char × List Char)
  | [] => (after? part []).map fun rest => ([], rest)
  | c :: cs =>
    match after? part (c :: cs) with
    | some rest => some ([], rest)
    | none => (cutAround part cs).map fun (a, b) => (c :: a, b)

/-- Every occurrence of `old` from left to right replaced by `new`; `old` is not empty. -/
def replace (old new : List Char) (cs : List Char) : List Char :=
  match cs with
  | [] => []
  | c :: rest =>
    match after? old (c :: rest) with
    | some tail =>
      if tail.length < (c :: rest).length then new ++ replace old new tail
      else c :: replace old new rest
    | none => c :: replace old new rest
termination_by cs.length
decreasing_by all_goals simp only [List.length_cons] at *; omega

/-- The letters of `s` in upper case; only ASCII letters have one. -/
def upper (s : String) : String :=
  s.map Char.toUpper

/-- The letters of `s` in lower case; only ASCII letters have one. -/
def lower (s : String) : String :=
  s.map Char.toLower

theorem cut_ne_nil (p : Char → Bool) (cs : List Char) : cut p cs ≠ [] := by
  cases cs with
  | nil => simp [cut]
  | cons c cs =>
    unfold cut
    split
    · simp
    · split <;> simp

theorem cutAt_ne_nil (sep : Char) (s : String) : cutAt sep s ≠ [] := by
  rw [cutAt, ne_eq, List.map_eq_nil_iff]
  exact cut_ne_nil _ _

section

variable {p : Char → Bool}

theorem cut_of_forall_not {cs : List Char} (h : ∀ c ∈ cs, p c = false) : cut p cs = [cs] := by
  induction cs with
  | nil => rfl
  | cons c cs ih =>
    rw [List.forall_mem_cons] at h
    rw [cut, if_neg (by simp [h.1]), ih h.2]

/-- The pieces hold what the text holds, without the separators. -/
theorem mem_of_mem_cut {cs piece : List Char} (h : piece ∈ cut p cs) {x : Char} (hx : x ∈ piece) :
    x ∈ cs ∧ p x = false := by
  induction cs generalizing piece x with
  | nil =>
    rw [cut, List.mem_singleton] at h
    subst h
    cases hx
  | cons c cs ih =>
    rw [cut] at h
    split at h
    · rcases List.mem_cons.1 h with rfl | h
      · cases hx
      · exact (ih h hx).imp_left (List.mem_cons_of_mem c)
    · next hc =>
      split at h
      · next hnil => exact absurd hnil (cut_ne_nil p cs)
      · next first pieces hpieces =>
        rw [hpieces] at ih
        rcases List.mem_cons.1 h with rfl | h
        · rcases List.mem_cons.1 hx with rfl | hx
          · exact ⟨List.mem_cons_self, Bool.eq_false_iff.2 hc⟩
          · exact (ih List.mem_cons_self hx).imp_left (List.mem_cons_of_mem c)
        · exact (ih (List.mem_cons_of_mem first h) hx).imp_left (List.mem_cons_of_mem c)

theorem cut_append_cons {a : List Char} (h : ∀ x ∈ a, p x = false) {c : Char} (hc : p c = true)
    (b : List Char) : cut p (a ++ c :: b) = a :: cut p b := by
  induction a with
  | nil => rw [List.nil_append, cut, if_pos hc]
  | cons x a ih =>
    rw [List.forall_mem_cons] at h
    rw [List.cons_append, cut, if_neg (by simp [h.1]), ih h.2]

theorem cut_intercalate {c : Char} (hc : p c = true) {pieces : List (List Char)} (hne : pieces ≠ [])
    (h : ∀ piece ∈ pieces, ∀ x ∈ piece, p x = false) :
    cut p (List.intercalate [c] pieces) = pieces := by
  induction pieces with
  | nil => exact absurd rfl hne
  | cons a pieces ih =>
    rw [List.forall_mem_cons] at h
    cases pieces with
    | nil => rw [List.intercalate_singleton, cut_of_forall_not h.1]
    | cons b pieces =>
      rw [List.intercalate_cons_cons, List.append_assoc, List.singleton_append,
        cut_append_cons h.1 hc, ih (List.cons_ne_nil b pieces) h.2]

theorem intercalate_cut (c : Char) (cs : List Char) :
    List.intercalate [c] (cut (· == c) cs) = cs := by
  induction cs with
  | nil => rfl
  | cons d cs ih =>
    unfold cut
    split
    · next h =>
      rw [List.intercalate_cons_of_ne_nil (cut_ne_nil _ cs), ih, beq_iff_eq.1 h]
      rfl
    · split
      · next h => exact absurd h (cut_ne_nil _ cs)
      · next piece pieces h =>
        rw [h] at ih
        cases pieces with
        | nil =>
          rw [List.intercalate_singleton] at ih ⊢
          rw [ih]
        | cons b pieces =>
          rw [List.intercalate_cons_cons] at ih ⊢
          rw [List.cons_append, List.cons_append, ih]

theorem intercalate_cutAt (c : Char) (s : String) :
    List.intercalate [c] ((cutAt c s).map String.toList) = s.toList := by
  have hpieces : (cutAt c s).map String.toList = cut (· == c) s.toList := by
    rw [cutAt, List.map_map]
    exact List.map_id'' (fun _ => String.toList_ofList) _
  rw [hpieces, intercalate_cut]

theorem cutAt_of_not_mem {c : Char} {s : String} (h : c ∉ s.toList) : cutAt c s = [s] := by
  have hcut : cut (· == c) s.toList = [s.toList] :=
    cut_of_forall_not fun d hd => beq_eq_false_iff_ne.2 (ne_of_mem_of_not_mem hd h)
  rw [cutAt, hcut, List.map_singleton, String.ofList_toList]

/-- The first piece is the whole text exactly if there is no other. -/
theorem cutAt_head_eq_iff {c : Char} {s piece : String} {pieces : List String}
    (h : cutAt c s = piece :: pieces) : piece = s ↔ pieces = [] := by
  obtain ⟨cs, rest, hcut, rfl, rfl⟩ := List.map_eq_cons_iff.1 h
  have hs := intercalate_cut c s.toList
  rw [hcut] at hs
  cases rest with
  | nil =>
    rw [List.intercalate_singleton] at hs
    exact iff_of_true (by rw [hs, String.ofList_toList]) rfl
  | cons b rest =>
    refine iff_of_false (fun he => ?_) (by simp)
    rw [List.intercalate_cons_cons, ← he, String.toList_ofList] at hs
    have hlength := congrArg List.length hs
    simp at hlength

theorem intercalate_append_cons (c : Char) (a b : List Char) (pieces : List (List Char)) :
    List.intercalate [c] ((a ++ c :: b) :: pieces) = a ++ c :: List.intercalate [c] (b :: pieces) := by
  cases pieces with
  | nil => simp
  | cons d pieces => simp [List.intercalate_cons_cons]

theorem intercalate_append (c : Char) (front : List (List Char)) {pieces : List (List Char)}
    (hne : pieces ≠ []) :
    List.intercalate [c] (front ++ pieces) =
      front.flatMap (· ++ [c]) ++ List.intercalate [c] pieces := by
  induction front with
  | nil => rfl
  | cons a front ih =>
    rw [List.cons_append, List.intercalate_cons_of_ne_nil (by simp [hne]), ih, List.flatMap_cons,
      List.append_assoc (a ++ [c])]

theorem eq_or_mem_of_mem_intersperse {α : Type} {sep x : α} {l : List α}
    (h : x ∈ l.intersperse sep) : x = sep ∨ x ∈ l := by
  induction l with
  | nil => cases h
  | cons a l ih =>
    cases l with
    | nil => exact .inr h
    | cons b l =>
      rw [List.intersperse_cons_cons, List.mem_cons, List.mem_cons] at h
      rcases h with rfl | rfl | h
      · exact .inr List.mem_cons_self
      · exact .inl rfl
      · exact (ih h).imp_right (List.mem_cons_of_mem a)

theorem eq_or_mem_of_mem_intercalate {c x : Char} {pieces : List (List Char)}
    (h : x ∈ List.intercalate [c] pieces) : x = c ∨ ∃ piece ∈ pieces, x ∈ piece := by
  obtain ⟨piece, hpiece, hx⟩ := List.mem_flatten.1 h
  rcases eq_or_mem_of_mem_intersperse hpiece with rfl | hpiece
  · exact .inl (List.mem_singleton.1 hx)
  · exact .inr ⟨piece, hpiece, hx⟩

theorem flatMap_intersperse {α β : Type} (f : α → List β) (sep : α) (l : List α) :
    (l.intersperse sep).flatMap f = List.intercalate (f sep) (l.map f) := by
  induction l with
  | nil => rfl
  | cons a l ih =>
    cases l with
    | nil => simp
    | cons b l =>
      rw [List.intersperse_cons_cons, List.flatMap_cons, List.flatMap_cons, ih]
      simp [List.intercalate_cons_cons]

theorem intercalate_cons {α : Type} (sep x : List α) (xs : List (List α)) :
    List.intercalate sep (x :: xs) = x ++ xs.flatMap (sep ++ ·) := by
  induction xs generalizing x with
  | nil => simp
  | cons y ys ih =>
    rw [List.intercalate_cons_cons, ih, List.flatMap_cons, List.append_assoc, List.append_assoc]

theorem flatMap_cons_eq_cons_intercalate (c : Char) {pieces : List (List Char)} (hne : pieces ≠ []) :
    pieces.flatMap (c :: ·) = c :: List.intercalate [c] pieces := by
  obtain ⟨a, pieces, rfl⟩ := List.exists_cons_of_ne_nil hne
  rw [intercalate_cons, List.flatMap_cons]
  rfl

theorem length_le_intercalate {α : Type} {x : List α} {pieces : List (List α)} (h : x ∈ pieces)
    (sep : List α) : x.length ≤ (List.intercalate sep pieces).length := by
  induction pieces with
  | nil => cases h
  | cons y ys ih =>
    rcases List.mem_cons.1 h with rfl | h
    · rw [intercalate_cons, List.length_append]
      exact Nat.le_add_right _ _
    · obtain ⟨z, zs, rfl⟩ := List.exists_cons_of_ne_nil (List.ne_nil_of_mem h)
      rw [List.intercalate_cons_cons, List.length_append, List.length_append]
      have hle := ih h
      omega

/-- A joined text after a separator ends like its last piece, or with a separator. -/
theorem getLast?_intercalate (c : Char) (pieces : List (List Char)) :
    (c :: List.intercalate [c] pieces).getLast? =
      some (((pieces.getLast?.getD []).getLast?).getD c) := by
  induction pieces with
  | nil => rfl
  | cons a pieces ih =>
    cases pieces with
    | nil => rw [List.intercalate_singleton, List.getLast?_cons]; rfl
    | cons b pieces =>
      have hsplit : c :: List.intercalate [c] (a :: b :: pieces) =
          (c :: a) ++ c :: List.intercalate [c] (b :: pieces) := by
        rw [List.intercalate_cons_cons, List.append_assoc]
        rfl
      rw [hsplit, List.getLast?_append, ih, List.getLast?_cons_cons]
      rfl

theorem cutFirst_of_forall_not {cs : List Char} (h : ∀ c ∈ cs, p c = false) :
    cutFirst p cs = none := by
  induction cs with
  | nil => rfl
  | cons c cs ih =>
    rw [List.forall_mem_cons] at h
    rw [cutFirst, if_neg (by simp [h.1]), ih h.2]
    rfl

theorem cutFirst_append_cons {a : List Char} (h : ∀ x ∈ a, p x = false) {c : Char} (hc : p c = true)
    (b : List Char) : cutFirst p (a ++ c :: b) = some (a, b) := by
  induction a with
  | nil => rw [List.nil_append, cutFirst, if_pos hc]
  | cons x a ih =>
    rw [List.forall_mem_cons] at h
    rw [List.cons_append, cutFirst, if_neg (by simp [h.1]), ih h.2]
    rfl

end

theorem replace_singleton (c : Char) (new cs : List Char) :
    replace [c] new cs = cs.flatMap fun d => if c = d then new else [d] := by
  induction cs with
  | nil => rw [replace, List.flatMap_nil]
  | cons d cs ih =>
    rw [replace, List.flatMap_cons, after?]
    by_cases h : c = d
    · rw [if_pos h, if_pos h, after?]
      dsimp only
      rw [if_pos (by simp), ih]
    · rw [if_neg h, if_neg h]
      dsimp only
      rw [ih, List.singleton_append]

theorem after?_append (ps cs : List Char) : after? ps (ps ++ cs) = some cs := by
  induction ps with
  | nil => rfl
  | cons p ps ih => simpa [after?] using ih

theorem eq_append_of_after? {ps cs rest : List Char} (h : after? ps cs = some rest) :
    cs = ps ++ rest := by
  induction ps generalizing cs with
  | nil => simpa [after?] using h
  | cons p ps ih =>
    cases cs with
    | nil => simp [after?] at h
    | cons c cs =>
      simp only [after?] at h
      split at h
      next hpc => subst hpc; simp [ih h]
      next => simp at h

theorem eq_append_of_rest? {start s rest : String} (h : rest? start s = some rest) :
    s = start ++ rest := by
  obtain ⟨cs, hcs, rfl⟩ := Option.map_eq_some_iff.1 h
  rw [← String.toList_inj, String.toList_append, String.toList_ofList, eq_append_of_after? hcs]

theorem rest?_append (start s : String) : rest? start (start ++ s) = some s := by
  rw [rest?, String.toList_append, after?_append, Option.map_some, String.ofList_toList]

end RestSql.Text
