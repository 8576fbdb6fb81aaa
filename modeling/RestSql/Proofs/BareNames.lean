import RestSql.Proofs.Literals

/-!
# Names without quotes

A bare name is read back from its characters (`anyName_append`), and so are the parts of a table name with
dots between them (`Name.read_bare`) and the columns on the lines of a list (`nameList_lines`). The readers
of lists are treated once: what is written with a separator between the items is read item by item
(`sepBy_intercalate`).
-/

namespace RestSql

/-! ## Lists with separators -/

namespace Reader

variable {ι α β : Type} {sep : Reader β} {p : Reader α} {c : Char} {mark lead rest : List Char}
  {write : ι → List Char} {value : ι → α}

/-- A first item, and others each after a mark, are read item by item. -/
theorem sepBy_items (Ends : List Char → Prop) (hsep : ∀ cs, ∃ b, sep (mark ++ cs) = some (b, lead ++ cs))
    (hne : mark ≠ []) (hends : ∀ cs, Ends (mark ++ cs)) {i : ι} {items : List ι}
    (hfirst : ∀ cs, Ends cs → p (write i ++ cs) = some (value i, cs))
    (hitem : ∀ i ∈ items, ∀ cs, Ends cs → p (lead ++ (write i ++ cs)) = some (value i, cs))
    (hrest : Ends rest) (hstop : sep rest = none) :
    sepBy sep p (write i ++ (items.flatMap (fun i => mark ++ write i) ++ rest)) =
      some (value i :: items.map value, rest) := by
  rw [sepBy, hfirst _ (ends_items hends write items hrest)]
  dsimp only
  rw [many_items hsep hne hends hitem hrest hstop]

/-- What is written with a separator between the items is read item by item. -/
theorem sepBy_intercalate (Ends : List Char → Prop) (hsep : ∀ cs, ∃ b, sep (c :: cs) = some (b, cs))
    (hends : ∀ cs, Ends (c :: cs)) {items : List ι} (hne : items ≠ [])
    (hitem : ∀ i ∈ items, ∀ cs, Ends cs → p (write i ++ cs) = some (value i, cs)) {rest : List Char}
    (hrest : Ends rest) (hstop : sep rest = none) :
    sepBy sep p (List.intercalate [c] (items.map write) ++ rest) = some (items.map value, rest) := by
  obtain ⟨i, items, rfl⟩ := List.exists_cons_of_ne_nil hne
  obtain ⟨hi, hitems⟩ := List.forall_mem_cons.1 hitem
  rw [List.map_cons, Text.intercalate_cons, List.flatMap_map, List.append_assoc]
  exact @sepBy_items _ _ _ _ _ [c] [] _ _ _ Ends hsep (List.cons_ne_nil c []) hends _ _ hi hitems hrest hstop

end Reader

namespace Sql

/-! ## One name -/

/-- A name that needs no quotes. -/
def isBareName (s : String) : Bool :=
  match s.toList with
  | c :: cs => isNameStart c && cs.all isNameChar
  | [] => false

theorem exists_of_isBareName {s : String} (h : isBareName s = true) :
    ∃ c cs, s.toList = c :: cs ∧ isNameStart c = true ∧ ∀ d ∈ cs, isNameChar d = true := by
  unfold isBareName at h
  split at h
  · next c cs hs =>
    rw [Bool.and_eq_true, List.all_eq_true] at h
    exact ⟨c, cs, hs, h⟩
  · cases h

theorem isBareName_ne {s : String} (h : isBareName s = true) : s ≠ "" := by
  rintro rfl
  cases h

theorem isNameChar_of_isNameStart {c : Char} (h : isNameStart c = true) : isNameChar c = true := by
  simp only [isNameStart, isNameChar, Bool.or_eq_true] at h ⊢
  exact .inl (h.imp_left Text.isLetterOrDigit_of_isLetter)

theorem isNameChar_of_mem {s : String} (h : isBareName s = true) {c : Char} (hc : c ∈ s.toList) :
    isNameChar c = true := by
  obtain ⟨d, ds, hs, hd, hds⟩ := exists_of_isBareName h
  rw [hs] at hc
  rcases List.mem_cons.1 hc with rfl | hc
  · exact isNameChar_of_isNameStart hd
  · exact hds c hc

theorem isSpace_of_isNameChar {c : Char} (h : isNameChar c = true) : isSpace c = false := by
  rw [Bool.eq_false_iff]
  intro hspace
  simp only [isSpace, Bool.or_eq_true, decide_eq_true_eq] at hspace
  rcases hspace with ((rfl | rfl) | rfl) | rfl <;> revert h <;> decide

variable {rest : List Char} {s : String}

theorem bareName_append (h : isBareName s = true) (hrest : atWordEnd rest = true) :
    bareName (s.toList ++ rest) = some (s, rest) := by
  obtain ⟨c, cs, hs, hc, hcs⟩ := exists_of_isBareName h
  have hend : rest.takeWhile isNameChar = [] ∧ rest.dropWhile isNameChar = rest := by
    cases rest with
    | nil => exact ⟨rfl, rfl⟩
    | cons d rest =>
        have hd : isNameChar d = false := by simpa [atWordEnd] using hrest
        simp [hd]
  rw [hs, List.cons_append, bareName, if_pos hc, List.takeWhile_append_of_pos hcs,
    List.dropWhile_append_of_pos hcs, hend.1, hend.2, List.append_nil, ← hs, String.ofList_toList]

theorem anyName_append (h : isBareName s = true) (hrest : atWordEnd rest = true) :
    anyName (s.toList ++ rest) = some (s, rest) := by
  have hbare := bareName_append h hrest
  obtain ⟨c, cs, hs, hc, -⟩ := exists_of_isBareName h
  have hquote : c ≠ '\x60' := by
    rintro rfl
    revert hc
    decide
  rw [hs, List.cons_append] at hbare ⊢
  rw [anyName, Json.skipSpace_of_not_isSpace (isSpace_of_isNameChar (isNameChar_of_isNameStart hc)),
    Reader.orElse, quotedName, if_neg hquote]
  exact hbare

theorem anyName_space {space : List Char} (h : space.all isSpace = true) (cs : List Char) :
    anyName (space ++ cs) = anyName cs := by
  rw [anyName, anyName, skipSpace_append h]

/-! ## Table names -/

theorem Name.last_mem {n : Name} (h : n.parts ≠ []) : n.last ∈ n.parts := by
  have hlast : n.last = n.parts.getLast h := by
    rw [last, fromRight, ← List.head?_eq_getElem?, List.head?_reverse, List.getLast?_eq_some_getLast h]
    rfl
  rw [hlast]
  exact List.getLast_mem h

theorem Name.read_space {space : List Char} (h : space.all isSpace = true) (cs : List Char) :
    Name.read (space ++ cs) = Name.read cs := by
  rw [Name.read, Name.read, Reader.sepBy, Reader.sepBy, anyName_space h]

/-- A table name with too many parts is none. -/
theorem Name.read_bare {parts : List String} (hne : parts ≠ [])
    (h : ∀ s ∈ parts, isBareName s = true) (hrest : atWordEnd rest = true)
    (hdot : Reader.symbol '.' rest = none) :
    Name.read (List.intercalate ['.'] (parts.map String.toList) ++ rest) =
      if parts.length ≤ maxParts then some (⟨parts⟩, rest) else none := by
  have hparts : Reader.sepBy (Reader.symbol '.') anyName
      (List.intercalate ['.'] (parts.map String.toList) ++ rest) = some (parts.map id, rest) :=
    Reader.sepBy_intercalate (atWordEnd · = true) (fun _ => ⟨'.', rfl⟩) (fun _ => rfl) hne
      (fun s hs _ => anyName_append (h s hs)) hrest hdot
  rw [Name.read, hparts, List.map_id]

/-! ## Lists of columns -/

/-- Texts on lines of their own, with a margin and with commas between them. -/
def lines (texts : List String) : List Char :=
  List.intercalate [','] (texts.map fun s => "\n  ".toList ++ s.toList)

theorem nameList_lines {columns : List String} (hne : columns ≠ [])
    (h : ∀ s ∈ columns, isBareName s = true) (rest : List Char) :
    nameList ('(' :: (lines columns ++ '\n' :: ')' :: rest)) = some (columns, rest) := by
  have hspace : "\n  ".toList.all isSpace = true := by decide
  have hnames : Reader.sepBy comma anyName (lines columns ++ '\n' :: ')' :: rest) =
      some (columns.map id, '\n' :: ')' :: rest) := by
    refine Reader.sepBy_intercalate (atWordEnd · = true) (fun _ => ⟨(), rfl⟩) (fun _ => rfl)
      hne (fun s hs cs hcs => ?_) rfl rfl
    rw [List.append_assoc, anyName_space hspace]
    exact anyName_append (h s hs) hcs
  have hopens : Reader.symbol '(' ('(' :: (lines columns ++ '\n' :: ')' :: rest)) =
      some ('(', lines columns ++ '\n' :: ')' :: rest) := rfl
  have hcloses : Reader.symbol ')' ('\n' :: ')' :: rest) = some (')', rest) := rfl
  rw [nameList, Reader.after, hopens]
  simp only [Reader.before, hnames, hcloses, Option.map_some, List.map_id]

end Sql
end RestSql
