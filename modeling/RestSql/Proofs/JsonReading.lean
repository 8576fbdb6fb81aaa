import RestSql.Json.Writer
import RestSql.Proofs.JsonValues

/-!
# JSON that is written is read back

A well-formed value without fractional numbers that is nested as deep as the reader goes at most is read
back from the line that is written for it (`Json.ofText?_write`). Fractional numbers are left out: reading
rounds more than once, so one that is written with the shortest digits may come back as a neighbour.
-/

namespace RestSql.Json

/-! ## Integers -/

/-- The text is at its end, or it goes on with what may follow a value. -/
def Ends (rest : List Char) : Prop :=
  ∀ c ∈ rest.head?, c = ',' ∨ c = ']' ∨ c = '\x7d'

theorem ends_nil : Ends [] := nofun

theorem ends_cons {c : Char} (h : c = ',' ∨ c = ']' ∨ c = '\x7d') (rest : List Char) :
    Ends (c :: rest) := by
  intro d hd
  cases hd
  exact h

variable {rest : List Char} {n : Nat}

theorem Ends.head_not_digit (h : Ends rest) : (rest.head?.map Char.isDigit).getD false = false := by
  cases rest with
  | nil => rfl
  | cons c rest => rcases h c rfl with rfl | rfl | rfl <;> rfl

theorem exists_toDigits (n : Nat) :
    ∃ c ds, Nat.toDigits 10 n = c :: ds ∧ c.isDigit = true ∧ (0 < n → c ≠ '0') := by
  induction n using Nat.strongRecOn with
  | ind n ih =>
      by_cases hlt : n < 10
      · refine ⟨n.digitChar, [], Nat.toDigits_of_lt_base hlt, by simp [hlt], fun hn h => ?_⟩
        exact Nat.ne_of_gt hn (Nat.digitChar_eq_zero.1 h)
      · obtain ⟨c, ds, hds, hc, hzero⟩ := ih (n / 10) (by omega)
        refine ⟨c, ds ++ [(n % 10).digitChar], ?_, hc, fun _ => hzero (by omega)⟩
        rw [Nat.toDigits_of_base_le (by decide) (by omega), hds]
        rfl

theorem digits_append {ds : List Char} (hne : ds ≠ []) (hdigits : ∀ c ∈ ds, c.isDigit = true)
    (hrest : (rest.head?.map Char.isDigit).getD false = false) :
    Reader.digits (ds ++ rest) = some (ds, rest) := by
  have hend : rest.takeWhile Char.isDigit = [] ∧ rest.dropWhile Char.isDigit = rest := by
    cases rest with
    | nil => exact ⟨rfl, rfl⟩
    | cons c rest =>
        have hc : c.isDigit = false := hrest
        simp [hc]
  rw [Reader.digits, List.takeWhile_append_of_pos hdigits, List.dropWhile_append_of_pos hdigits, hend.1,
    hend.2, List.append_nil]
  split
  · exact absurd rfl hne
  · rfl

theorem digits_toDigits (h : (rest.head?.map Char.isDigit).getD false = false) :
    Reader.digits (Nat.toDigits 10 n ++ rest) = some (Nat.toDigits 10 n, rest) :=
  digits_append Nat.toDigits_ne_nil (fun _ => Text.isDigit_of_mem_toDigits) h

theorem whole?_toDigits (h : Ends rest) :
    whole? (Nat.toDigits 10 n ++ rest) = some (Nat.toDigits 10 n, rest) := by
  rcases Nat.eq_zero_or_pos n with rfl | hn
  · rw [Nat.toDigits_zero, List.singleton_append, whole?, h.head_not_digit]
    rfl
  · obtain ⟨c, ds, hds, -, hzero⟩ := exists_toDigits n
    have hread := digits_toDigits (n := n) h.head_not_digit
    rw [hds, List.cons_append] at hread ⊢
    unfold whole?
    split
    · next cs hcs => exact absurd (List.cons.inj hcs).1 (hzero hn)
    · exact hread

theorem fraction?_of_ends (h : Ends rest) : fraction? rest = some ([], rest) := by
  cases rest with
  | nil => rfl
  | cons c rest => rcases h c rfl with rfl | rfl | rfl <;> rfl

theorem exponent?_of_ends (h : Ends rest) : exponent? rest = some (none, rest) := by
  cases rest with
  | nil => rfl
  | cons c rest => rcases h c rfl with rfl | rfl | rfl <;> rfl

/-- An integer as it is written. -/
def Numeral.ofInt (n : Int) : Numeral :=
  { negative := n < 0, whole := Nat.toDigits 10 n.natAbs, fraction := [], exponent := none }

theorem numeral?_ofInt (h : Ends rest) (n : Int) :
    numeral? ((Text.ofInt n).toList ++ rest) = some (.ofInt n, rest) := by
  have hwhole := whole?_toDigits (n := n.natAbs) h
  by_cases hn : n < 0
  · rw [Text.toList_ofInt_of_neg hn, List.cons_append, numeral?]
    simp [hwhole, fraction?_of_ends h, exponent?_of_ends h, Numeral.ofInt, hn]
  · obtain ⟨c, ds, hds, hc, -⟩ := exists_toDigits n.natAbs
    have hsign : c ≠ '-' := by
      rintro rfl
      cases hc
    rw [hds, List.cons_append] at hwhole
    rw [Text.toList_ofInt_of_nonneg hn, hds, List.cons_append, numeral?]
    · simp [hwhole, fraction?_of_ends h, exponent?_of_ends h, Numeral.ofInt, hn, hds]
    · exact fun _ hcs => hsign (List.cons.inj hcs).1

/-! ## 64 bits -/

theorem le_ofDigitChars (n : Nat) (ds : List Char) : n ≤ Nat.ofDigitChars 10 ds n := by
  induction ds generalizing n with
  | nil => exact Nat.le_refl n
  | cons d ds ih =>
      rw [Nat.ofDigitChars_cons]
      exact Nat.le_trans (by omega) (ih _)

theorem appendDigits_eq {ds : List Char} (h : Nat.ofDigitChars 10 ds n < Word.count) :
    appendDigits n ds = (Nat.ofDigitChars 10 ds n, ds.length) := by
  induction ds generalizing n with
  | nil => rfl
  | cons d ds ih =>
      rw [Nat.ofDigitChars_cons] at h ⊢
      have hnext : n * 10 + digitValue d = 10 * n + (d.toNat - '0'.toNat) := by
        rw [Nat.mul_comm]
        rfl
      have hfits : Word.isUnsigned (10 * n + (d.toNat - '0'.toNat)) = true :=
        decide_eq_true (Nat.lt_of_le_of_lt (le_ofDigitChars _ ds) h)
      rw [appendDigits, hnext]
      dsimp only
      rw [if_pos hfits, ih h]
      rfl

theorem value?_ofInt {n : Int} (h : isWord n = true) :
    (Numeral.ofInt n).value? = some (.integer n) := by
  have hcount : n.natAbs < Word.count := by
    unfold isWord at h
    split at h
    · simp only [Word.isSigned, Bool.and_eq_true, decide_eq_true_eq] at h
      show n.natAbs < 0x10000000000000000
      omega
    · exact of_decide_eq_true h
  have hdigits : appendDigits 0 (Nat.toDigits 10 n.natAbs) =
      (n.natAbs, (Nat.toDigits 10 n.natAbs).length) := by
    rw [appendDigits_eq (by rwa [Nat.ofDigitChars_ten_toDigits]), Nat.ofDigitChars_ten_toDigits]
  simp only [Numeral.value?, Numeral.ofInt, hdigits]
  unfold isWord at h
  split at h
  · next hn =>
    have habs : -(n.natAbs : Int) = n := by omega
    have hpos : 0 < n.natAbs := by omega
    rw [habs]
    simp [hn, hpos, h]
  · next hn =>
    have habs : (n.natAbs : Int) = n := by omega
    rw [habs]
    simp [hn]

/-! ## Strings -/

/-- The character is escaped by its code. -/
def IsCoded (c : Char) : Prop :=
  c.toNat < 0x20 ∧ c ∉ ['\x08', '\x0c', '\n', '\r', '\t']

instance (c : Char) : Decidable (IsCoded c) :=
  inferInstanceAs (Decidable (_ ∧ _))

/-- The part of a quoted string that is read for a character. -/
def Piece.ofChar (c : Char) : Piece :=
  if IsCoded c then code c.toNat else char c

theorem hexValue?_digitChar {n : Nat} (h : n < 16) : Text.hexValue? n.digitChar = some n := by
  have hall : ∀ k < 16, Text.hexValue? (Nat.digitChar k) = some k := by decide
  exact hall n h

theorem quoted?_code {n : Nat} (h : n < 0x100) (rest : List Char) :
    quoted? ('\\' :: 'u' :: '0' :: '0' :: (n / 16).digitChar :: (n % 16).digitChar :: rest) =
      (quoted? rest).map fun (ps, r) => (.code n :: ps, r) := by
  have hzero : Text.hexValue? '0' = some 0 := rfl
  rw [quoted?]
  cases quoted? rest <;>
    simp [hzero, hexValue?_digitChar (show n / 16 < 16 by omega),
      hexValue?_digitChar (show n % 16 < 16 by omega), Nat.div_add_mod']

theorem toList_escape_of_isCoded {c : Char} (h : IsCoded c) : (escape c).toList =
    ['\\', 'u', '0', '0', (c.toNat / 16).digitChar, (c.toNat % 16).digitChar] := by
  obtain ⟨hlt, hshort⟩ := h
  have hquote : c ≠ '\x22' := by
    rintro rfl
    exact absurd hlt (by decide)
  have hslash : c ≠ '\\' := by
    rintro rfl
    exact absurd hlt (by decide)
  simp only [List.mem_cons, not_or] at hshort
  obtain ⟨hb, hf, hn, hr, ht, -⟩ := hshort
  rw [escape, if_neg hquote, if_neg hslash, if_neg hb, if_neg hf, if_neg hn, if_neg hr, if_neg ht]
  split
  · next hsmall =>
    simp [Nat.toDigits_of_lt_base hsmall, Nat.div_eq_of_lt hsmall, Nat.mod_eq_of_lt hsmall]
  · next hsmall =>
    have hone : c.toNat / 16 = 1 := by omega
    rw [Nat.toDigits_of_base_le (by decide) (by omega), hone, Nat.toDigits_of_lt_base (by decide)]
    simp

theorem quoted?_letter {e c : Char} (hcode : e ≠ 'u') (h : escaped? e = some c) (rest : List Char) :
    quoted? ('\\' :: e :: rest) = (quoted? rest).map fun (ps, r) => (.char c :: ps, r) := by
  rw [quoted?]
  · cases hrest : quoted? rest <;> simp [h]
  · exact fun _ _ _ _ _ he => absurd he hcode

theorem quoted?_plain {c : Char} (hquote : c ≠ '\x22') (hslash : c ≠ '\\') (h : ¬c.toNat < 0x20)
    (rest : List Char) :
    quoted? (c :: rest) = (quoted? rest).map fun (ps, r) => (.char c :: ps, r) := by
  rw [quoted?.eq_def]
  simp [hquote, hslash, h]

theorem quoted?_escape (c : Char) (rest : List Char) :
    quoted? ((escape c).toList ++ rest) =
      (quoted? rest).map fun (ps, r) => (.ofChar c :: ps, r) := by
  by_cases hcoded : IsCoded c
  · have hlt := hcoded.1
    rw [toList_escape_of_isCoded hcoded, Piece.ofChar, if_pos hcoded]
    exact quoted?_code (by omega) rest
  · rw [Piece.ofChar, if_neg hcoded]
    by_cases hshort : c ∈ ['\x22', '\\', '\x08', '\x0c', '\n', '\r', '\t']
    · simp only [List.mem_cons, List.not_mem_nil, or_false] at hshort
      rcases hshort with rfl | rfl | rfl | rfl | rfl | rfl | rfl <;>
        exact quoted?_letter (by decide) rfl rest
    · have hplain : ¬c.toNat < 0x20 := fun hlt => hcoded ⟨hlt, fun h => hshort (by simp_all)⟩
      simp only [List.mem_cons, List.not_mem_nil, or_false, not_or] at hshort
      obtain ⟨hquote, hslash, hb, hf, hn, hr, ht⟩ := hshort
      have hescape : (escape c).toList = [c] := by
        rw [escape, if_neg hquote, if_neg hslash, if_neg hb, if_neg hf, if_neg hn, if_neg hr,
          if_neg ht, if_neg (by omega), if_neg hplain]
        exact String.toList_singleton c
      rw [hescape]
      exact quoted?_plain hquote hslash hplain rest

theorem quoted?_escaped (cs rest : List Char) :
    quoted? (cs.flatMap (fun c => (escape c).toList) ++ '\x22' :: rest) =
      some (cs.map Piece.ofChar, rest) := by
  induction cs with
  | nil =>
      rw [List.flatMap_nil, List.nil_append, quoted?.eq_def]
      rfl
  | cons c cs ih => simp [quoted?_escape, ih]

theorem text?_ofChar (c : Char) (ps : List Piece) :
    Piece.text? (.ofChar c :: ps) = (Piece.text? ps).map (c :: ·) := by
  unfold Piece.ofChar
  split
  · next h =>
    have hlt := h.1
    rw [Piece.text?.eq_def]
    dsimp only
    rw [if_neg (by omega), if_neg (by omega), Char.ofNat_toNat]
  · rfl

theorem string?_map_ofChar (s : String) : Piece.string? (s.toList.map Piece.ofChar) = some s := by
  have htext (cs : List Char) : Piece.text? (cs.map Piece.ofChar) = some cs := by
    induction cs with
    | nil => rfl
    | cons c cs ih => rw [List.map_cons, text?_ofChar, ih, Option.map_some]
  rw [Piece.string?, htext, Option.map_some, String.ofList_toList]

theorem toList_quote (s : String) :
    (quote s).toList = '\x22' :: (s.toList.flatMap (fun c => (escape c).toList) ++ ['\x22']) := by
  simp [quote, List.flatMap_def, Function.comp_def]

/-! ## Values -/

/-- The texts with commas between them. -/
def joined (texts : List String) : List Char :=
  List.intercalate [','] (texts.map String.toList)

theorem skipSpace_of_not_isSpace {c : Char} (h : isSpace c = false) (cs : List Char) :
    skipSpace (c :: cs) = c :: cs := by
  simp [skipSpace, h]

theorem ne_of_numeric {c d : Char} (h : c.isDigit = true ∨ c = '-')
    (hd : d.isDigit = false ∧ d ≠ '-') : c ≠ d := by
  rintro rfl
  rcases h with h | h
  · cases h.symm.trans hd.1
  · exact hd.2 h

theorem isSpace_of_numeric {c : Char} (h : c.isDigit = true ∨ c = '-') : isSpace c = false := by
  simp [isSpace, ne_of_numeric h (d := ' ') (by decide), ne_of_numeric h (d := '\t') (by decide),
    ne_of_numeric h (d := '\n') (by decide), ne_of_numeric h (d := '\r') (by decide)]

theorem read?_numeric {c : Char} (h : c.isDigit = true ∨ c = '-') (fuel : Nat) (cs : List Char) :
    Tree.read? (fuel + 1) (c :: cs) = (numeral? (c :: cs)).map fun (n, r) => (.number n, r) := by
  rw [Tree.read?, skipSpace_of_not_isSpace (isSpace_of_numeric h)]
  split
  all_goals first
    | rfl
    | next heq => exact absurd (List.cons.inj heq).1 (ne_of_numeric h (by decide))

example : (Tree.read? 1 ['-', '7', '.', '5', ']']).map Prod.snd = some [']'] := by
  decide +kernel

theorem exists_ofInt (n : Int) :
    ∃ c cs, (Text.ofInt n).toList = c :: cs ∧ (c.isDigit = true ∨ c = '-') := by
  by_cases hn : n < 0
  · exact ⟨'-', _, Text.toList_ofInt_of_neg hn, .inr rfl⟩
  · obtain ⟨c, ds, hds, hc, -⟩ := exists_toDigits n.natAbs
    exact ⟨c, ds, (Text.toList_ofInt_of_nonneg hn).trans hds, .inl hc⟩

/-- The first character of a value can be told from a space and from the end of an array. -/
theorem exists_write {v : Json} {depth : Nat} (h : isPlain depth v = true) :
    ∃ c cs, v.write.toList = c :: cs ∧ isSpace c = false ∧ c ≠ ']' := by
  cases v with
  | null => exact ⟨'n', "ull".toList, by simp [write], rfl, by decide⟩
  | bool b =>
      cases b
      · exact ⟨'f', "alse".toList, by simp [write], rfl, by decide⟩
      · exact ⟨'t', "rue".toList, by simp [write], rfl, by decide⟩
  | number n =>
      cases n with
      | float x => cases h
      | integer n =>
          obtain ⟨c, cs, hcs, hc⟩ := exists_ofInt n
          exact ⟨c, cs, by rw [write, JsonNumber.write, hcs], isSpace_of_numeric hc,
            ne_of_numeric hc (by decide)⟩
  | string s => exact ⟨'\x22', _, by rw [write, toList_quote], rfl, by decide⟩
  | array items => exact ⟨'[', _, by simp [write]; rfl, rfl, by decide⟩
  | object fields => exact ⟨'\x7b', _, by simp [write]; rfl, rfl, by decide⟩

theorem read?_string (s : String) (fuel : Nat) (rest : List Char) :
    Tree.read? (fuel + 1) ((quote s).toList ++ rest) =
      some (.string (s.toList.map Piece.ofChar), rest) := by
  rw [toList_quote, List.cons_append, List.append_assoc, List.singleton_append, Tree.read?,
    skipSpace_of_not_isSpace rfl]
  show (quoted? _).map _ = _
  rw [quoted?_escaped]
  rfl

theorem read?_array {c : Char} (hspace : isSpace c = false) (hc : c ≠ ']') (fuel : Nat)
    (cs : List Char) : Tree.read? (fuel + 1) ('[' :: c :: cs) =
      (Tree.readItems? fuel (c :: cs)).map fun read => (Tree.array read.1, read.2) := by
  rw [Tree.read?, skipSpace_of_not_isSpace rfl]
  simp only [skipSpace_of_not_isSpace hspace]
  split
  · next heq => exact absurd (List.cons.inj heq).1 hc
  · rfl

theorem read?_object {c : Char} (hspace : isSpace c = false) (hc : c ≠ '\x7d') (fuel : Nat)
    (cs : List Char) : Tree.read? (fuel + 1) ('\x7b' :: c :: cs) =
      (Tree.readMembers? fuel (c :: cs)).map fun read => (Tree.object read.1, read.2) := by
  rw [Tree.read?, skipSpace_of_not_isSpace rfl]
  simp only [skipSpace_of_not_isSpace hspace]
  split
  · next heq => exact absurd (List.cons.inj heq).1 hc
  · rfl

theorem joined_cons_cons (a b : String) (texts : List String) :
    joined (a :: b :: texts) = a.toList ++ ',' :: joined (b :: texts) := by
  simp [joined, List.intercalate_cons_cons]

theorem exists_joined_items {v : Json} {depth : Nat} (h : isPlain depth v = true) (vs : List Json) :
    ∃ c cs, joined (writeItems (v :: vs)) = c :: cs ∧ isSpace c = false ∧ c ≠ ']' := by
  obtain ⟨c, cs, hcs, hc⟩ := exists_write h
  cases vs with
  | nil => exact ⟨c, cs, by simp [joined, writeItems, hcs], hc⟩
  | cons w vs =>
      refine ⟨c, cs ++ ',' :: joined (writeItems (w :: vs)), ?_, hc⟩
      rw [writeItems, writeItems, joined_cons_cons, hcs]
      rfl

theorem exists_joined_fields (k : String) (v : Json) (fields : List (String × Json)) :
    ∃ cs, joined (writeFields ((k, v) :: fields)) = '\x22' :: cs := by
  cases fields with
  | nil => exact ⟨_, by rw [writeFields, writeFields, joined]; simp [toList_quote]; rfl⟩
  | cons e fields =>
      exact ⟨_, by
        simp [joined, writeFields, toList_quote, List.intercalate_cons_cons]
        rfl⟩

theorem toList_write_array (items : List Json) :
    (write (.array items)).toList = '[' :: (joined (writeItems items) ++ [']']) := by
  simp [write, joined]

theorem toList_write_object (fields : List (String × Json)) :
    (write (.object fields)).toList = '\x7b' :: (joined (writeFields fields) ++ ['\x7d']) := by
  simp [write, joined]

section

variable {fuel : Nat} {cs : List Char} {t : Tree}

theorem readItems?_last (h : Tree.read? fuel cs = some (t, ']' :: rest)) :
    Tree.readItems? (fuel + 1) cs = some ([t], rest) := by
  rw [Tree.readItems?, h]
  rfl

theorem readItems?_more (h : Tree.read? fuel cs = some (t, ',' :: rest)) :
    Tree.readItems? (fuel + 1) cs =
      (Tree.readItems? fuel rest).map fun (ts, r) => (t :: ts, r) := by
  rw [Tree.readItems?, h]
  rfl

theorem readMembers?_last (key : String) (h : Tree.read? fuel cs = some (t, '\x7d' :: rest)) :
    Tree.readMembers? (fuel + 1) ((quote key).toList ++ ':' :: cs) =
      some ([(key.toList.map Piece.ofChar, t)], rest) := by
  rw [toList_quote, List.cons_append, List.append_assoc, List.singleton_append, Tree.readMembers?,
    skipSpace_of_not_isSpace rfl]
  show (quoted? _ >>= _) = _
  rw [quoted?_escaped]
  show (Tree.read? fuel cs >>= _) = _
  rw [h]
  rfl

theorem readMembers?_more (key : String) (h : Tree.read? fuel cs = some (t, ',' :: rest)) :
    Tree.readMembers? (fuel + 1) ((quote key).toList ++ ':' :: cs) =
      (Tree.readMembers? fuel rest).map fun (ms, r) =>
        ((key.toList.map Piece.ofChar, t) :: ms, r) := by
  rw [toList_quote, List.cons_append, List.append_assoc, List.singleton_append, Tree.readMembers?,
    skipSpace_of_not_isSpace rfl]
  show (quoted? _ >>= _) = _
  rw [quoted?_escaped]
  show (Tree.read? fuel cs >>= _) = _
  rw [h]
  rfl

end

/-! ## Arrays and objects -/

/-- The value is read back from its text if that is followed by what may follow a value. -/
def ReadsBack (v : Json) : Prop :=
  ∀ depth fuel rest, v.isWellFormed = true → isPlain depth v = true → Ends rest →
    v.write.toList.length ≤ fuel →
    ∃ t, Tree.read? fuel (v.write.toList ++ rest) = some (t, rest) ∧ t.value? depth = some v

/-- The items are read back as those of an array. -/
def ItemsReadBack (items : List Json) : Prop :=
  ∀ depth fuel rest, items ≠ [] → areWellFormed items = true → arePlain depth items = true →
    (joined (writeItems items)).length < fuel →
    ∃ ts, Tree.readItems? fuel (joined (writeItems items) ++ ']' :: rest) = some (ts, rest) ∧
      Tree.values? depth ts = some items

/-- The fields are read back as those of an object. -/
def FieldsReadBack (fields : List (String × Json)) : Prop :=
  ∀ depth fuel rest, fields ≠ [] → haveWellFormed fields = true → havePlain depth fields = true →
    (joined (writeFields fields)).length < fuel →
    ∃ ms, Tree.readMembers? fuel (joined (writeFields fields) ++ '\x7d' :: rest) = some (ms, rest) ∧
      Tree.entries? depth ms = some fields

theorem readsBack_of_succ {v : Json} (h : ∀ depth fuel rest, v.isWellFormed = true →
    isPlain depth v = true → Ends rest → v.write.toList.length ≤ fuel + 1 →
    ∃ t, Tree.read? (fuel + 1) (v.write.toList ++ rest) = some (t, rest) ∧ t.value? depth = some v) :
    ReadsBack v := by
  intro depth fuel rest hwell hplain hrest hfuel
  cases fuel with
  | zero =>
      obtain ⟨c, cs, hcs, -⟩ := exists_write hplain
      rw [hcs] at hfuel
      cases hfuel
  | succ fuel => exact h depth fuel rest hwell hplain hrest hfuel

theorem readsBack_null : ReadsBack .null :=
  readsBack_of_succ fun _ _ _ _ _ _ _ => ⟨.null, by simp [write, Tree.read?, skipSpace, isSpace], rfl⟩

theorem readsBack_bool (b : Bool) : ReadsBack (.bool b) :=
  readsBack_of_succ fun _ _ _ _ _ _ _ =>
    ⟨.bool b, by cases b <;> simp [write, Tree.read?, skipSpace, isSpace], rfl⟩

theorem readsBack_number (n : JsonNumber) : ReadsBack (.number n) := by
  refine readsBack_of_succ fun depth fuel rest hwell hplain hrest _ => ?_
  cases n with
  | float x => cases hplain
  | integer n =>
      obtain ⟨c, cs, hcs, hc⟩ := exists_ofInt n
      have hread := numeral?_ofInt hrest n
      refine ⟨.number (.ofInt n), ?_, ?_⟩
      · rw [write, JsonNumber.write]
        rw [hcs, List.cons_append] at hread ⊢
        rw [read?_numeric hc, hread]
        rfl
      · rw [Tree.value?, value?_ofInt hwell]
        rfl

theorem readsBack_string (s : String) : ReadsBack (.string s) := by
  refine readsBack_of_succ fun depth fuel rest _ _ _ _ => ⟨.string (s.toList.map Piece.ofChar), ?_, ?_⟩
  · rw [write]
    exact read?_string s fuel rest
  · rw [Tree.value?, string?_map_ofChar]
    rfl

theorem readsBack_array {items : List Json} (hitems : ItemsReadBack items) :
    ReadsBack (.array items) := by
  refine readsBack_of_succ fun depth fuel rest hwell hplain _ hfuel => ?_
  simp only [isPlain, Bool.and_eq_true, decide_eq_true_eq] at hplain
  have hdepth : depth ≠ 0 := by omega
  rw [toList_write_array] at hfuel ⊢
  cases items with
  | nil =>
      refine ⟨.array [], rfl, ?_⟩
      rw [Tree.value?, if_neg hdepth]
      rfl
  | cons v vs =>
      simp only [List.length_cons, List.length_append, List.length_nil] at hfuel
      have hv : isPlain (depth - 1) v = true := (Bool.and_eq_true_iff.1 hplain.2).1
      obtain ⟨c, cs, hcs, hspace, hc⟩ := exists_joined_items hv vs
      obtain ⟨ts, hread, hvalues⟩ := hitems _ fuel rest (List.cons_ne_nil v vs) hwell hplain.2 (by omega)
      refine ⟨.array ts, ?_, ?_⟩
      · rw [hcs, List.cons_append] at hread
        rw [List.cons_append, List.append_assoc, List.singleton_append, hcs, List.cons_append,
          read?_array hspace hc, hread]
        rfl
      · rw [Tree.value?, if_neg hdepth, hvalues]
        rfl

theorem readsBack_object {fields : List (String × Json)} (hfields : FieldsReadBack fields) :
    ReadsBack (.object fields) := by
  refine readsBack_of_succ fun depth fuel rest hwell hplain _ hfuel => ?_
  simp only [isWellFormed, isPlain, Bool.and_eq_true, decide_eq_true_eq] at hwell hplain
  have hdepth : depth ≠ 0 := by omega
  rw [toList_write_object] at hfuel ⊢
  cases fields with
  | nil =>
      refine ⟨.object [], rfl, ?_⟩
      rw [Tree.value?, if_neg hdepth]
      rfl
  | cons e fields =>
      simp only [List.length_cons, List.length_append, List.length_nil] at hfuel
      obtain ⟨cs, hcs⟩ := exists_joined_fields e.1 e.2 fields
      obtain ⟨ms, hread, hentries⟩ :=
        hfields _ fuel rest (List.cons_ne_nil e fields) hwell.2 hplain.2 (by omega)
      refine ⟨.object ms, ?_, ?_⟩
      · rw [hcs, List.cons_append] at hread
        rw [List.cons_append, List.append_assoc, List.singleton_append, hcs, List.cons_append,
          read?_object rfl (by decide), hread]
        rfl
      · rw [Tree.value?, if_neg hdepth, hentries, Option.map_some, ofFields,
          Dict.Sorted.ofEntries_eq hwell.1]

theorem itemsReadBack_cons {v : Json} {vs : List Json} (hv : ReadsBack v) (hvs : ItemsReadBack vs) :
    ItemsReadBack (v :: vs) := by
  intro depth fuel rest _ hwell hplain hfuel
  obtain ⟨hwellFirst, hwellMore⟩ := Bool.and_eq_true_iff.1 hwell
  obtain ⟨hplainFirst, hplainMore⟩ := Bool.and_eq_true_iff.1 hplain
  obtain _ | fuel := fuel
  · cases hfuel
  cases vs with
  | nil =>
      have htext : joined (writeItems [v]) = v.write.toList := by simp [joined, writeItems]
      rw [htext] at hfuel ⊢
      obtain ⟨t, hread, hvalue⟩ := hv depth fuel _ hwellFirst hplainFirst
        (ends_cons (.inr (.inl rfl)) rest) (by omega)
      exact ⟨[t], readItems?_last hread, by simp [Tree.values?, hvalue]⟩
  | cons w vs =>
      have htext : joined (writeItems (v :: w :: vs)) =
          v.write.toList ++ ',' :: joined (writeItems (w :: vs)) := joined_cons_cons _ _ _
      rw [htext, List.length_append, List.length_cons] at hfuel
      obtain ⟨t, hread, hvalue⟩ := hv depth fuel _ hwellFirst hplainFirst
        (ends_cons (.inl rfl) (joined (writeItems (w :: vs)) ++ ']' :: rest)) (by omega)
      obtain ⟨ts, hrest, hvalues⟩ :=
        hvs depth fuel rest (List.cons_ne_nil w vs) hwellMore hplainMore (by omega)
      refine ⟨t :: ts, ?_, by simp [Tree.values?, hvalue, hvalues]⟩
      rw [htext, List.append_assoc, List.cons_append, readItems?_more hread, hrest]
      rfl

theorem fieldsReadBack_cons {k : String} {v : Json} {fields : List (String × Json)} (hv : ReadsBack v)
    (hfields : FieldsReadBack fields) : FieldsReadBack ((k, v) :: fields) := by
  intro depth fuel rest _ hwell hplain hfuel
  obtain ⟨hwellFirst, hwellMore⟩ := Bool.and_eq_true_iff.1 hwell
  obtain ⟨hplainFirst, hplainMore⟩ := Bool.and_eq_true_iff.1 hplain
  obtain _ | fuel := fuel
  · cases hfuel
  cases fields with
  | nil =>
      have htext : joined (writeFields [(k, v)]) = (quote k).toList ++ ':' :: v.write.toList := by
        simp [joined, writeFields]
      rw [htext, List.length_append, List.length_cons] at hfuel
      obtain ⟨t, hread, hvalue⟩ := hv depth fuel _ hwellFirst hplainFirst
        (ends_cons (.inr (.inr rfl)) rest) (by omega)
      refine ⟨[(k.toList.map Piece.ofChar, t)], ?_,
        by simp [Tree.entries?, string?_map_ofChar, hvalue]⟩
      rw [htext, List.append_assoc, List.cons_append, readMembers?_last k hread]
  | cons e fields =>
      have htext : joined (writeFields ((k, v) :: e :: fields)) =
          (quote k).toList ++ ':' :: (v.write.toList ++ ',' :: joined (writeFields (e :: fields))) := by
        simp [joined, writeFields, List.intercalate_cons_cons]
      rw [htext, List.length_append, List.length_cons, List.length_append, List.length_cons] at hfuel
      obtain ⟨t, hread, hvalue⟩ := hv depth fuel _ hwellFirst hplainFirst
        (ends_cons (.inl rfl) (joined (writeFields (e :: fields)) ++ '\x7d' :: rest)) (by omega)
      obtain ⟨ms, hrest, hentries⟩ :=
        hfields depth fuel rest (List.cons_ne_nil e fields) hwellMore hplainMore (by omega)
      refine ⟨(k.toList.map Piece.ofChar, t) :: ms, ?_,
        by simp [Tree.entries?, string?_map_ofChar, hvalue, hentries]⟩
      rw [htext, List.append_assoc, List.cons_append, List.append_assoc, List.cons_append,
        readMembers?_more k hread, hrest]
      rfl

mutual

theorem readsBack (v : Json) : ReadsBack v := by
  cases v with
  | null => exact readsBack_null
  | bool b => exact readsBack_bool b
  | number n => exact readsBack_number n
  | string s => exact readsBack_string s
  | array items => exact readsBack_array (itemsReadBack items)
  | object fields => exact readsBack_object (fieldsReadBack fields)

theorem itemsReadBack (items : List Json) : ItemsReadBack items := by
  cases items with
  | nil => exact fun _ _ _ h => absurd rfl h
  | cons v vs => exact itemsReadBack_cons (readsBack v) (itemsReadBack vs)

theorem fieldsReadBack (fields : List (String × Json)) : FieldsReadBack fields := by
  cases fields with
  | nil => exact fun _ _ _ h => absurd rfl h
  | cons e fields =>
      obtain ⟨k, v⟩ := e
      exact fieldsReadBack_cons (readsBack v) (fieldsReadBack fields)

end

/-- A well-formed value without fractional numbers that is not nested too deep is read back. -/
theorem ofText?_write {v : Json} (h : v.isWellFormed = true) (hplain : v.isPlain maxDepth = true) :
    ofText? v.write = some v := by
  obtain ⟨t, hread, hvalue⟩ :=
    readsBack v maxDepth (2 * v.write.toList.length + 2) [] h hplain ends_nil (by omega)
  rw [List.append_nil] at hread
  rw [ofText?, Tree.ofText?, hread]
  exact hvalue

end RestSql.Json
