import Mathlib.Data.List.Basic
import Mathlib.Tactic.ByContra
import Mathlib.Tactic.IntervalCases
import RestSql.Url.Basic

/-!
# Reading encoded texts

What is percent-encoded stands for the same as before if percent signs and digits stay as they are
(`decodeBytes_encode_of_digits`), and for itself if percent signs are encoded (`decode_encode`). The pairs
of a form are read back as they are, whatever they hold (`formPairs_formText`).
-/

namespace RestSql

namespace Percent

/-! ## Percent encoding -/

theorem encode_cons (set : Char → Bool) (c : Char) (cs : List Char) :
    encode set (c :: cs) = encode set [c] ++ encode set cs := by
  simp [encode]

theorem encode_singleton_of_not {set : Char → Bool} {c : Char} (h : set c = false) :
    encode set [c] = [c] := by
  simp [encode, h]

theorem encode_singleton_of_mem {set : Char → Bool} {c : Char} (h : set c = true) :
    encode set [c] = (Text.utf8 [c]).flatMap encodeByte := by
  simp [encode, h]

theorem exists_encode_eq_percent_cons {set : Char → Bool} {c : Char} (h : set c = true) :
    ∃ tail, encode set [c] = '%' :: tail := by
  obtain ⟨b, bs, hbytes, -⟩ := Text.firstChar_codeBytes c.valid []
  refine ⟨hexDigit (b / 16) :: hexDigit (b % 16) :: bs.flatMap encodeByte, ?_⟩
  rw [encode_singleton_of_mem h, Text.utf8_singleton]
  change (Text.codeBytes c.val.toNat).flatMap encodeByte = _
  rw [hbytes]
  rfl

theorem encode_ne_nil {set : Char → Bool} {cs : List Char} (h : cs ≠ []) : encode set cs ≠ [] := by
  obtain ⟨c, cs, rfl⟩ := List.exists_cons_of_ne_nil h
  rw [encode_cons]
  refine List.append_ne_nil_of_left_ne_nil ?_ _
  cases hc : set c with
  | false => simp [encode_singleton_of_not hc]
  | true =>
    obtain ⟨tail, hencoded⟩ := exists_encode_eq_percent_cons hc
    simp [hencoded]

def hexDigits : List Char :=
  "0123456789abcdefABCDEF".toList

theorem mem_hexDigits {c : Char} (h : (Text.hexValue? c).isSome) : c ∈ hexDigits := by
  have hcode : (48 ≤ c.toNat ∧ c.toNat ≤ 57) ∨ (97 ≤ c.toNat ∧ c.toNat ≤ 102) ∨
      (65 ≤ c.toNat ∧ c.toNat ≤ 70) := by
    unfold Text.hexValue? at h
    split at h
    · next hd =>
      simp only [Char.isDigit, Bool.and_eq_true, decide_eq_true_eq] at hd
      exact .inl ⟨UInt32.le_iff_toNat_le.1 hd.1, UInt32.le_iff_toNat_le.1 hd.2⟩
    split at h
    · next hd =>
      exact .inr (.inl ⟨UInt32.le_iff_toNat_le.1 hd.1, UInt32.le_iff_toNat_le.1 hd.2⟩)
    split at h
    · next hd =>
      exact .inr (.inr ⟨UInt32.le_iff_toNat_le.1 hd.1, UInt32.le_iff_toNat_le.1 hd.2⟩)
    · cases h
  rw [← Char.ofNat_toNat c]
  generalize c.toNat = n at hcode
  rcases hcode with h | h | h <;> obtain ⟨h, h'⟩ := h <;> interval_cases n <;> decide

theorem eq_false_of_hexValue? {set : Char → Bool} (hset : hexDigits.any set = false) {c : Char}
    (h : (Text.hexValue? c).isSome) : set c = false :=
  Bool.eq_false_iff.2 (List.any_eq_false.1 hset c (mem_hexDigits h))

/-- The text does not start with two hexadecimal digits. -/
def NoCode (cs : List Char) : Prop :=
  ∀ a b rest, cs = a :: b :: rest → Text.hexValue? a = none ∨ Text.hexValue? b = none

theorem decodeBytes_percent {cs : List Char} (h : NoCode cs) :
    decodeBytes ('%' :: cs) = Text.utf8 ['%'] ++ decodeBytes cs := by
  match cs with
  | [] => rfl
  | [a] => rfl
  | a :: b :: rest =>
    rw [decodeBytes]
    rcases h a b rest rfl with h | h
    · rw [h]
      rfl
    · rw [h]
      cases Text.hexValue? a <;> rfl

theorem eq_cons_of_encode_eq_cons {set : Char → Bool} {cs tail : List Char} {x : Char}
    (h : encode set cs = x :: tail) (hx : (Text.hexValue? x).isSome) :
    ∃ rest, cs = x :: rest ∧ set x = false ∧ encode set rest = tail := by
  cases cs with
  | nil => exact absurd h (by simp [encode])
  | cons c cs =>
    rw [encode_cons] at h
    cases hc : set c with
    | false =>
      rw [encode_singleton_of_not hc] at h
      injection h with hcx htail
      subst hcx
      exact ⟨cs, rfl, hc, htail⟩
    | true =>
      obtain ⟨tail', hencoded⟩ := exists_encode_eq_percent_cons hc
      rw [hencoded] at h
      injection h with hcx htail
      subst hcx
      exact absurd hx (by decide)

theorem NoCode.encode {set : Char → Bool} {cs : List Char} (h : NoCode cs) :
    NoCode (encode set cs) := by
  intro a b rest hab
  by_contra hcode
  rw [not_or, ← ne_eq, ← ne_eq, Option.ne_none_iff_isSome, Option.ne_none_iff_isSome] at hcode
  obtain ⟨cs, rfl, -, htail⟩ := eq_cons_of_encode_eq_cons hab hcode.1
  obtain ⟨cs, rfl, -, -⟩ := eq_cons_of_encode_eq_cons htail hcode.2
  rcases h a b cs rfl with h | h <;> simp [h] at hcode

/-- Encoding does not change what a text stands for, if percent signs and digits stay as they are. -/
theorem decodeBytes_encode_of_digits {set : Char → Bool} (hpercent : set '%' = false)
    (hdigit : hexDigits.any set = false) (cs : List Char) :
    decodeBytes (encode set cs) = decodeBytes cs := by
  have hkept {c : Char} (hc : set c = false) (cs : List Char) :
      encode set (c :: cs) = c :: encode set cs := by
    rw [encode_cons, encode_singleton_of_not hc]
    rfl
  have hcode {cs : List Char} (h : NoCode cs)
      (ih : decodeBytes (encode set cs) = decodeBytes cs) :
      decodeBytes (encode set ('%' :: cs)) = decodeBytes ('%' :: cs) := by
    rw [hkept hpercent, decodeBytes_percent h, decodeBytes_percent h.encode, ih]
  -- a percent sign is decoded with two digits after it, and `hcode` is the case without them
  induction cs using decodeBytes.induct with
  | case1 => rfl
  | case2 a b rest m n hb ha ih =>
    rw [hkept hpercent, hkept (eq_false_of_hexValue? hdigit (by simp [ha])),
      hkept (eq_false_of_hexValue? hdigit (by simp [hb])),
      decodeBytes, decodeBytes, ha, hb]
    dsimp only
    rw [ih]
  | case3 a b rest hnot ih =>
    refine hcode (fun a' b' rest' h => ?_) ih
    injection h with ha h
    injection h with hb h
    subst ha hb
    by_contra hsome
    rw [not_or, ← ne_eq, ← ne_eq, Option.ne_none_iff_exists', Option.ne_none_iff_exists'] at hsome
    obtain ⟨⟨m, ha⟩, n, hb⟩ := hsome
    exact hnot m n ha hb
  | case4 c rest hc ih =>
    by_cases hpc : c = '%'
    · subst hpc
      exact hcode (fun a b rest' h => absurd h (hc a b rest' rfl)) ih
    · rw [decodeBytes_cons_of_ne hpc]
      cases hset : set c with
      | true =>
        rw [encode_cons, encode_singleton_of_mem hset, decodeBytes_encodeBytes (fun b hb => utf8_lt hb),
          ih]
      | false => rw [hkept hset, decodeBytes_cons_of_ne hpc, ih]

theorem decode_encode_of_digits {set : Char → Bool} (hpercent : set '%' = false)
    (hdigit : hexDigits.any set = false) (cs : List Char) :
    decode (encode set cs) = decode cs := by
  rw [decode, decodeBytes_encode_of_digits hpercent hdigit, decode]

theorem decode_encode {set : Char → Bool} (hpercent : set '%' = true) (cs : List Char) :
    decode (encode set cs) = cs := by
  rw [decode, decodeBytes_encode hpercent, Text.ofUtf8_utf8]

theorem encode_eq_self {set : Char → Bool} {cs : List Char} (h : ∀ c ∈ cs, set c = false) :
    encode set cs = cs := by
  induction cs with
  | nil => rfl
  | cons c cs ih =>
    rw [List.forall_mem_cons] at h
    rw [encode_cons, encode_singleton_of_not h.1, ih h.2, List.singleton_append]

theorem decode_of_not_mem {cs : List Char} (h : '%' ∉ cs) : decode cs = cs := by
  have hencode : encode (· == '%') cs = cs :=
    encode_eq_self fun c hc => beq_eq_false_iff_ne.2 (ne_of_mem_of_not_mem hc h)
  rw [← hencode, decode_encode rfl, hencode]

theorem mem_encodeByte {b : Nat} (hb : b < 256) {x : Char} (h : x ∈ encodeByte b) :
    x = '%' ∨ (Text.hexValue? x).isSome := by
  simp only [encodeByte, List.mem_cons, List.not_mem_nil, or_false] at h
  rcases h with h | h | h
  · exact .inl h
  · rw [h, hexValue?_hexDigit (by omega)]
    exact .inr rfl
  · rw [h, hexValue?_hexDigit (by omega)]
    exact .inr rfl

theorem mem_encode {set : Char → Bool} {cs : List Char} {x : Char} (h : x ∈ encode set cs) :
    (x ∈ cs ∧ set x = false) ∨ x = '%' ∨ (Text.hexValue? x).isSome := by
  obtain ⟨c, hc, hx⟩ := List.mem_flatMap.1 h
  split at hx
  · obtain ⟨b, hb, hx⟩ := List.mem_flatMap.1 hx
    exact .inr (mem_encodeByte (utf8_lt hb) hx)
  · next hset =>
    rw [List.mem_singleton] at hx
    subst hx
    exact .inl ⟨hc, Bool.eq_false_iff.2 hset⟩

/-! ## Forms -/

theorem mem_encodeForm {cs : List Char} {x : Char} (h : x ∈ encodeForm cs) :
    x = '+' ∨ x = '%' ∨ inForm x = false := by
  obtain ⟨c, -, hx⟩ := List.mem_flatMap.1 h
  split at hx
  · exact .inl (List.mem_singleton.1 hx)
  · rcases mem_encode hx with ⟨-, hx⟩ | hx | hx
    · exact .inr (.inr hx)
    · exact .inr (.inl hx)
    · exact .inr (.inr (eq_false_of_hexValue? (by decide) hx))

theorem ne_of_mem_encodeForm {x y : Char} {cs : List Char} (hx : x ∈ encodeForm cs)
    (hy : inForm y = true) (hplus : y ≠ '+') (hpercent : y ≠ '%') : x ≠ y := by
  rintro rfl
  rcases mem_encodeForm hx with h | h | h
  · exact hplus h
  · exact hpercent h
  · rw [hy] at h
    cases h

/-- Blanks are read back from a form as blanks, and nothing else is read as a blank. -/
theorem map_encodeForm (cs : List Char) :
    (encodeForm cs).map (fun c => if c = '+' then ' ' else c) =
      encode (fun c => inForm c && c ≠ ' ') cs := by
  have hplus (c : Char) : '+' ∉ encode inForm [c] := by
    intro h
    rcases mem_encode h with ⟨-, h⟩ | h | h <;> exact absurd h (by decide)
  have hkept (c : Char) :
      (encode inForm [c]).map (fun c => if c = '+' then ' ' else c) = encode inForm [c] :=
    (List.map_congr_left fun x hx => if_neg (ne_of_mem_of_not_mem hx (hplus c))).trans
        (List.map_id _)
  rw [encodeForm, encode, List.map_flatMap]
  refine List.flatMap_congr fun c _ => ?_
  by_cases hblank : c = ' '
  · subst hblank
    rfl
  · rw [if_neg hblank, hkept]
    simp [encode, hblank]

theorem decodeForm_encodeForm (cs : List Char) : decodeForm (encodeForm cs) = cs := by
  rw [decodeForm, map_encodeForm, decode_encode rfl]

def formText (pairs : List (String × String)) : List Char :=
  List.intercalate ['&'] (pairs.map fun (k, v) => formPair k v)

theorem ne_of_mem_formPair {x y : Char} {k v : String} (hx : x ∈ formPair k v)
    (hy : inForm y = true) (hplus : y ≠ '+') (hpercent : y ≠ '%') (hequals : y ≠ '=') : x ≠ y := by
  rcases List.mem_append.1 hx with hx | hx
  · exact ne_of_mem_encodeForm hx hy hplus hpercent
  · rcases List.mem_cons.1 hx with rfl | hx
    · exact hequals.symm
    · exact ne_of_mem_encodeForm hx hy hplus hpercent

theorem ne_number_of_mem_formText {pairs : List (String × String)} {x : Char} (hx : x ∈ formText pairs) :
    x ≠ '#' := by
  rcases Text.eq_or_mem_of_mem_intercalate hx with rfl | ⟨piece, hpiece, hx⟩
  · decide
  · obtain ⟨⟨k, v⟩, -, rfl⟩ := List.mem_map.1 hpiece
    exact ne_of_mem_formPair hx rfl (by decide) (by decide) (by decide)

theorem formPairs_formText (pairs : List (String × String)) : formPairs (formText pairs) = pairs := by
  have hamp : ∀ piece ∈ pairs.map fun (k, v) => formPair k v, ∀ x ∈ piece, (x == '&') = false := by
    intro piece hpiece x hx
    obtain ⟨⟨k, v⟩, -, rfl⟩ := List.mem_map.1 hpiece
    rw [beq_eq_false_iff_ne]
    exact ne_of_mem_formPair hx rfl (by decide) (by decide) (by decide)
  have hread (k v : String) : Text.cutFirst (· == '=') (formPair k v) =
      some (encodeForm k.toList, encodeForm v.toList) :=
    Text.cutFirst_append_cons (fun x hx => beq_eq_false_iff_ne.2
      (ne_of_mem_encodeForm hx rfl (by decide) (by decide))) rfl _
  cases pairs with
  | nil => rfl
  | cons pair pairs =>
    have hfilter : ∀ piece ∈ (pair :: pairs).map fun (k, v) => formPair k v, piece ≠ [] := by
      intro piece hpiece
      obtain ⟨⟨k, v⟩, -, rfl⟩ := List.mem_map.1 hpiece
      exact List.append_ne_nil_of_right_ne_nil _ (List.cons_ne_nil _ _)
    rw [formPairs, formText, Text.cut_intercalate rfl (by simp) hamp,
      List.filter_eq_self.2 (fun piece h => decide_eq_true (hfilter piece h)), List.map_map]
    refine (List.map_congr_left fun pair _ => ?_).trans (List.map_id _)
    simp only [Function.comp_apply, hread, decodeForm_encodeForm, String.ofList_toList, id_eq]

end Percent

namespace Url

open Percent

/-- The pairs that are added to a query follow what it holds. -/
theorem toList_foldl_extend (query : String) (pairs : List (String × String)) :
    (pairs.foldl (fun q (k, v) => extend q k v) query).toList =
      List.intercalate ['&']
        ((if query = "" then [] else [query.toList]) ++ pairs.map fun (k, v) => formPair k v) := by
  induction pairs generalizing query with
  | nil =>
    by_cases h : query = ""
    · simp [h]
    · simp [h]
  | cons pair pairs ih =>
    have hne : extend query pair.1 pair.2 ≠ "" := by
      rw [extend, ← String.toList_inj.ne, String.toList_append, String.toList_ofList]
      simp [formPair]
    rw [List.foldl_cons, ih, if_neg hne, List.map_cons]
    by_cases h : query = ""
    · simp [extend, h]
    · simp [extend, h, Text.intercalate_append_cons]

theorem withPairs_eq {u : Url} (hquery : u.query = none) (pairs : List (String × String)) :
    u.withPairs pairs =
      { u with query := if pairs = [] then none else some (String.ofList (formText pairs)) } := by
  cases pairs with
  | nil => simp [withPairs, ← hquery]
  | cons pair pairs =>
    have hform : (pair :: pairs).foldl (fun q (k, v) => extend q k v) "" =
        String.ofList (formText (pair :: pairs)) := by
      rw [← String.toList_inj, toList_foldl_extend, if_pos rfl, List.nil_append,
        String.toList_ofList, formText]
    rw [withPairs, hquery, Option.getD_none, hform, if_neg (List.cons_ne_nil pair pairs)]
    intro h
    cases h

end Url
end RestSql
