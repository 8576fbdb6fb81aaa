import Mathlib.Data.List.TakeWhile
import RestSql.Proofs.Encoding
import RestSql.Proofs.Literals
import RestSql.Proofs.Steps
import RestSql.Url.Host

/-!
# Hosts and their texts

What is read as a host is a name in ASCII and in lower case, or an address within its bounds
(`isWritten_of_ofText`). Its text is read as the same host again (`ofText_text`): a name is left as it is, the
bytes of an address are read one by one, and the groups of an address are read around the longest run of
zeros, which its text leaves out.
-/

namespace RestSql

namespace Punycode

theorem threshold_le (k bias : Nat) : threshold k bias ≤ 26 := by
  unfold threshold
  split
  · omega
  · split <;> omega

theorem mem_digits {bias k q : Nat} {x : Char} (h : x ∈ digits bias k q) : ∃ d < 36, x = digit d := by
  induction k, q using digits.induct bias with
  | case1 k q t hless =>
    have hle := threshold_le k bias
    rw [digits, if_pos hless, List.mem_singleton] at h
    exact ⟨q, by omega, h⟩
  | case2 k q t hless ih =>
    have hle := threshold_le k bias
    have hmod : (q - t) % (36 - t) < 36 - t := Nat.mod_lt _ (by omega)
    rw [digits, if_neg hless, List.mem_cons] at h
    rcases h with h | h
    · exact ⟨t + (q - t) % (36 - t), by omega, h⟩
    · exact ih h

/-- All that is written for the inserted characters is digits. -/
def State.HasDigits (s : State) : Prop :=
  ∀ x ∈ s.out, ∃ d < 36, x = digit d

theorem State.HasDigits.visit {s : State} (h : s.HasDigits) (basic m : Nat) (c : Char) :
    (visit basic m s c).HasDigits := by
  unfold Punycode.visit
  split
  · exact h
  · split
    · intro x hx
      exact (List.mem_append.1 hx).elim (h x) mem_digits
    · exact h

theorem State.HasDigits.insertCodes {s : State} (h : s.HasDigits) (label : List Char) (basic : Nat)
    (codes : List Nat) (n : Nat) : (insertCodes label basic codes n s).HasDigits := by
  induction codes generalizing n s with
  | nil => exact h
  | cons m more ih =>
    let visited := label.foldl (Punycode.visit basic m)
      { s with delta := s.delta + (m - n) * (s.count + 1) }
    have hvisited : visited.HasDigits :=
      List.foldlRecOn label (Punycode.visit basic m) h fun s hs c _ => hs.visit basic m c
    exact ih (s := { visited with delta := visited.delta + 1 }) hvisited (m + 1)

theorem mem_encode {label : List Char} {x : Char} (h : x ∈ encode label) :
    (x ∈ label ∧ x.toNat < 0x80) ∨ x = '-' ∨ ∃ d < 36, x = digit d := by
  rcases List.mem_append.1 h with h | h
  · rcases List.mem_append.1 h with h | h
    · exact .inl (by simpa using h)
    · split at h
      · cases h
      · exact .inr (.inl (List.mem_singleton.1 h))
  · exact .inr (.inr (State.HasDigits.insertCodes (s := ⟨[], _, _, _⟩) nofun _ _ _ _ x h))

end Punycode

namespace Host

/-! ## Names -/

/-- A character of a name as it is written: in ASCII and in lower case. -/
def isNameChar (c : Char) : Bool :=
  c.toNat < 0x80 && c.toLower == c && !isForbidden c

/-- What holds of a name's characters is checked character by character. -/
theorem forall_ascii {p : Char → Bool} (h : ∀ n < 0x80, p (Char.ofNat n) = true) {c : Char}
    (hc : c.toNat < 0x80) : p c = true := by
  have := h c.toNat hc
  rwa [Char.ofNat_toNat] at this

theorem isNameChar_toLower {c : Char} (hc : c.toNat < 0x80) (h : isForbidden c = false) :
    isNameChar c.toLower = true := by
  have hall := forall_ascii (p := fun c => isForbidden c || isNameChar c.toLower) (by decide) hc
  simpa [h] using hall

theorem toLower_eq_self {c : Char} (hc : 0x80 ≤ c.toNat) : c.toLower = c := by
  unfold Char.toLower
  split
  · next hupper =>
    have hle : c.toNat ≤ 'Z'.toNat := UInt32.le_iff_toNat_le.1 hupper.2
    exact absurd (Nat.le_trans hc hle) (by decide)
  · rfl

theorem isNameChar_digit {d : Nat} (h : d < 36) : isNameChar (Punycode.digit d) = true := by
  have hall : ∀ d < 36, isNameChar (Punycode.digit d) = true := by decide
  exact hall d h

theorem isNameChar_of_mem_asciiLabel {label : List Char} (h : ∀ c ∈ label, isForbidden c = false)
    {x : Char} (hx : x ∈ asciiLabel label) : isNameChar x = true := by
  unfold asciiLabel at hx
  split at hx
  · next hascii =>
    obtain ⟨c, hc, rfl⟩ := List.mem_map.1 hx
    exact isNameChar_toLower (by simpa using List.all_eq_true.1 hascii c hc) (h c hc)
  · rcases List.mem_append.1 hx with hx | hx
    · have hprefix : "xn--".toList.all isNameChar = true := by decide
      exact List.all_eq_true.1 hprefix x hx
    · rcases Punycode.mem_encode hx with ⟨hx, hascii⟩ | rfl | ⟨d, hd, rfl⟩
      · obtain ⟨c, hc, rfl⟩ := List.mem_map.1 hx
        refine isNameChar_toLower (Nat.lt_of_not_le fun hle => ?_) (h c hc)
        rw [toLower_eq_self hle] at hascii
        exact absurd hascii (Nat.not_lt.2 hle)
      · decide
      · exact isNameChar_digit hd

theorem isNameChar_of_mem_asciiDomain {domain : List Char}
    (h : ∀ c ∈ domain, isForbidden c = false) {x : Char} (hx : x ∈ asciiDomain domain) :
    isNameChar x = true := by
  rcases Text.eq_or_mem_of_mem_intercalate hx with rfl | ⟨piece, hpiece, hx⟩
  · decide
  · obtain ⟨label, hlabel, rfl⟩ := List.mem_map.1 hpiece
    exact isNameChar_of_mem_asciiLabel (fun c hc => h c (Text.mem_of_mem_cut hlabel hc).1) hx

theorem isNameChar_iff {c : Char} :
    isNameChar c = true ↔ c.toNat < 0x80 ∧ c.toLower = c ∧ isForbidden c = false := by
  simp [isNameChar, and_assoc]

theorem asciiLabel_eq_self {label : List Char} (h : ∀ c ∈ label, isNameChar c = true) :
    asciiLabel label = label := by
  have hascii : label.all (·.toNat < 0x80) = true :=
    List.all_eq_true.2 fun c hc => decide_eq_true (isNameChar_iff.1 (h c hc)).1
  rw [asciiLabel, if_pos hascii]
  exact (List.map_congr_left fun c hc => (isNameChar_iff.1 (h c hc)).2.1).trans (List.map_id _)

theorem asciiDomain_eq_self {name : List Char} (h : ∀ c ∈ name, isNameChar c = true) :
    asciiDomain name = name := by
  have hlabels : (Text.cut (· == '.') name).map asciiLabel = Text.cut (· == '.') name := by
    refine (List.map_congr_left fun label hlabel => ?_).trans (List.map_id _)
    exact asciiLabel_eq_self fun c hc => h c (Text.mem_of_mem_cut hlabel hc).1
  rw [asciiDomain, hlabels]
  exact Text.intercalate_cut '.' name

theorem ne_of_isNameChar {c d : Char} (h : isNameChar c = true) (hd : isNameChar d = false) : c ≠ d := by
  rintro rfl
  rw [h] at hd
  cases hd

/-! ## Bytes -/

theorem of_mapM_eq_some {α β : Type} {f : α → Option β} {l : List α} {bs : List β}
    (h : l.mapM f = some bs) : bs.length = l.length ∧ ∀ b ∈ bs, ∃ a ∈ l, f a = some b := by
  induction l generalizing bs with
  | nil =>
    cases h
    exact ⟨rfl, nofun⟩
  | cons a l ih =>
    rw [List.mapM_cons] at h
    obtain ⟨b, hb, h⟩ := Option.bind_eq_some_iff.1 h
    obtain ⟨bs, hbs, h⟩ := Option.bind_eq_some_iff.1 h
    cases h
    obtain ⟨hlength, hmem⟩ := ih hbs
    refine ⟨congrArg (· + 1) hlength, List.forall_mem_cons.2 ⟨⟨a, List.mem_cons_self, hb⟩, ?_⟩⟩
    intro b hb
    obtain ⟨a', ha', hf⟩ := hmem b hb
    exact ⟨a', List.mem_cons_of_mem a ha', hf⟩

theorem number?_toDigits (n : Nat) : number? (Nat.toDigits 10 n) = some n := by
  obtain ⟨c, ds, hds, -, hzero⟩ := Json.exists_toDigits n
  have hdigits := Text.all_toDigits n
  have hvalue := Text.naturalOf_toDigits n
  rw [hds] at hdigits hvalue
  rcases Nat.eq_zero_or_pos n with rfl | hn
  · rfl
  · rw [hds]
    unfold number?
    split
    · next h => cases h
    · next h => exact absurd (List.cons.inj h).1 (hzero hn)
    · next h => exact absurd (List.cons.inj h).1 (hzero hn)
    · next h => exact absurd (List.cons.inj h).1 (hzero hn)
    · rw [if_pos hdigits, hvalue]

/-- The weights of the bytes stand apart here, as they would be counted out otherwise. -/
theorem foldl_weights_lt {weight : Nat → Nat} (hweight : ∀ k, weight k = 256 ^ k) {first : List Nat}
    {last : Nat} (hcount : first.length ≤ 3) (hbytes : ∀ b ∈ first, b ≤ 255)
    (hlast : last < weight (4 - first.length)) :
    first.zipIdx.foldl (fun n (b, i) => n + b * weight (3 - i)) last < 0x100000000 := by
  match first, hcount with
  | [], _ =>
    change last < weight 4 at hlast
    change last < _
    rw [hweight] at hlast
    omega
  | [a], _ =>
    simp only [List.forall_mem_cons] at hbytes
    change last < weight 3 at hlast
    change last + a * weight 3 < _
    rw [hweight] at hlast ⊢
    omega
  | [a, b], _ =>
    simp only [List.forall_mem_cons] at hbytes
    change last < weight 2 at hlast
    change last + a * weight 3 + b * weight 2 < _
    simp only [hweight] at hlast ⊢
    omega
  | [a, b, c], _ =>
    simp only [List.forall_mem_cons] at hbytes
    change last < weight 1 at hlast
    change last + a * weight 3 + b * weight 2 + c * weight 1 < _
    simp only [hweight] at hlast ⊢
    omega

theorem ipv4?_lt {name : List Char} {address : Nat} (h : ipv4? name = some address) :
    address < 0x100000000 := by
  unfold ipv4? at h
  simp only at h
  split at h
  · cases h
  · next hlength =>
    obtain ⟨numbers, hnumbers, h⟩ := Option.bind_eq_some_iff.1 h
    obtain ⟨last, hlast, h⟩ := Option.bind_eq_some_iff.1 h
    obtain ⟨first, rfl⟩ := List.getLast?_eq_some_iff.1 hlast
    have hcount : first.length ≤ 3 := by
      have := (of_mapM_eq_some hnumbers).1
      rw [List.length_append, List.length_singleton] at this
      omega
    rw [List.dropLast_concat] at h
    split at h
    · cases h
    · next hbounds =>
      cases h
      simp only [Bool.or_eq_true, List.any_eq_true, decide_eq_true_eq, not_or, not_exists, not_and,
        Nat.not_lt, Nat.not_le] at hbounds
      exact foldl_weights_lt (fun _ => rfl) hcount hbounds.1 hbounds.2

/-- The four bytes of an address. -/
def bytes (address : Nat) : List Nat :=
  [address / 0x1000000, address / 0x10000 % 256, address / 256 % 256, address % 256]

/-- The bytes of an address in decimal digits, with dots between them. -/
def dottedBytes (address : Nat) : List Char :=
  List.intercalate ['.'] ((bytes address).map (Nat.toDigits 10))

theorem toList_text_ipv4 (address : Nat) : (ipv4 address).text.toList = dottedBytes address := by
  rw [text, String.toList_intercalate]
  simp [dottedBytes, bytes, Text.ofNat]

theorem labels_dottedBytes (address : Nat) :
    labels (dottedBytes address) = (bytes address).map (Nat.toDigits 10) := by
  have hdot : ∀ piece ∈ (bytes address).map (Nat.toDigits 10), ∀ x ∈ piece, (x == '.') = false := by
    intro piece hpiece x hx
    obtain ⟨b, -, rfl⟩ := List.mem_map.1 hpiece
    have hdigit := Text.isDigit_of_mem_toDigits hx
    rw [beq_eq_false_iff_ne]
    rintro rfl
    exact absurd hdigit (by decide)
  rw [dottedBytes, labels, Text.cut_intercalate rfl (by simp [bytes]) hdot]
  exact if_neg (by simp [bytes, Nat.toDigits_ne_nil])

theorem endsInNumber_dottedBytes (address : Nat) : endsInNumber (dottedBytes address) = true := by
  have hdigits := Text.all_toDigits (address % 256)
  obtain ⟨c, ds, hds, -⟩ := Json.exists_toDigits (address % 256)
  rw [hds] at hdigits
  rw [endsInNumber, labels_dottedBytes]
  simp [bytes, hds, hdigits]

theorem ipv4?_dottedBytes {address : Nat} (h : address < 0x100000000) :
    ipv4? (dottedBytes address) = some address := by
  have hfirst : ¬255 < address / 0x1000000 := by omega
  rw [ipv4?, labels_dottedBytes]
  simp [bytes, number?_toDigits]
  omega

theorem isNameChar_of_isDigit {c : Char} (h : c.isDigit = true) : isNameChar c = true := by
  have hall : ∀ d < 10, isNameChar (Char.ofNat (48 + d)) = true := by decide
  simp only [Char.isDigit, Bool.and_eq_true, decide_eq_true_eq] at h
  have hlow : 48 ≤ c.toNat := UInt32.le_iff_toNat_le.1 h.1
  have hhigh : c.toNat ≤ 57 := UInt32.le_iff_toNat_le.1 h.2
  have := hall (c.toNat - 48) (by omega)
  rwa [Nat.add_sub_of_le hlow, Char.ofNat_toNat] at this

theorem isNameChar_of_mem_dottedBytes {address : Nat} {c : Char} (h : c ∈ dottedBytes address) :
    isNameChar c = true := by
  rcases Text.eq_or_mem_of_mem_intercalate h with rfl | ⟨piece, hpiece, hc⟩
  · decide
  · obtain ⟨b, -, rfl⟩ := List.mem_map.1 hpiece
    exact isNameChar_of_isDigit (Text.isDigit_of_mem_toDigits hc)

/-! ## Groups -/

theorem value_lt (ds : List Char) (n : Nat) :
    ds.foldl (fun n d => n * 16 + (Text.hexValue? d).getD 0) n < (n + 1) * 16 ^ ds.length := by
  induction ds generalizing n with
  | nil => simp
  | cons d ds ih =>
    have hdigit : (Text.hexValue? d).getD 0 < 16 := by
      cases hd : Text.hexValue? d with
      | none => decide
      | some v =>
        have hall : Percent.hexDigits.all (fun c => (Text.hexValue? c).getD 0 < 16) = true := by decide
        have hmem : d ∈ Percent.hexDigits := Percent.mem_hexDigits (by rw [hd]; rfl)
        simpa [hd] using List.all_eq_true.1 hall d hmem
    rw [List.foldl_cons, List.length_cons, Nat.pow_succ']
    refine (ih _).trans_le ?_
    rw [← Nat.mul_assoc]
    exact Nat.mul_le_mul_right _ (by omega)

theorem lt_of_group {cs rest : List Char} {g : Nat} (h : group cs = some (g, rest)) : g < 0x10000 := by
  unfold group at h
  simp only at h
  split at h
  · cases h
  · cases h
    have hlength : ((cs.take 4).takeWhile fun c => (Text.hexValue? c).isSome).length ≤ 4 :=
      (List.takeWhile_prefix _).length_le.trans (List.length_take_le 4 cs)
    refine (value_lt _ 0).trans_le ?_
    rw [Nat.one_mul]
    exact Nat.pow_le_pow_right (by decide) hlength

theorem le_of_byte? {cs : List Char} {b : Nat} (h : byte? cs = some b) : b ≤ 255 := by
  unfold byte? at h
  split at h
  · cases h
  · cases h
    decide
  · cases h
  · split at h
    · next hbounds =>
      cases h
      simp only [Bool.and_eq_true, decide_eq_true_eq] at hbounds
      exact hbounds.2
    · cases h

theorem lt_of_mem_byteGroups? {cs : List Char} {gs : List Nat} (h : byteGroups? cs = some gs) :
    ∀ g ∈ gs, g < 0x10000 := by
  unfold byteGroups? at h
  split at h
  · next a b c d hbytes =>
    cases h
    have hle : ∀ x ∈ [a, b, c, d], x ≤ 255 := by
      intro x hx
      obtain ⟨piece, -, hpiece⟩ := (of_mapM_eq_some hbytes).2 x hx
      exact le_of_byte? hpiece
    simp only [List.forall_mem_cons] at hle ⊢
    exact ⟨by omega, by omega, List.forall_mem_nil _⟩
  · cases h

theorem lt_of_mem_groups? {n : Nat} {cs : List Char} {gs : List Nat} {p : Option Nat}
    (h : groups? n cs = some (gs, p)) : ∀ g ∈ gs, g < 0x10000 := by
  have hcons {g : Nat} {cs rest : List Char} (hg : group cs = some (g, rest)) {gs : List Nat}
      (hgs : ∀ g ∈ gs, g < 0x10000) : ∀ x ∈ g :: gs, x < 0x10000 :=
    List.forall_mem_cons.2 ⟨lt_of_group hg, hgs⟩
  fun_induction groups? n cs generalizing gs p with
  | case1 | case3 =>
    cases h
    nofun
  | case5 _ _ _ hrest _ ih =>
    cases h
    exact ih hrest
  | case8 _ _ _ _ _ hg =>
    cases h
    exact hcons hg nofun
  | case9 =>
    obtain ⟨gs, hbytes, h⟩ := Option.map_eq_some_iff.1 h
    cases h
    exact lt_of_mem_byteGroups? hbytes
  | case10 _ _ _ _ _ _ hg ih =>
    obtain ⟨⟨gs, p⟩, hrest, h⟩ := Option.map_eq_some_iff.1 h
    cases h
    exact hcons hg (ih hrest)
  | case12 _ _ _ _ _ _ _ _ hg ih =>
    obtain ⟨⟨gs, p⟩, hrest, h⟩ := Option.map_eq_some_iff.1 h
    cases h
    exact hcons hg (ih hrest)
  | case2 | case4 | case6 | case7 | case11 | case13 => cases h

theorem isSome_hexValue?_of_mem {g : Nat} {c : Char} (h : c ∈ Nat.toDigits 16 g) :
    (Text.hexValue? c).isSome := by
  induction g using Nat.strongRecOn with
  | ind g ih =>
    by_cases hlt : g < 16
    · rw [Nat.toDigits_of_lt_base hlt, List.mem_singleton] at h
      rw [h, Json.hexValue?_digitChar hlt]
      rfl
    · rw [Nat.toDigits_of_base_le (by decide) (by omega), List.mem_append, List.mem_singleton] at h
      rcases h with h | h
      · exact ih (g / 16) (by omega) h
      · rw [h, Json.hexValue?_digitChar (Nat.mod_lt _ (by decide))]
        rfl

theorem value_toDigits (g : Nat) :
    (Nat.toDigits 16 g).foldl (fun n d => n * 16 + (Text.hexValue? d).getD 0) 0 = g := by
  induction g using Nat.strongRecOn with
  | ind g ih =>
    by_cases hlt : g < 16
    · rw [Nat.toDigits_of_lt_base hlt, List.foldl_cons, List.foldl_nil, Json.hexValue?_digitChar hlt,
        Option.getD_some]
      omega
    · rw [Nat.toDigits_of_base_le (by decide) (by omega), List.foldl_append, ih (g / 16) (by omega),
        List.foldl_cons, List.foldl_nil, Json.hexValue?_digitChar (Nat.mod_lt _ (by decide)),
        Option.getD_some]
      omega

/-- The digits of a group are read up to the colon after them. -/
theorem group_toDigits {g : Nat} (hg : g < 0x10000) (rest : List Char)
    (hrest : ∀ c ∈ rest.head?, c = ':') : group (Nat.toDigits 16 g ++ rest) = some (g, rest) := by
  have hlength : (Nat.toDigits 16 g).length ≤ 4 :=
    (Nat.length_toDigits_le_iff (by decide) (by decide)).2 hg
  have hdigits : ∀ c ∈ Nat.toDigits 16 g, (Text.hexValue? c).isSome = true :=
    fun c => isSome_hexValue?_of_mem
  have hcolon (k : Nat) : (rest.take k).takeWhile (fun c => (Text.hexValue? c).isSome) = [] := by
    match rest, k with
    | [], _ => simp
    | _ :: _, 0 => rfl
    | c :: rest, k + 1 =>
      rw [List.take_succ_cons, hrest c rfl]
      rfl
  unfold group
  simp only [List.take_append, List.take_of_length_le hlength, List.takeWhile_append_of_pos hdigits,
    hcolon, List.append_nil, List.drop_left, value_toDigits]
  rw [if_neg (by simp [Nat.toDigits_ne_nil])]

section

variable {n g : Nat} (hg : g < 0x10000) {gs : List Nat} {p : Option Nat}

theorem exists_toDigits_cons (g : Nat) : ∃ c ds, Nat.toDigits 16 g = c :: ds ∧ c ≠ ':' := by
  obtain ⟨c, ds, hds⟩ := List.exists_cons_of_ne_nil (Nat.toDigits_ne_nil (b := 16) (n := g))
  have hc : (Text.hexValue? c).isSome := isSome_hexValue?_of_mem (g := g) (by rw [hds]; simp)
  refine ⟨c, ds, hds, ?_⟩
  rintro rfl
  exact absurd hc (by decide)

theorem toDigits_append_ne (g : Nat) (rest : List Char) :
    (Nat.toDigits 16 g ++ rest = [] → False) ∧
      ∀ more : List Char, Nat.toDigits 16 g ++ rest = ':' :: ':' :: more → False := by
  obtain ⟨c, ds, hds, hc⟩ := exists_toDigits_cons g
  rw [hds]
  exact ⟨nofun, fun more h => hc (List.cons.inj h).1⟩

theorem groups?_double {rest : List Char} (h : groups? n rest = some (gs, none))
    (hrest : rest.head? ≠ some ':') : groups? (n + 1) (':' :: ':' :: rest) = some (gs, some 0) := by
  rw [groups?, h]
  exact if_neg hrest

include hg

theorem groups?_last : groups? (n + 1) (Nat.toDigits 16 g) = some ([g], none) := by
  have hread := group_toDigits hg [] nofun
  have hne := toDigits_append_ne g []
  rw [List.append_nil] at hread hne
  rw [groups?, hread]
  · exact hne.1
  · exact hne.2

theorem groups?_more {more : List Char} (h : groups? n more = some (gs, p)) (hne : more ≠ [])
    (hmore : more.head? ≠ some ':') :
    groups? (n + 1) (Nat.toDigits 16 g ++ ':' :: more) = some (g :: gs, p.map (· + 1)) := by
  have hread := group_toDigits hg (':' :: more) (by simp)
  have hfirst := toDigits_append_ne g (':' :: more)
  rw [groups?, hread]
  · dsimp only
    split
    · next hnil => cases hnil
    · next hdot => exact absurd (List.cons.inj hdot).1 (by decide)
    · next hdouble =>
      rw [(List.cons.inj hdouble).2] at hmore
      exact absurd rfl hmore
    · next hsingle =>
      rw [← (List.cons.inj hsingle).2, if_neg hne, h]
      rfl
    · next hother => exact absurd rfl (hother more)
  · exact hfirst.1
  · exact hfirst.2

theorem groups?_before_double {rest : List Char} (h : groups? n (':' :: ':' :: rest) = some (gs, p)) :
    groups? (n + 1) (Nat.toDigits 16 g ++ ':' :: ':' :: rest) = some (g :: gs, p.map (· + 1)) := by
  have hread := group_toDigits hg (':' :: ':' :: rest) (by simp)
  have hne := toDigits_append_ne g (':' :: ':' :: rest)
  rw [groups?, hread]
  · dsimp only
    rw [h]
    rfl
  · exact hne.1
  · exact hne.2

end

/-- Groups in hexadecimal digits, with colons between them. -/
def hex (gs : List Nat) : List Char :=
  List.intercalate [':'] (gs.map (Nat.toDigits 16))

theorem hex_cons_cons (g g' : Nat) (gs : List Nat) :
    hex (g :: g' :: gs) = Nat.toDigits 16 g ++ ':' :: hex (g' :: gs) := by
  simp [hex, List.intercalate_cons_cons]

theorem mem_hex {gs : List Nat} {x : Char} (h : x ∈ hex gs) : x = ':' ∨ (Text.hexValue? x).isSome := by
  refine (Text.eq_or_mem_of_mem_intercalate h).imp_right ?_
  rintro ⟨piece, hpiece, hx⟩
  obtain ⟨g, -, rfl⟩ := List.mem_map.1 hpiece
  exact isSome_hexValue?_of_mem hx

theorem hex_cons_starts (g : Nat) (gs : List Nat) (rest : List Char) :
    hex (g :: gs) ++ rest ≠ [] ∧ (hex (g :: gs) ++ rest).head? ≠ some ':' := by
  obtain ⟨c, ds, hds, hc⟩ := exists_toDigits_cons g
  have hstart : ∃ tail, hex (g :: gs) = c :: tail := by
    cases gs with
    | nil => exact ⟨ds, by simp [hex, hds]⟩
    | cons g' gs => exact ⟨_, by rw [hex_cons_cons, hds, List.cons_append]⟩
  obtain ⟨tail, htail⟩ := hstart
  simp [htail, hc]

theorem groups?_hex {gs : List Nat} (hgs : ∀ g ∈ gs, g < 0x10000) {n : Nat} (hn : gs.length ≤ n) :
    groups? n (hex gs) = some (gs, none) := by
  induction gs generalizing n with
  | nil => cases n <;> rfl
  | cons g gs ih =>
    rw [List.forall_mem_cons] at hgs
    obtain _ | n := n
    · cases hn
    cases gs with
    | nil =>
      rw [hex, List.map_singleton, List.intercalate_singleton]
      exact groups?_last hgs.1
    | cons g' gs =>
      have hstart := hex_cons_starts g' gs []
      rw [List.append_nil] at hstart
      rw [hex_cons_cons]
      exact groups?_more hgs.1 (ih hgs.2 (Nat.le_of_succ_le_succ hn)) hstart.1 hstart.2

theorem groups?_hex_double {front back : List Nat} (hfront : ∀ g ∈ front, g < 0x10000)
    (hback : ∀ g ∈ back, g < 0x10000) {n : Nat} (hn : front.length + back.length < n) :
    groups? n (hex front ++ ':' :: ':' :: hex back) = some (front ++ back, some front.length) := by
  induction front generalizing n with
  | nil =>
    obtain _ | n := n
    · cases hn
    refine groups?_double (groups?_hex hback (by simp at hn; omega)) ?_
    cases back with
    | nil => exact (Option.some_ne_none ':').symm
    | cons g back =>
      have hstart := hex_cons_starts g back []
      rw [List.append_nil] at hstart
      exact hstart.2
  | cons g front ih =>
    rw [List.forall_mem_cons] at hfront
    obtain _ | n := n
    · cases hn
    have hrest := ih hfront.2 (n := n) (by simp at hn; omega)
    cases front with
    | nil =>
      rw [hex, List.map_singleton, List.intercalate_singleton]
      exact groups?_before_double hfront.1 hrest
    | cons g' front =>
      have hstart := hex_cons_starts g' front (':' :: ':' :: hex back)
      rw [hex_cons_cons, List.append_assoc, List.cons_append]
      exact groups?_more hfront.1 hrest hstart.1 hstart.2

/-- What a text leaves out is a run of at least two zeros. -/
theorem of_zeroRun {gs : List Nat} {i n : Nat} (h : zeroRun gs = some (i, n)) :
    2 ≤ n ∧ gs = gs.take i ++ (List.replicate n 0 ++ gs.drop (i + n)) := by
  have hbest : ∀ run, zeroRun gs = some run →
      2 ≤ run.2 ∧ run.2 = ((gs.drop run.1).takeWhile (· == 0)).length := by
    unfold zeroRun
    refine List.foldlRecOn (motive := fun best : Option (Nat × Nat) => ∀ run, best = some run →
      2 ≤ run.2 ∧ run.2 = ((gs.drop run.1).takeWhile (· == 0)).length) _ _ nofun
      fun best hbest run hrun run' h => ?_
    obtain ⟨⟨g, j⟩, -, rfl⟩ := List.mem_map.1 hrun
    dsimp only at h
    split at h
    · next m =>
      split at h
      · next hless =>
        cases h
        exact ⟨Nat.le_trans (hbest _ rfl).1 (Nat.le_of_lt hless), rfl⟩
      · exact hbest run' h
    · split at h
      · next htwo =>
        cases h
        exact ⟨htwo, rfl⟩
      · cases h
  obtain ⟨htwo, hlength⟩ : 2 ≤ n ∧ n = ((gs.drop i).takeWhile (· == 0)).length := hbest (i, n) h
  have hzeros : (gs.drop i).take n = List.replicate n 0 := by
    have htake := List.prefix_iff_eq_take.1 (List.takeWhile_prefix (l := gs.drop i) (· == 0))
    rw [← hlength] at htake
    rw [← htake, List.eq_replicate_iff]
    exact ⟨hlength.symm, fun g hg => by simpa using List.mem_takeWhile_imp hg⟩
  refine ⟨htwo, ?_⟩
  rw [← hzeros, ← List.drop_drop, List.take_append_drop, List.take_append_drop]

theorem ipv6?_hex {gs : List Nat} (hlength : gs.length = 8) (hgs : ∀ g ∈ gs, g < 0x10000) :
    ipv6? (hex gs) = some gs := by
  rw [ipv6?, groups?_hex hgs (by omega)]
  exact if_pos hlength

theorem ipv6?_hex_double {gs : List Nat} (hlength : gs.length = 8) (hgs : ∀ g ∈ gs, g < 0x10000)
    {i n : Nat} (h : zeroRun gs = some (i, n)) :
    ipv6? (hex (gs.take i) ++ ':' :: ':' :: hex (gs.drop (i + n))) = some gs := by
  obtain ⟨htwo, hsplit⟩ := of_zeroRun h
  have hcount := congrArg List.length hsplit
  simp only [List.length_append, List.length_replicate] at hcount
  have hread := groups?_hex_double (fun g hg => hgs g (List.mem_of_mem_take hg))
    (fun g hg => hgs g (List.mem_of_mem_drop hg))
    (show (gs.take i).length + (gs.drop (i + n)).length < 9 by omega)
  have hzeros : 8 - (gs.take i ++ gs.drop (i + n)).length = n := by
    rw [List.length_append]
    omega
  have hless : (gs.take i ++ gs.drop (i + n)).length < 8 := by
    rw [List.length_append]
    omega
  rw [ipv6?, hread]
  dsimp only
  rw [if_pos hless, hzeros, List.take_left, List.drop_left, List.append_assoc, ← hsplit]

/-- The text of an address between its brackets. -/
theorem exists_toList_text_ipv6 {gs : List Nat} (hlength : gs.length = 8)
    (hgs : ∀ g ∈ gs, g < 0x10000) :
    ∃ body, (ipv6 gs).text.toList = '[' :: (body ++ [']']) ∧
      (∀ x ∈ body, x = ':' ∨ (Text.hexValue? x).isSome) ∧ ipv6? body = some gs := by
  have htext (gs : List Nat) : (groupsText gs).toList = hex gs := by
    rw [groupsText, String.toList_intercalate, hex]
    simp [Function.comp_def]
  cases h : zeroRun gs with
  | none =>
    refine ⟨hex gs, ?_, fun x => mem_hex, ipv6?_hex hlength hgs⟩
    simp [text, h, htext]
  | some run =>
    obtain ⟨i, n⟩ := run
    refine ⟨_, ?_, fun x hx => ?_, ipv6?_hex_double hlength hgs h⟩
    · simp [text, h, htext]
    · simp only [List.mem_append, List.mem_cons] at hx
      rcases hx with hx | rfl | rfl | hx
      · exact mem_hex hx
      · exact .inl rfl
      · exact .inl rfl
      · exact mem_hex hx

/-! ## Hosts -/

/-- A host as it is read: a name in ASCII and in lower case that does not end in a number, or an address
within its bounds. -/
def IsWritten : Host → Prop
  | domain name =>
    name ≠ "" ∧ (∀ c ∈ name.toList, isNameChar c = true) ∧ endsInNumber name.toList = false
  | ipv4 address => address < 0x100000000
  | ipv6 groups => groups.length = 8 ∧ ∀ g ∈ groups, g < 0x10000

theorem isWritten_ipv6 {cs : List Char} {gs : List Nat} (h : ipv6? cs = some gs) :
    (ipv6 gs).IsWritten := by
  unfold ipv6? at h
  split at h
  · next hread =>
    split at h
    · next hlength =>
      cases h
      exact ⟨hlength, lt_of_mem_groups? hread⟩
    · cases h
  · next gs' p hread =>
    split at h
    · next hless =>
      cases h
      have hlt := lt_of_mem_groups? hread
      constructor
      · simp
        omega
      · intro g hg
        simp only [List.mem_append, List.mem_replicate] at hg
        rcases hg with (hg | ⟨-, rfl⟩) | hg
        · exact hlt g (List.mem_of_mem_take hg)
        · decide
        · exact hlt g (List.mem_of_mem_drop hg)
    · cases h
  · cases h

theorem isWritten_of_bracketed? {cs : List Char} {host : Host} (h : bracketed? cs = .ok host) :
    host.IsWritten := by
  unfold bracketed? at h
  split at h
  · split at h
    · next hread =>
      cases h
      exact isWritten_ipv6 hread
    · cases h
  · cases h

theorem isWritten_of_ofText {cs : List Char} {host : Host} (h : ofText cs = .ok host) :
    host.IsWritten := by
  unfold ofText at h
  split at h
  · cases h
  · exact isWritten_of_bracketed? h
  · simp only [ite_error_eq_ok] at h
    obtain ⟨hallowed, hne, h⟩ := h
    generalize Percent.decode _ = domain at hallowed hne h
    have hchars : ∀ c ∈ asciiDomain domain, isNameChar c = true := by
      simp only [List.any_eq_true, not_exists, not_and, Bool.not_eq_true] at hallowed
      exact fun c => isNameChar_of_mem_asciiDomain hallowed
    split at h
    · split at h
      · next hread =>
        cases h
        exact ipv4?_lt hread
      · cases h
    · next hnumber =>
      cases h
      simp only [IsWritten, String.toList_ofList]
      refine ⟨?_, hchars, Bool.eq_false_iff.2 hnumber⟩
      rw [← String.toList_inj.ne, String.toList_ofList]
      simpa using hne

/-- A host is written with the characters of a name, or between brackets. -/
theorem name_or_brackets {host : Host} (h : host.IsWritten) :
    (host.text.toList ≠ [] ∧ ∀ c ∈ host.text.toList, isNameChar c = true) ∨
      ∃ body, host.text.toList = '[' :: (body ++ [']']) ∧
        ∀ x ∈ body, x = ':' ∨ (Text.hexValue? x).isSome := by
  cases host with
  | domain name =>
    refine .inl ⟨?_, h.2.1⟩
    rw [← String.toList_empty, String.toList_inj.ne]
    exact h.1
  | ipv4 address =>
    rw [toList_text_ipv4]
    refine .inl ⟨?_, fun c => isNameChar_of_mem_dottedBytes⟩
    simp [dottedBytes, bytes, List.intercalate_cons_cons]
  | ipv6 groups =>
    obtain ⟨body, htext, hbody, -⟩ := exists_toList_text_ipv6 h.1 h.2
    exact .inr ⟨body, htext, hbody⟩

theorem toList_text_ne_nil {host : Host} (h : host.IsWritten) : host.text.toList ≠ [] := by
  rcases name_or_brackets h with ⟨hne, -⟩ | ⟨body, htext, -⟩
  · exact hne
  · rw [htext]
    exact List.cons_ne_nil _ _

theorem ofText_of_isNameChar {name : List Char} (hne : name ≠ [])
    (h : ∀ c ∈ name, isNameChar c = true) :
    ofText name = if endsInNumber name then ((ipv4? name).map ipv4).elim (.error .badIpv4) .ok
      else .ok (.domain (String.ofList name)) := by
  have hdecode : Percent.decode name = name :=
    Percent.decode_of_not_mem fun hmem => absurd (h _ hmem) (by decide)
  have hallowed : ¬name.any isForbidden = true := by
    simpa using fun c hc => (isNameChar_iff.1 (h c hc)).2.2
  have hnil : ¬name.isEmpty = true := by simpa using hne
  unfold ofText
  split
  · exact absurd rfl hne
  · exact absurd (h '[' List.mem_cons_self) (by decide)
  · dsimp only
    rw [hdecode, if_neg hallowed, asciiDomain_eq_self h, if_neg hnil]
    cases ipv4? name <;> rfl

/-- A host is read from its text. -/
theorem ofText_text {host : Host} (h : host.IsWritten) : ofText host.text.toList = .ok host := by
  have hne := toList_text_ne_nil h
  cases host with
  | domain name =>
    rw [text] at hne ⊢
    rw [ofText_of_isNameChar hne h.2.1, h.2.2, String.ofList_toList]
    rfl
  | ipv4 address =>
    rw [toList_text_ipv4] at hne ⊢
    rw [ofText_of_isNameChar hne fun c => isNameChar_of_mem_dottedBytes, endsInNumber_dottedBytes,
      ipv4?_dottedBytes h]
    rfl
  | ipv6 groups =>
    obtain ⟨body, htext, -, hread⟩ := exists_toList_text_ipv6 h.1 h.2
    rw [htext, ofText, bracketed?, if_pos (by simp), List.dropLast_concat, hread]

end Host
end RestSql
