import Mathlib.Data.List.TakeWhile
import RestSql.Proofs.JsonReading
import RestSql.ResultSet.Shape

/-!
# The order in which rows are sorted

Cells of unlike kinds are compared in unlike ways: texts as texts, truth values as truth values, a number
with a text that can be read as one by value, and everything else by the text that is shown. Where
numbers do not meet texts, all of this is one order, by a key that each cell has on its own
(`sortOrder_eq_order`). It takes the missing cells first, then the numbers by value, then the texts of all
else, as the text of a number starts with a digit or a minus sign and that of a list, an object or a truth
value with a greater character.

Where they do meet there is no such key: `text_number_cycle` has two texts and a number.
-/

namespace RestSql

/-! ## How the text of a number starts -/

/-- Decimal digits, at least one. -/
def AreDigits (ds : List Char) : Prop :=
  ds ≠ [] ∧ ∀ c ∈ ds, c.isDigit = true

theorem AreDigits.exists_cons {ds : List Char} (h : AreDigits ds) :
    ∃ c rest, ds = c :: rest ∧ c.isDigit = true := by
  obtain ⟨c, rest, rfl⟩ := List.exists_cons_of_ne_nil h.1
  exact ⟨c, rest, rfl, h.2 c List.mem_cons_self⟩

namespace Binary64

theorem isNaN_of_isFinite {x : Binary64} (h : x.isFinite = true) : x.isNaN = false := by
  simp only [isFinite, decide_eq_true_eq] at h
  exact decide_eq_false (Nat.not_lt.2 (Nat.le_of_lt h))

theorem Interval.ne_zero_of_onGrid? {i : Interval} {tie : DecimalTie} {num den q : Nat}
    (h : i.onGrid? tie num den = some q) : q ≠ 0 := by
  unfold onGrid? at h
  dsimp only at h
  split at h
  · next hlow _ =>
    have hq : i.mid * den / (i.den * num) ≠ 0 := by simpa using (Bool.and_eq_true_iff.1 hlow).1
    cases h
    split
    · exact hq
    · exact Nat.succ_ne_zero _
  · next hlow _ =>
    cases h
    simpa using (Bool.and_eq_true_iff.1 hlow).1
  · cases h
    exact Nat.succ_ne_zero _
  · cases h

theorem shortestFrom_ne_zero (i : Interval) (tie : DecimalTie) (point : Int) (fuel : Nat)
    (count : Int) : (shortestFrom i tie point fuel count).1 ≠ 0 := by
  induction fuel generalizing count with
  | zero =>
      rw [shortestFrom]
      dsimp only
      cases h : i.onGrid? tie 1 1 with
      | none => exact Nat.one_ne_zero
      | some q => exact Interval.ne_zero_of_onGrid? h
  | succ fuel ih =>
      rw [shortestFrom]
      split
      · next q hq =>
        split at hq
        · exact Interval.ne_zero_of_onGrid? hq
        · exact Interval.ne_zero_of_onGrid? hq
      · exact ih _

theorem areDigits_significantDigits {q : Nat} (hq : q ≠ 0) : AreDigits (significantDigits q) := by
  refine ⟨fun h => ?_, fun c hc => ?_⟩
  · obtain ⟨c, ds, hds, -, hzero⟩ := Json.exists_toDigits q
    have hall := List.dropWhile_eq_nil_iff.1 (List.reverse_eq_nil_iff.1 h) c (by simp [hds])
    exact hzero (Nat.pos_of_ne_zero hq) (by simpa using hall)
  · have hmem := (List.dropWhile_suffix _).subset (List.mem_reverse.1 hc)
    exact Text.isDigit_of_mem_toDigits (List.mem_reverse.1 hmem)

theorem areDigits_shortest (tie : DecimalTie) (x : Binary64) : AreDigits (x.shortest tie).digits := by
  unfold shortest
  split
  · exact ⟨by simp, by simp⟩
  · exact areDigits_significantDigits (shortestFrom_ne_zero _ _ _ _ _)

end Binary64

/-- The text starts as the text of a number does. -/
def StartsNumber (s : String) : Prop :=
  ∃ c rest, s.toList = c :: rest ∧ (c = '-' ∨ c.isDigit = true)

theorem AreDigits.startsNumber_append {ds : List Char} (h : AreDigits ds) (rest : String) :
    StartsNumber (String.ofList ds ++ rest) := by
  obtain ⟨c, ds, rfl, hc⟩ := h.exists_cons
  exact ⟨c, ds ++ rest.toList, by simp, Or.inr hc⟩

theorem DecimalLayout.startsNumber_place (l : DecimalLayout) {d : Decimal}
    (h : AreDigits d.digits) : StartsNumber (l.place d) := by
  unfold place
  dsimp only
  split
  · exact ⟨'0', _, by rw [String.toList_append]; rfl, Or.inr rfl⟩
  · split
    · refine AreDigits.startsNumber_append ⟨fun h' => h.1 (List.append_eq_nil_iff.1 h').1, ?_⟩ _
      intro c hc
      rcases List.mem_append.1 hc with hc | hc
      · exact h.2 c hc
      · rw [(List.mem_replicate.1 hc).2]
        rfl
    · next hpoint hlength =>
      rw [String.append_assoc]
      refine AreDigits.startsNumber_append ⟨fun h' => ?_, fun c hc => ?_⟩ _
      · rcases List.take_eq_nil_iff.1 h' with h' | h'
        · omega
        · exact h.1 h'
      · exact h.2 c (List.mem_of_mem_take hc)

theorem DecimalLayout.startsNumber_scientific {d : Decimal} (h : AreDigits d.digits) :
    StartsNumber (scientific d) := by
  unfold scientific
  dsimp only
  rw [String.append_assoc, String.append_assoc]
  refine AreDigits.startsNumber_append ⟨fun h' => ?_, fun c hc => ?_⟩ _
  · rcases List.take_eq_nil_iff.1 h' with h' | h'
    · cases h'
    · exact h.1 h'
  · exact h.2 c (List.mem_of_mem_take hc)

theorem DecimalLayout.startsNumber_write (l : DecimalLayout) {x : Binary64}
    (h : x.isFinite = true) : StartsNumber (l.write x) := by
  have hnan := Binary64.isNaN_of_isFinite h
  have hdigits := x.areDigits_shortest l.tie
  have hmagnitude : ∀ positional : Bool, StartsNumber
      (if positional then l.place (x.shortest l.tie) else scientific (x.shortest l.tie)) := by
    rintro (_ | _)
    · exact startsNumber_scientific hdigits
    · exact l.startsNumber_place hdigits
  unfold write
  simp only [hnan, h, Bool.false_eq_true, if_false, Bool.not_true]
  cases x.negative with
  | false =>
      rw [if_neg Bool.false_ne_true, String.empty_append]
      exact hmagnitude _
  | true => exact ⟨'-', _, by rw [if_pos rfl, String.toList_append]; rfl, Or.inl rfl⟩

/-- The number is finite, as all numbers of JSON are. -/
def JsonNumber.isFinite : JsonNumber → Bool
  | .integer _ => true
  | .float x => x.isFinite

theorem JsonNumber.startsNumber_write {n : JsonNumber} (h : n.isFinite = true) :
    StartsNumber n.write := by
  cases n with
  | float x => exact layout.startsNumber_write h
  | integer n =>
      obtain ⟨c, ds, hds, hc, -⟩ := Json.exists_toDigits n.natAbs
      by_cases hn : n < 0
      · exact ⟨'-', _, Text.toList_ofInt_of_neg hn, Or.inl rfl⟩
      · exact ⟨c, ds, by rw [write, Text.toList_ofInt_of_nonneg hn, hds], Or.inr hc⟩

theorem Binary64.isNaN_ofRatio (negative : Bool) (num den : Nat) :
    (ofRatio negative num den).isNaN = false := by
  unfold ofRatio
  split
  · rfl
  · exact decide_eq_false (Nat.not_lt.2 (Nat.min_le_right _ _))

theorem Binary64.isNaN_ofInt (n : Int) : (ofInt n).isNaN = false :=
  isNaN_ofRatio _ _ _

theorem JsonNumber.isNaN_toBinary {n : JsonNumber} (h : n.isFinite = true) :
    n.toBinary.isNaN = false := by
  cases n with
  | integer n => exact Binary64.isNaN_ofInt n
  | float x => exact Binary64.isNaN_of_isFinite h

theorem Binary64.compare?_swap (x y : Binary64) :
    compare? y x = (compare? x y).map Ordering.swap := by
  unfold compare?
  rw [Bool.or_comm]
  split
  · rfl
  · exact congrArg some Std.OrientedCmp.eq_swap

/-! ## Kinds of cells -/

/-- What stands in a cell; null and no value at all are the same. -/
inductive CellKind
  | missing
  | flag
  | number
  | text
  | list
  | object
  deriving DecidableEq, Repr

/-- The kind of a cell. -/
def CellKind.of : Option Json → CellKind
  | none | some .null => missing
  | some (.bool _) => flag
  | some (.number _) => number
  | some (.string _) => text
  | some (.array _) => list
  | some (.object _) => object

/-- The numbers in the cell are numbers of JSON. -/
def HasFinite (cell : Option Json) : Prop :=
  ∀ n, cell = some (.number n) → n.isFinite = true

/-- One of the cells is a number and the other a text. -/
def Clash (a b : Option Json) : Prop :=
  (CellKind.of a = .number ∧ CellKind.of b = .text) ∨
    (CellKind.of a = .text ∧ CellKind.of b = .number)

/-- What cells are sorted by: a missing one comes first, then come the numbers by their value, and all else
comes last, by its text. -/
structure SortKey where
  group : Nat
  rank : Int
  text : String

namespace SortKey

def order : SortKey → SortKey → Ordering :=
  compareLex (compareOn group) (compareLex (compareOn rank) (compareOn text))

def ofCell : Option Json → SortKey
  | none | some .null => ⟨0, 0, ""⟩
  | some (.number n) => ⟨1, n.toBinary.rank, ""⟩
  | some v => ⟨2, 0, v.cellText⟩

instance : Std.TransCmp order :=
  inferInstanceAs (Std.TransCmp (compareLex _ _))

theorem order_of_group_lt {k l : SortKey} (h : k.group < l.group) : k.order l = .lt := by
  have hgroup : compare k.group l.group = .lt := Nat.compare_eq_lt.2 h
  rw [order, compareLex, compareOn, hgroup]
  rfl

theorem order_of_lt_group {k l : SortKey} (h : l.group < k.group) : k.order l = .gt := by
  have hswap : k.order l = (l.order k).swap := Std.OrientedCmp.eq_swap
  rw [hswap, order_of_group_lt h]
  rfl

theorem order_self (k : SortKey) : k.order k = .eq :=
  Std.ReflCmp.compare_self

theorem order_ranks (group : Nat) (m n : Int) (text : String) :
    order ⟨group, m, text⟩ ⟨group, n, text⟩ = compare m n := by
  simp [order, compareLex, compareOn]

theorem order_texts (group : Nat) (rank : Int) (s t : String) :
    order ⟨group, rank, s⟩ ⟨group, rank, t⟩ = compare s t := by
  simp [order, compareLex, compareOn]

end SortKey

namespace Json

variable {v w : Json}

theorem compareOfLessAndEq_eq_lt {s t : String} {c d : Char} {cs ds : List Char}
    (hs : s.toList = c :: cs) (ht : t.toList = d :: ds) (h : c < d) :
    compareOfLessAndEq s t = .lt := by
  rw [compareOfLessAndEq, if_pos]
  rw [String.lt_iff, hs, ht]
  exact List.cons_lt_cons_iff.2 (Or.inl h)

theorem compareTexts_swap (s t : String) :
    compareOfLessAndEq t s = (compareOfLessAndEq s t).swap := by
  have hswap : compare t s = (compare s t).swap := Std.OrientedOrd.eq_swap
  exact hswap

/-- Values of which not both are texts and not both truth values are compared as numbers. -/
theorem compare?_of_ne (hs : ∀ s t, v = string s → w ≠ string t)
    (hb : ∀ b c, v = bool b → w ≠ bool c) :
    compare? v w = v.number?.bind fun x => w.number?.bind x.compare? := by
  rw [compare?]
  · cases v.number? <;> cases w.number? <;> rfl
  · exact hs
  · exact hb

theorem compare?_swap (v w : Json) : compare? w v = (compare? v w).map Ordering.swap := by
  by_cases hs : ∃ s t, v = string s ∧ w = string t
  · obtain ⟨s, t, rfl, rfl⟩ := hs
    exact congrArg some (compareTexts_swap s t)
  by_cases hb : ∃ b c, v = bool b ∧ w = bool c
  · obtain ⟨b, c, rfl, rfl⟩ := hb
    exact congrArg some Std.OrientedCmp.eq_swap
  have hne := compare?_of_ne (v := v) (w := w) (fun s t hv hw => hs ⟨s, t, hv, hw⟩)
    fun b c hv hw => hb ⟨b, c, hv, hw⟩
  have hne' := compare?_of_ne (v := w) (w := v) (fun s t hw hv => hs ⟨t, s, hv, hw⟩)
    fun b c hw hv => hb ⟨c, b, hv, hw⟩
  rw [hne, hne']
  cases v.number? with
  | none => cases w.number? <;> rfl
  | some x =>
      cases w.number? with
      | none => rfl
      | some y => exact x.compare?_swap y

theorem compareCells_swap (v w : Json) : w.compareCells v = (v.compareCells w).swap := by
  rw [compareCells, compareCells, compare?_swap, compareTexts_swap]
  cases compare? v w <;> rfl

/-- Values that are no numbers are compared by their texts. -/
theorem compareCells_texts (hv : CellKind.of (some v) ≠ .number)
    (hw : CellKind.of (some w) ≠ .number) : v.compareCells w = compare v.cellText w.cellText := by
  cases v <;> cases w <;> simp_all [CellKind.of, compareCells, compare?, number?]
  case bool.bool b c => cases b <;> cases c <;> decide
  all_goals rfl

theorem compareCells_numbers {m n : JsonNumber} (hm : m.isFinite = true) (hn : n.isFinite = true) :
    (number m).compareCells (number n) = compare m.toBinary.rank n.toBinary.rank := by
  have hcompare := Binary64.compare?_eq_some (JsonNumber.isNaN_toBinary hm)
    (JsonNumber.isNaN_toBinary hn)
  rw [compareCells, compare?_of_ne (by simp) (by simp)]
  simp only [number?, Option.bind_some, hcompare, Option.getD_some]

theorem exists_cellText_of_other (hnull : v ≠ null) (hnumber : CellKind.of (some v) ≠ .number)
    (htext : CellKind.of (some v) ≠ .text) :
    v.number? = none ∧ ∃ d ds, v.cellText.toList = d :: ds ∧ 0x39 < d.toNat := by
  cases v with
  | null => exact absurd rfl hnull
  | number => exact absurd rfl hnumber
  | string => exact absurd rfl htext
  | bool b =>
      cases b with
      | false => exact ⟨rfl, 'f', "alse".toList, rfl, by decide⟩
      | true => exact ⟨rfl, 't', "rue".toList, rfl, by decide⟩
  | array => exact ⟨rfl, '[', "array]".toList, by simp [cellText], by decide⟩
  | object => exact ⟨rfl, '\x7b', "object\x7d".toList, by simp [cellText], by decide⟩

/-- A number is compared by its text with what is neither number nor text. It comes before these. -/
theorem compareCells_number_other {n : JsonNumber} (hn : n.isFinite = true) (hnull : w ≠ null)
    (hnumber : CellKind.of (some w) ≠ .number) (htext : CellKind.of (some w) ≠ .text) :
    (number n).compareCells w = .lt := by
  obtain ⟨c, cs, hcs, hc⟩ := JsonNumber.startsNumber_write hn
  obtain ⟨hnone, d, ds, hds, hd⟩ := exists_cellText_of_other hnull hnumber htext
  have hlow : c.toNat ≤ 0x39 := by
    rcases hc with rfl | hc
    · decide
    · exact (Char.isDigit_iff_toNat.1 hc).2
  rw [compareCells, compare?_of_ne (by simp) (by simp), hnone]
  simp only [number?, Option.bind_some, Option.bind_none, Option.getD_none]
  exact compareOfLessAndEq_eq_lt hcs hds (Nat.lt_of_le_of_lt hlow hd)

/-! ## Sorting -/

theorem ofCell_other (hnull : v ≠ null) (hnumber : CellKind.of (some v) ≠ .number) :
    SortKey.ofCell (some v) = ⟨2, 0, v.cellText⟩ := by
  cases v with
  | null => exact absurd rfl hnull
  | number => exact absurd rfl hnumber
  | _ => rfl

theorem exists_number_of_kind (h : CellKind.of (some v) = .number) : ∃ n, v = number n := by
  cases v with
  | number n => exact ⟨n, rfl⟩
  | _ => cases h

/-- Two values of which none is a number and the other a text are in the order of their keys. -/
theorem compareCells_eq_order (hv : HasFinite (some v)) (hw : HasFinite (some w)) (hvnull : v ≠ null)
    (hwnull : w ≠ null) (h : ¬Clash (some v) (some w)) :
    v.compareCells w = (SortKey.ofCell (some v)).order (SortKey.ofCell (some w)) := by
  obtain ⟨hclash, hclash'⟩ := not_or.1 h
  by_cases hvn : CellKind.of (some v) = .number <;> by_cases hwn : CellKind.of (some w) = .number
  · obtain ⟨m, rfl⟩ := exists_number_of_kind hvn
    obtain ⟨n, rfl⟩ := exists_number_of_kind hwn
    rw [compareCells_numbers (hv m rfl) (hw n rfl)]
    exact (SortKey.order_ranks 1 _ _ "").symm
  · obtain ⟨m, rfl⟩ := exists_number_of_kind hvn
    rw [compareCells_number_other (hv m rfl) hwnull hwn fun ht => hclash ⟨rfl, ht⟩,
      ofCell_other hwnull hwn, SortKey.order_of_group_lt]
    exact Nat.one_lt_two
  · obtain ⟨n, rfl⟩ := exists_number_of_kind hwn
    rw [compareCells_swap, compareCells_number_other (hw n rfl) hvnull hvn fun ht => hclash' ⟨ht, rfl⟩,
      ofCell_other hvnull hvn, SortKey.order_of_lt_group Nat.one_lt_two]
    rfl
  · rw [compareCells_texts hvn hwn, ofCell_other hvnull hvn, ofCell_other hwnull hwn,
      SortKey.order_texts]

/-- A cell is missing, or it has a value to sort by. -/
theorem missing_or_exists (a : Option Json) :
    (a.filter (!isNull ·) = none ∧ SortKey.ofCell a = ⟨0, 0, ""⟩) ∨
      ∃ v, a = some v ∧ v ≠ null ∧ a.filter (!isNull ·) = some v ∧
        0 < (SortKey.ofCell a).group := by
  cases a with
  | none => exact Or.inl ⟨rfl, rfl⟩
  | some v =>
      cases v with
      | null => exact Or.inl ⟨rfl, rfl⟩
      | number n => exact Or.inr ⟨_, rfl, nofun, rfl, Nat.one_pos⟩
      | _ => exact Or.inr ⟨_, rfl, nofun, rfl, Nat.two_pos⟩

variable {a b c : Option Json}

theorem sortOrder_eq_order (ha : HasFinite a) (hb : HasFinite b) (h : ¬Clash a b) :
    sortOrder a b = (SortKey.ofCell a).order (SortKey.ofCell b) := by
  unfold sortOrder
  rcases missing_or_exists a with ⟨hfa, hka⟩ | ⟨v, rfl, hvnull, hfa, hga⟩ <;>
    rcases missing_or_exists b with ⟨hfb, hkb⟩ | ⟨w, rfl, hwnull, hfb, hgb⟩ <;>
    rw [hfa, hfb]
  · rw [hka, hkb, SortKey.order_self]
  · rw [hka, SortKey.order_of_group_lt hgb]
  · rw [hkb, SortKey.order_of_lt_group hga]
  · exact compareCells_eq_order ha hb hvnull hwnull h

theorem sortOrder_self (a : Option Json) : sortOrder a a = .eq := by
  unfold sortOrder
  cases a.filter (!isNull ·) with
  | none => rfl
  | some v =>
      have hv := v.compareCells_swap v
      show v.compareCells v = .eq
      cases h : v.compareCells v <;> rw [h] at hv <;> first | rfl | cases hv

theorem sortOrder_swap (a b : Option Json) : sortOrder b a = (sortOrder a b).swap := by
  unfold sortOrder
  cases a.filter (!isNull ·) <;> cases b.filter (!isNull ·)
  · rfl
  · rfl
  · rfl
  · exact compareCells_swap _ _

/-- Cells that can be sorted: they are not both numbers and texts. -/
structure Sortable (cells : Option Json → Prop) : Prop where
  finite : ∀ a, cells a → HasFinite a
  unmixed : ∀ a b, cells a → cells b → ¬Clash a b

theorem Sortable.isLE_trans {cells : Option Json → Prop} (h : Sortable cells) (ha : cells a)
    (hb : cells b) (hc : cells c) (hab : (sortOrder a b).isLE = true)
    (hbc : (sortOrder b c).isLE = true) : (sortOrder a c).isLE = true := by
  rw [sortOrder_eq_order (h.finite a ha) (h.finite b hb) (h.unmixed a b ha hb)] at hab
  rw [sortOrder_eq_order (h.finite b hb) (h.finite c hc) (h.unmixed b c hb hc)] at hbc
  rw [sortOrder_eq_order (h.finite a ha) (h.finite c hc) (h.unmixed a c ha hc)]
  exact Std.TransCmp.isLE_trans hab hbc

/-- Two texts are compared as texts, and each of them with a number as numbers. -/
theorem text_number_cycle :
    (sortOrder (some (string "10")) (some (string "9"))).isLE = true ∧
      (sortOrder (some (string "9")) (some (ofInt 9))).isLE = true ∧
      (sortOrder (some (string "10")) (some (ofInt 9))).isLE = false := by
  decide +kernel

/-- Sorting by cells of some kinds is transitive just if these are not both numbers and texts. -/
theorem isLE_trans_iff (kinds : CellKind → Prop) :
    (∀ a b c, (∀ x ∈ [a, b, c], HasFinite x ∧ kinds (CellKind.of x)) →
        (sortOrder a b).isLE = true → (sortOrder b c).isLE = true → (sortOrder a c).isLE = true) ↔
      ¬(kinds .number ∧ kinds .text) := by
  constructor
  · rintro htrans ⟨hnumber, htext⟩
    obtain ⟨hab, hbc, hac⟩ := text_number_cycle
    have hac' := htrans (some (string "10")) (some (string "9")) (some (ofInt 9)) ?_ hab hbc
    · rw [hac] at hac'
      cases hac'
    · simp only [List.forall_mem_cons, List.not_mem_nil, false_implies, implies_true, and_true]
      refine ⟨⟨nofun, htext⟩, ⟨nofun, htext⟩, fun n hn => ?_, hnumber⟩
      cases hn
      rfl
  · intro hkinds a b c hcells
    have hsortable : Sortable fun x => HasFinite x ∧ kinds (CellKind.of x) := by
      refine ⟨fun x hx => hx.1, fun x y hx hy hclash => hkinds ?_⟩
      rcases hclash with ⟨hnx, hty⟩ | ⟨htx, hny⟩
      · exact ⟨hnx ▸ hx.2, hty ▸ hy.2⟩
      · exact ⟨hny ▸ hy.2, htx ▸ hx.2⟩
    simp only [List.forall_mem_cons, List.not_mem_nil, false_implies, implies_true, and_true] at hcells
    exact hsortable.isLE_trans hcells.1 hcells.2.1 hcells.2.2

end Json

namespace Shape

open Json (Sortable sortOrder sortOrder_self sortOrder_swap text_number_cycle isLE_trans_iff)

variable {p : Projection} {rows : Row → Prop}

theorem compareRows_self (p : Projection) (os : List Sql.OrderBy) (a : Row) :
    compareRows p a a os = .eq := by
  induction os with
  | nil => rfl
  | cons o os ih =>
      rw [compareRows, sortOrder_self, ih]
      cases o.descending <;> rfl

theorem compareRows_swap (p : Projection) (os : List Sql.OrderBy) (a b : Row) :
    compareRows p b a os = (compareRows p a b os).swap := by
  induction os with
  | nil => rfl
  | cons o os ih =>
      rw [compareRows, compareRows, Ordering.swap_then, ← ih]
      rw [sortOrder_swap (a.cell? (p.columnOf o.column))]
      cases o.descending <;> rfl

/-- The cells of the rows in a column. -/
def cellsIn (rows : Row → Prop) (column : String) (cell : Option Json) : Prop :=
  ∃ row, rows row ∧ row.cell? column = cell

/-- The order of rows by one column. -/
def compareBy (p : Projection) (o : Sql.OrderBy) (a b : Row) : Ordering :=
  let order := sortOrder (a.cell? (p.columnOf o.column)) (b.cell? (p.columnOf o.column))
  if o.descending then order.swap else order

theorem transCmp_compareBy {o : Sql.OrderBy}
    (h : Sortable (cellsIn rows (p.columnOf o.column))) :
    Std.TransCmp fun a b : Subtype rows => compareBy p o a b where
  eq_swap {a b} := by
    unfold compareBy
    rw [sortOrder_swap (b.1.cell? _)]
    cases o.descending <;> rfl
  isLE_trans {a b c} hab hbc := by
    have hcell (r : Subtype rows) : cellsIn rows (p.columnOf o.column) (r.1.cell? (p.columnOf o.column)) :=
      ⟨r.1, r.2, rfl⟩
    unfold compareBy at *
    cases hd : o.descending with
    | false =>
        simp only [hd, Bool.false_eq_true, if_false] at hab hbc ⊢
        exact h.isLE_trans (hcell a) (hcell b) (hcell c) hab hbc
    | true =>
        simp only [hd, if_true, ← sortOrder_swap] at hab hbc ⊢
        exact h.isLE_trans (hcell c) (hcell b) (hcell a) hbc hab

theorem transCmp_compareRows {os : List Sql.OrderBy}
    (h : ∀ o ∈ os, Sortable (cellsIn rows (p.columnOf o.column))) :
    Std.TransCmp fun a b : Subtype rows => compareRows p a b os := by
  induction os with
  | nil => exact { eq_swap := rfl, isLE_trans := fun _ _ => rfl }
  | cons o os ih =>
      obtain ⟨ho, hos⟩ := List.forall_mem_cons.1 h
      have := transCmp_compareBy ho
      have := ih hos
      exact inferInstanceAs (Std.TransCmp (compareLex (fun a b : Subtype rows => compareBy p o a b)
        fun a b : Subtype rows => compareRows p a b os))

/-- The order of cells, and with it the order of rows by any columns, puts nothing before itself, and it is
reversed when the two sides change places. It is transitive on cells of some kinds just if these are not
both numbers and texts, and on rows that have not both in a column to sort by. -/
theorem preorder_iff_unmixed (p : Projection) (os : List Sql.OrderBy) :
    (∀ a b, sortOrder a a = .eq ∧ sortOrder b a = (sortOrder a b).swap) ∧
    (∀ kinds : CellKind → Prop,
      (∀ a b c, (∀ x ∈ [a, b, c], HasFinite x ∧ kinds (CellKind.of x)) →
          (sortOrder a b).isLE = true → (sortOrder b c).isLE = true →
          (sortOrder a c).isLE = true) ↔
        ¬(kinds .number ∧ kinds .text)) ∧
    (∀ a b, compareRows p a a os = .eq ∧ compareRows p b a os = (compareRows p a b os).swap) ∧
    (∀ rows : Row → Prop, (∀ o ∈ os, Sortable (cellsIn rows (p.columnOf o.column))) →
      ∀ a b c, rows a → rows b → rows c → (compareRows p a b os).isLE = true →
        (compareRows p b c os).isLE = true → (compareRows p a c os).isLE = true) := by
  refine ⟨fun a b => ⟨sortOrder_self a, sortOrder_swap a b⟩, isLE_trans_iff,
    fun a b => ⟨compareRows_self p os a, compareRows_swap p os a b⟩, ?_⟩
  intro rows hrows a b c ha hb hc hab hbc
  have := transCmp_compareRows hrows
  exact @Std.TransCmp.isLE_trans _ (fun a b : Subtype rows => compareRows p a b os) this
    ⟨a, ha⟩ ⟨b, hb⟩ ⟨c, hc⟩ hab hbc

/-- Rows with a number, with a truth value and without a value are sorted by that column, the latest first. -/
theorem preorder_iff_unmixed_flags :
    let rows : List Row := [[("size", .bool true)], [("size", .ofInt 9)], []]
    ∀ a ∈ rows, ∀ b ∈ rows, ∀ c ∈ rows,
      (compareRows [] a b [⟨"size", true⟩]).isLE = true →
      (compareRows [] b c [⟨"size", true⟩]).isLE = true →
      (compareRows [] a c [⟨"size", true⟩]).isLE = true := by
  intro rows a ha b hb c hc
  refine (preorder_iff_unmixed [] [⟨"size", true⟩]).2.2.2 (· ∈ rows) ?_ a b c ha hb hc
  have hcells : ∀ cell, cellsIn (· ∈ rows) "size" cell →
      cell = some (.bool true) ∨ cell = some (.ofInt 9) ∨ cell = none := by
    rintro cell ⟨row, hrow, rfl⟩
    simp only [rows, List.mem_cons, List.not_mem_nil, or_false] at hrow
    rcases hrow with rfl | rfl | rfl
    · exact Or.inl rfl
    · exact Or.inr (Or.inl rfl)
    · exact Or.inr (Or.inr rfl)
  simp only [List.forall_mem_cons, List.not_mem_nil, false_implies, implies_true, and_true]
  constructor
  · intro cell hcell n hn
    rcases hcells cell hcell with rfl | rfl | rfl <;> cases hn
    rfl
  · intro x y hx hy hclash
    rcases hcells x hx with rfl | rfl | rfl <;> rcases hcells y hy with rfl | rfl | rfl <;>
      simp [Clash, CellKind.of, Json.ofInt] at hclash

/-- The text `10` comes before the text `9`, which is equal to the number 9, and this comes before the text
`10`. -/
theorem not_preorder_of_mixed :
    ¬∀ a b c : Option Json, (sortOrder a b).isLE = true → (sortOrder b c).isLE = true →
      (sortOrder a c).isLE = true := by
  intro htrans
  obtain ⟨hab, hbc, hac⟩ := text_number_cycle
  exact absurd (htrans _ _ _ hab hbc) (by rw [hac]; decide)

end Shape

end RestSql
