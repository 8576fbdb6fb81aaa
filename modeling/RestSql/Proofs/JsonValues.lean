import RestSql.Json.Reader

/-!
# Well-formed JSON values

The objects of JSON values are tables and their integers have 64 bits. Every value that is read from a
text is such a value (`Json.isWellFormed_of_ofText?`).
-/

namespace RestSql.Json

/-- The integer is one that a number of JSON can be. -/
def isWord (n : Int) : Bool :=
  if n < 0 then Word.isSigned n else Word.isUnsigned n.natAbs

mutual

/-- The objects in the value are tables, and the integers have 64 bits. -/
def isWellFormed : Json → Bool
  | .null | .bool _ | .string _ | .number (.float _) => true
  | .number (.integer n) => isWord n
  | .array items => areWellFormed items
  | .object fields => decide (fields.Pairwise fun a b => a.1 < b.1) && haveWellFormed fields

def areWellFormed : List Json → Bool
  | [] => true
  | v :: vs => isWellFormed v && areWellFormed vs

def haveWellFormed : List (String × Json) → Bool
  | [] => true
  | (_, v) :: fields => isWellFormed v && haveWellFormed fields

end

mutual

/-- The value has no fractional numbers, and it is nested at most `depth` levels deep. -/
def isPlain (depth : Nat) : Json → Bool
  | .null | .bool _ | .string _ | .number (.integer _) => true
  | .number (.float _) => false
  | .array items => 0 < depth && arePlain (depth - 1) items
  | .object fields => 0 < depth && havePlain (depth - 1) fields

def arePlain (depth : Nat) : List Json → Bool
  | [] => true
  | v :: vs => isPlain depth v && arePlain depth vs

def havePlain (depth : Nat) : List (String × Json) → Bool
  | [] => true
  | (_, v) :: fields => isPlain depth v && havePlain depth fields

end

/-! ## Objects -/

theorem haveWellFormed_iff {fields : List (String × Json)} :
    haveWellFormed fields = true ↔ ∀ e ∈ fields, e.2.isWellFormed = true := by
  induction fields with
  | nil => simp [haveWellFormed]
  | cons e fields ih =>
      obtain ⟨k, v⟩ := e
      simp [haveWellFormed, ih]

theorem isWellFormed_object {fields : Fields} :
    isWellFormed (.object fields) = true ↔
      Dict.Sorted fields ∧ ∀ e ∈ fields, e.2.isWellFormed = true := by
  rw [isWellFormed, Bool.and_eq_true, decide_eq_true_eq, haveWellFormed_iff]
  exact Iff.rfl

theorem isWellFormed_ofFields {entries : List (String × Json)}
    (h : ∀ e ∈ entries, e.2.isWellFormed = true) : (ofFields entries).isWellFormed = true := by
  rw [ofFields, isWellFormed_object]
  refine ⟨Dict.sorted_ofEntries entries, fun e he => ?_⟩
  exact h e (Dict.mem_ofEntries he)

/-! ## Values that are read -/

theorem isUnsigned_appendDigits {n : Nat} (h : Word.isUnsigned n = true) (ds : List Char) :
    Word.isUnsigned (appendDigits n ds).1 = true := by
  induction ds generalizing n with
  | nil => exact h
  | cons d ds ih =>
      rw [appendDigits]
      dsimp only
      split
      · next hnext => exact ih hnext
      · exact h

theorem isWord_of_isUnsigned {n : Nat} (h : Word.isUnsigned n = true) : isWord n = true := by
  have hn : ¬((n : Int) < 0) := by omega
  simp [isWord, hn, h]

theorem isWord_of_isSigned {n : Int} (h : Word.isSigned n = true) : isWord n = true := by
  by_cases hn : n < 0
  · simp [isWord, hn, h]
  · have hnat : Word.isSigned (n.natAbs : Int) = true := by
      rwa [Int.natAbs_of_nonneg (by omega)]
    simp [isWord, hn, Word.isUnsigned_of_isSigned hnat]

theorem Numeral.isWellFormed_of_value? {n : Numeral} {v : JsonNumber} (h : n.value? = some v) :
    (Json.number v).isWellFormed = true := by
  cases v with
  | float x => rfl
  | integer k =>
      have hunsigned : Word.isUnsigned (appendDigits 0 n.whole).1 = true :=
        isUnsigned_appendDigits (by decide) n.whole
      unfold Numeral.value? at h
      rcases hdigits : appendDigits 0 n.whole with ⟨m, taken⟩
      rw [hdigits] at h hunsigned
      dsimp only at h
      split at h
      · split at h
        · cases h
          exact isWord_of_isUnsigned hunsigned
        · split at h
          · next hsigned =>
            cases h
            exact isWord_of_isSigned (Bool.and_eq_true_iff.1 hsigned).2
          · cases h
      -- whatever else is written is a fractional number
      · repeat' split at h
        all_goals first
          | cases h
          | obtain ⟨_, -, hfloat⟩ := Option.map_eq_some_iff.1 h
            cases hfloat

mutual

theorem isWellFormed_of_value? {t : Tree} {depth : Nat} {v : Json} (h : t.value? depth = some v) :
    v.isWellFormed = true := by
  cases t with
  | null =>
      cases h
      rfl
  | bool b =>
      cases h
      rfl
  | number n =>
      rw [Tree.value?] at h
      obtain ⟨x, hx, rfl⟩ := Option.map_eq_some_iff.1 h
      exact Numeral.isWellFormed_of_value? hx
  | string s =>
      rw [Tree.value?] at h
      obtain ⟨x, -, rfl⟩ := Option.map_eq_some_iff.1 h
      rfl
  | array items =>
      rw [Tree.value?] at h
      split at h
      · cases h
      · obtain ⟨vs, hvs, rfl⟩ := Option.map_eq_some_iff.1 h
        exact areWellFormed_of_values? hvs
  | object members =>
      rw [Tree.value?] at h
      split at h
      · cases h
      · obtain ⟨entries, hentries, rfl⟩ := Option.map_eq_some_iff.1 h
        exact isWellFormed_ofFields (haveWellFormed_iff.1 (haveWellFormed_of_entries? hentries))

theorem areWellFormed_of_values? {ts : List Tree} {depth : Nat} {vs : List Json}
    (h : Tree.values? depth ts = some vs) : areWellFormed vs = true := by
  cases ts with
  | nil =>
      cases h
      rfl
  | cons t ts =>
      simp only [Tree.values?, Option.bind_eq_bind, Option.bind_eq_some_iff, Option.some.injEq] at h
      obtain ⟨v, hv, vs, hvs, rfl⟩ := h
      rw [areWellFormed, isWellFormed_of_value? hv, areWellFormed_of_values? hvs]
      rfl

theorem haveWellFormed_of_entries? {ms : List (List Piece × Tree)} {depth : Nat}
    {entries : List (String × Json)} (h : Tree.entries? depth ms = some entries) :
    haveWellFormed entries = true := by
  cases ms with
  | nil =>
      cases h
      rfl
  | cons m ms =>
      obtain ⟨k, t⟩ := m
      simp only [Tree.entries?, Option.bind_eq_bind, Option.bind_eq_some_iff, Option.some.injEq] at h
      obtain ⟨k, -, v, hv, entries, hentries, rfl⟩ := h
      rw [haveWellFormed, isWellFormed_of_value? hv, haveWellFormed_of_entries? hentries]
      rfl

end

theorem isWellFormed_of_ofText? {text : String} {v : Json} (h : ofText? text = some v) :
    v.isWellFormed = true := by
  obtain ⟨t, -, hv⟩ := Option.bind_eq_some_iff.1 h
  exact isWellFormed_of_value? hv

end RestSql.Json
