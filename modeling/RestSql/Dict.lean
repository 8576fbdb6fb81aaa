/-!
Tables keyed by text, their entries in increasing order of the keys, each key once. `Dict.put` keeps
that order, and `find?_put` says what it changes.
-/

namespace RestSql

/-- Entries in increasing key order. The order of texts is that of their code points, which is also
the order of their UTF-8 bytes. -/
abbrev Dict (α : Type) := List (String × α)

namespace Dict

variable {α β : Type}

/-- The value stored under `key`. -/
def find? (d : Dict α) (key : String) : Option α :=
  match d with
  | [] => none
  | (k, v) :: rest => if k = key then some v else find? rest key

/-- `key` has a value. -/
def has (d : Dict α) (key : String) : Bool :=
  (find? d key).isSome

/-- The table with `value` under `key`, in place of an older value. -/
def put (d : Dict α) (key : String) (value : α) : Dict α :=
  match d with
  | [] => [(key, value)]
  | (k, v) :: rest =>
    if k = key then (key, value) :: rest
    else if key < k then (key, value) :: (k, v) :: rest
    else (k, v) :: put rest key value

/-- The table without `key`. -/
def drop (d : Dict α) (key : String) : Dict α :=
  d.filter fun e => e.1 ≠ key

/-- The entries put one after the other, so that the last of equal keys wins. -/
def ofEntries (entries : List (String × α)) : Dict α :=
  entries.foldl (fun d e => put d e.1 e.2) []

/-- The keys, in order. -/
def keys (d : Dict α) : List String :=
  d.map Prod.fst

/-- The values, in the order of their keys. -/
def values (d : Dict α) : List α :=
  d.map Prod.snd

/-- The same keys with other values. -/
def mapValues (f : α → β) (d : Dict α) : Dict β :=
  d.map fun e => (e.1, f e.2)

theorem find?_put (d : Dict α) (key : String) (value : α) (k : String) :
    find? (put d key value) k = if key = k then some value else find? d k := by
  induction d with
  | nil => simp [put, find?]
  | cons e rest ih =>
    obtain ⟨k', v⟩ := e
    unfold put
    split
    · next h => subst h; by_cases hk : k' = k <;> simp [find?, hk]
    · split
      · by_cases hk : key = k <;> simp [find?, hk]
      · next h _ =>
        by_cases hk : k' = k
        · subst hk; simp [find?, Ne.symm h]
        · simp [find?, hk, ih]

theorem find?_put_self (d : Dict α) (key : String) (value : α) :
    find? (put d key value) key = some value := by
  simp [find?_put]

theorem put_put (d : Dict α) (key : String) (value other : α) :
    put (put d key value) key other = put d key other := by
  induction d with
  | nil => simp [put]
  | cons e rest ih =>
    obtain ⟨k, v⟩ := e
    by_cases hk : k = key
    · simp [put, hk]
    · by_cases hlt : key < k
      · simp [put, hk, hlt]
      · simp [put, hk, hlt, ih]

theorem find?_drop (d : Dict α) (key k : String) :
    find? (drop d key) k = if key = k then none else find? d k := by
  unfold drop
  induction d with
  | nil => simp [find?]
  | cons e rest ih =>
    obtain ⟨k', v⟩ := e
    by_cases hkey : k' = key
    · rw [List.filter_cons_of_neg (by simp [hkey]), ih]
      by_cases hk : key = k <;> simp [find?, hkey, hk]
    · rw [List.filter_cons_of_pos (by simp [hkey]), find?, ih]
      by_cases hk : k' = k
      · simp [find?, hk, (hk ▸ hkey : k ≠ key).symm]
      · simp [find?, hk]

theorem has_put (d : Dict α) (key : String) (value : α) (k : String) :
    has (put d key value) k = (decide (key = k) || has d k) := by
  by_cases h : key = k <;> simp [has, find?_put, h]

theorem mem_of_find? {d : Dict α} {key : String} {value : α} (h : find? d key = some value) :
    (key, value) ∈ d := by
  induction d with
  | nil => cases h
  | cons e rest ih =>
    obtain ⟨k, v⟩ := e
    unfold find? at h
    split at h
    · next hk => cases h; simp [hk]
    · exact List.mem_cons_of_mem _ (ih h)

theorem find?_foldl_put_of_absent {entries : List (String × α)} {key : String} (d : Dict α)
    (h : ∀ e ∈ entries, e.1 ≠ key) :
    find? (entries.foldl (fun d e => put d e.1 e.2) d) key = find? d key := by
  induction entries generalizing d with
  | nil => rfl
  | cons e rest ih =>
    rw [List.foldl_cons, ih _ fun e he => h e (List.mem_cons_of_mem _ he), find?_put,
      if_neg (h e List.mem_cons_self)]

theorem find?_ofEntries_last {before after : List (String × α)} {key : String} {value : α}
    (h : ∀ e ∈ after, e.1 ≠ key) :
    find? (ofEntries (before ++ (key, value) :: after)) key = some value := by
  rw [ofEntries, List.foldl_append, List.foldl_cons, find?_foldl_put_of_absent _ h, find?_put_self]

/-- The keys strictly increase. -/
def Sorted (d : Dict α) : Prop :=
  d.Pairwise fun a b => a.1 < b.1

theorem mem_put {d : Dict α} {key : String} {value : α} {e : String × α}
    (h : e ∈ put d key value) : e = (key, value) ∨ e ∈ d := by
  induction d with
  | nil => simpa [put] using h
  | cons x rest ih =>
    unfold put at h
    split at h
    · rcases List.mem_cons.1 h with h | h
      · exact .inl h
      · exact .inr (List.mem_cons_of_mem _ h)
    · split at h
      · rcases List.mem_cons.1 h with h | h
        · exact .inl h
        · exact .inr h
      · rcases List.mem_cons.1 h with h | h
        · exact .inr (h ▸ List.mem_cons_self)
        · exact (ih h).imp id (List.mem_cons_of_mem _)

theorem sorted_put {d : Dict α} (h : Sorted d) (key : String) (value : α) :
    Sorted (put d key value) := by
  induction d with
  | nil => simp [put, Sorted]
  | cons x rest ih =>
    obtain ⟨k, v⟩ := x
    have hrest : Sorted rest := List.Pairwise.of_cons h
    have hk : ∀ e ∈ rest, k < e.1 := fun e he => List.rel_of_pairwise_cons h he
    unfold put
    split
    · next he => subst he; exact List.pairwise_cons.2 ⟨hk, hrest⟩
    · next hne =>
      split
      · next hlt =>
        refine List.pairwise_cons.2 ⟨fun e he => ?_, h⟩
        rcases List.mem_cons.1 he with rfl | he
        · exact hlt
        · exact String.lt_trans hlt (hk e he)
      · next hge =>
        have hlt : k < key := by
          rcases Decidable.em (k < key) with h' | h'
          · exact h'
          · exact absurd (String.le_antisymm hge h') hne
        refine List.pairwise_cons.2 ⟨fun e he => ?_, ih hrest⟩
        rcases mem_put he with rfl | he
        · exact hlt
        · exact hk e he

theorem Sorted.find?_tail {key : String} {value : α} {d : Dict α}
    (h : Sorted ((key, value) :: d)) : find? d key = none := by
  cases hf : find? d key with
  | none => rfl
  | some v => exact absurd (List.rel_of_pairwise_cons h (mem_of_find? hf)) (String.lt_irrefl key)

theorem sorted_ofEntries (entries : List (String × α)) : Sorted (ofEntries entries) := by
  suffices h : ∀ d : Dict α, Sorted d → Sorted (entries.foldl (fun d e => put d e.1 e.2) d) from
    h [] List.Pairwise.nil
  induction entries with
  | nil => exact fun d h => h
  | cons e rest ih => exact fun d h => ih _ (sorted_put h _ _)

theorem mem_ofEntries {entries : List (String × α)} {e : String × α} (h : e ∈ ofEntries entries) :
    e ∈ entries := by
  suffices hall : ∀ d : Dict α, e ∈ entries.foldl (fun d e => put d e.1 e.2) d →
      e ∈ entries ∨ e ∈ d from (hall [] h).resolve_right List.not_mem_nil
  clear h
  induction entries with
  | nil => exact fun d h => .inr h
  | cons x rest ih =>
    intro d h
    rcases ih _ h with h | h
    · exact .inl (List.mem_cons_of_mem _ h)
    · rcases mem_put h with rfl | h
      · exact .inl List.mem_cons_self
      · exact .inr h

theorem Sorted.find?_of_mem {d : Dict α} (h : Sorted d) {key : String} {value : α}
    (hmem : (key, value) ∈ d) : find? d key = some value := by
  induction d with
  | nil => cases hmem
  | cons e rest ih =>
    obtain ⟨k, v⟩ := e
    have hk : ∀ e ∈ rest, k < e.1 := fun e he => List.rel_of_pairwise_cons h he
    rw [find?]
    rcases List.mem_cons.1 hmem with heq | hmem
    · cases heq
      exact if_pos rfl
    · have hne : k ≠ key := fun heq => String.lt_irrefl k (heq ▸ hk _ hmem)
      rw [if_neg hne]
      exact ih h.of_cons hmem

theorem isSome_find? {d : Dict α} {key : String} : (find? d key).isSome ↔ key ∈ keys d := by
  induction d with
  | nil => simp [find?, keys]
  | cons e rest ih =>
    obtain ⟨k, v⟩ := e
    by_cases hk : k = key
    · simp [find?, keys, hk]
    · simp [find?, hk, ih, keys, Ne.symm hk]

theorem mem_keys_ofEntries {entries : List (String × α)} {key : String} :
    key ∈ keys (ofEntries entries) ↔ key ∈ entries.map Prod.fst := by
  suffices h : ∀ d : Dict α, has (entries.foldl (fun d e => put d e.1 e.2) d) key =
      (decide (key ∈ entries.map Prod.fst) || has d key) by
    rw [← isSome_find?, ofEntries, ← has, h [], has, find?, Option.isSome_none, Bool.or_false,
      decide_eq_true_eq]
  induction entries with
  | nil => simp
  | cons e rest ih =>
    intro d
    rw [List.foldl_cons, ih, has_put]
    by_cases hk : e.1 = key
    · simp [hk]
    · simp only [hk, decide_false, Bool.false_or, List.map_cons, List.mem_cons, Ne.symm hk, false_or]

theorem put_of_lt {d : Dict α} {key : String} (h : ∀ e ∈ d, e.1 < key) (value : α) :
    put d key value = d ++ [(key, value)] := by
  induction d with
  | nil => rfl
  | cons e rest ih =>
    obtain ⟨k, v⟩ := e
    have hk : k < key := h (k, v) List.mem_cons_self
    have hne : k ≠ key := fun heq => String.lt_irrefl key (heq ▸ hk)
    rw [put, if_neg hne, if_neg (String.lt_asymm hk), ih fun e he => h e (List.mem_cons_of_mem _ he)]
    rfl

/-- The entries of a table make the table. -/
theorem Sorted.ofEntries_eq {d : Dict α} (h : Sorted d) : ofEntries d = d := by
  suffices hall : ∀ before : Dict α, Sorted (before ++ d) →
      d.foldl (fun d e => put d e.1 e.2) before = before ++ d from hall [] h
  induction d with
  | nil => exact fun before _ => (List.append_nil before).symm
  | cons e rest ih =>
    intro before hb
    have hlt : ∀ x ∈ before, x.1 < e.1 := fun x hx =>
      (List.pairwise_append.1 hb).2.2 x hx e List.mem_cons_self
    rw [List.foldl_cons, put_of_lt hlt, ih h.of_cons, List.append_assoc, List.singleton_append]
    rwa [List.append_assoc, List.singleton_append]

end Dict
end RestSql
