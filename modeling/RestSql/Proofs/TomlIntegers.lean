import RestSql.Proofs.Bodies
import RestSql.Toml.Reader

/-!
# The integers of a document

The integers in a document have 64 bits, as the reader takes no others and as nothing is computed with them.
-/

namespace RestSql.Toml

open Reader (Yields)

/-- The value has 64 bits, if it is an integer. -/
def FitsWord (v : Toml) : Prop :=
  ∀ n, v = integer n → Word.isSigned n = true

theorem fitsWord_table (origin : TableOrigin) (t : Entries) : FitsWord (table origin t) :=
  nofun

theorem fitsWord_tables (us : List Entries) : FitsWord (tables us) :=
  nofun

/-! ## Values that are read -/

theorem yields_truthValue : Yields FitsWord truthValue := by
  intro cs v rest h
  unfold truthValue at h
  split at h <;> cases h <;> nofun

theorem yields_dateOrTime : Yields FitsWord dateOrTime := by
  intro cs v rest h
  unfold dateOrTime at h
  split at h
  · cases h
    nofun
  · obtain ⟨⟨_, _⟩, -, heq⟩ := Option.map_eq_some_iff.1 h
    cases heq
    nofun

theorem yields_decimalFloat : Yields FitsWord decimalFloat := by
  intro cs v rest h
  unfold decimalFloat at h
  generalize sign cs = start at h
  obtain ⟨⟨whole, cs'⟩, -, h⟩ := Option.bind_eq_some_iff.1 h
  dsimp only at h
  generalize Reader.optional fraction cs' = places at h
  by_cases hnone : (places.1.isNone && (Reader.optional exponent places.2).1.isNone) = true
  · rw [if_pos hnone] at h
    cases h
  · rw [if_neg hnone] at h
    obtain ⟨-, heq⟩ := Option.ite_none_left_eq_some.1 h
    cases heq
    nofun

theorem yields_specialFloat : Yields FitsWord specialFloat := by
  intro cs v rest h
  unfold specialFloat at h
  dsimp only at h
  split at h <;> cases h <;> nofun

theorem yields_basedInteger (mark : Char) (base : Nat) : Yields FitsWord (basedInteger mark base) := by
  intro cs v rest h
  obtain ⟨_, -, h⟩ := Option.bind_eq_some_iff.1 h
  obtain ⟨⟨ds, _⟩, -, h⟩ := Option.bind_eq_some_iff.1 h
  obtain ⟨n, -, h⟩ := Option.bind_eq_some_iff.1 h
  obtain ⟨hword, heq⟩ := Option.ite_none_right_eq_some.1 h
  cases heq
  rintro _ ⟨⟩
  exact hword

theorem yields_decimalInteger : Yields FitsWord decimalInteger := by
  intro cs v rest h
  unfold decimalInteger at h
  generalize sign cs = start at h
  obtain ⟨⟨ds, cs'⟩, -, h⟩ := Option.bind_eq_some_iff.1 h
  obtain ⟨hword, heq⟩ := Option.ite_none_right_eq_some.1 h
  cases heq
  rintro _ ⟨⟩
  exact hword

theorem yields_scalar : Yields FitsWord scalar := by
  have hstring : Yields (fun _ => True) quotedString := fun _ _ _ _ => trivial
  exact (hstring.map fun _ _ => nofun).orElse <| yields_truthValue.orElse <|
    yields_dateOrTime.orElse <| yields_decimalFloat.orElse <| yields_specialFloat.orElse <|
    (yields_basedInteger 'x' 16).orElse <| (yields_basedInteger 'o' 8).orElse <|
    (yields_basedInteger 'b' 2).orElse yields_decimalInteger

theorem yields_items (inner : Reader Toml) : Yields FitsWord (items inner) := by
  intro cs v rest h
  obtain ⟨_, -, heq⟩ := Option.bind_eq_some_iff.1 h
  cases heq
  nofun

theorem yields_members (inner : Reader Toml) : Yields FitsWord (members inner) := by
  intro cs v rest h
  obtain ⟨_, -, h⟩ := Option.bind_eq_some_iff.1 h
  obtain ⟨t, ht, heq⟩ := Option.map_eq_some_iff.1 h
  obtain ⟨_, -, rfl⟩ := Option.map_eq_some_iff.1 ht
  cases heq
  nofun

theorem yields_valueWithin (depth : Nat) : Yields FitsWord (valueWithin depth) := by
  cases depth with
  | zero => exact yields_scalar
  | succ depth =>
      intro cs v rest h
      unfold valueWithin at h
      split at h
      · exact yields_items _ _ v rest h
      · exact yields_members _ _ v rest h
      · exact yields_scalar _ v rest h

theorem yields_assignment {inner : Reader Toml} (h : Yields FitsWord inner) :
    Yields (FitsWord ·.value) (assignment inner) := by
  intro cs a rest ha
  obtain ⟨_, -, ha⟩ := Option.bind_eq_some_iff.1 ha
  obtain ⟨⟨v, _⟩, hv, heq⟩ := Option.bind_eq_some_iff.1 ha
  cases heq
  exact h _ v _ hv

theorem fitsWord_body (cs : List Char) : ∀ a ∈ (body cs).1, FitsWord a.value := by
  refine Yields.many ?_ cs
  intro cs a rest h
  obtain ⟨⟨a, _⟩, ha, h⟩ := Option.bind_eq_some_iff.1 h
  obtain ⟨_, -, heq⟩ := Option.map_eq_some_iff.1 h
  cases heq
  exact yields_assignment (yields_valueWithin maxDepth) _ a _ ha

/-! ## Entries -/

/-- The integers among the values of the entries have 64 bits; those in tables do not count. -/
def HaveWords (t : Entries) : Prop :=
  ∀ e ∈ t, FitsWord e.2

theorem HaveWords.put {t : Entries} (h : HaveWords t) {v : Toml} (hv : FitsWord v) (key : String) :
    HaveWords (Dict.put t key v) := by
  intro e he
  rcases Dict.mem_put he with rfl | he
  · exact hv
  · exact h e he

/-- What is put for a table, or for an array of tables, is no integer. -/
theorem HaveWords.put_map {t t' : Entries} (h : HaveWords t) {wrap : Entries → Toml}
    (hwrap : ∀ u, FitsWord (wrap u)) {inner : Option Entries} {key : String}
    (ht : (inner.map fun u => Dict.put t key (wrap u)) = some t') : HaveWords t' := by
  obtain ⟨u, -, rfl⟩ := Option.map_eq_some_iff.1 ht
  exact h.put (hwrap u) key

theorem HaveWords.assign {t t' : Entries} (h : HaveWords t) {v : Toml} (hv : FitsWord v)
    {key : String} {path : List String} (ht : assign v key path t = some t') : HaveWords t' := by
  cases path with
  | nil =>
      rw [Toml.assign] at ht
      split at ht
      · cases ht
      · cases ht
        exact h.put hv key
  | cons k path =>
      rw [Toml.assign] at ht
      split at ht
      · exact h.put_map (fitsWord_table _) ht
      · split at ht
        · exact h.put_map (fitsWord_table _) ht
        · cases ht
      · split at ht
        · cases ht
        · exact h.put_map (fun _ => fitsWord_tables _) ht
      · cases ht

theorem HaveWords.assignAll {body : List Assignment} (hbody : ∀ a ∈ body, FitsWord a.value)
    {t t' : Entries} (h : HaveWords t) (ht : assignAll body t = some t') : HaveWords t' := by
  induction body generalizing t with
  | nil =>
      cases ht
      exact h
  | cons a body ih =>
      obtain ⟨ha, hbody⟩ := List.forall_mem_cons.1 hbody
      obtain ⟨u, hu, ht⟩ := Option.bind_eq_some_iff.1 ht
      exact ih hbody (h.assign ha hu) ht

theorem HaveWords.within {f : Entries → Option Entries}
    (hf : ∀ u u', HaveWords u → f u = some u' → HaveWords u') {t t' : Entries} (h : HaveWords t)
    {path : List String} (ht : within f path t = some t') : HaveWords t' := by
  cases path with
  | nil => exact hf t t' h ht
  | cons k path =>
      rw [Toml.within] at ht
      split at ht
      · exact h.put_map (fitsWord_table _) ht
      · split at ht
        · cases ht
        · exact h.put_map (fitsWord_table _) ht
      · exact h.put_map (fun _ => fitsWord_tables _) ht
      · cases ht

theorem HaveWords.openTable {body : List Assignment} {key : String} {t t' : Entries}
    (h : HaveWords t) (ht : openTable body key t = some t') : HaveWords t' := by
  unfold Toml.openTable at ht
  split at ht
  · exact h.put_map (fitsWord_table _) ht
  · exact h.put_map (fitsWord_table _) ht
  · cases ht

theorem HaveWords.appendTable {body : List Assignment} {key : String} {t t' : Entries}
    (h : HaveWords t) (ht : appendTable body key t = some t') : HaveWords t' := by
  unfold Toml.appendTable at ht
  split at ht
  · exact h.put_map (fun _ => fitsWord_tables _) ht
  · exact h.put_map (fun _ => fitsWord_tables _) ht
  · cases ht

theorem HaveWords.addBlocks {blocks : List Block} {t t' : Entries} (h : HaveWords t)
    (ht : blocks.foldlM addBlock t = some t') : HaveWords t' := by
  induction blocks generalizing t with
  | nil =>
      cases ht
      exact h
  | cons b blocks ih =>
      obtain ⟨u, hu, ht⟩ := Option.bind_eq_some_iff.1 ht
      refine ih (h.within (fun v v' hv hb => ?_) hu) ht
      split at hb
      · exact hv.appendTable hb
      · exact hv.openTable hb

theorem haveWords_of_ofText? {text : String} {t : Entries} (h : ofText? text = some t) :
    HaveWords t := by
  unfold ofText? at h
  obtain ⟨-, h⟩ := Option.ite_none_right_eq_some.1 h
  obtain ⟨u, hu, ht⟩ := Option.bind_eq_some_iff.1 h
  have hempty : HaveWords [] := List.forall_mem_nil _
  exact (hempty.assignAll (fitsWord_body _) hu).addBlocks ht

end RestSql.Toml
