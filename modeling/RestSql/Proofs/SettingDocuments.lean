import Mathlib.Data.List.Nodup
import RestSql.Config.Setting
import RestSql.Proofs.Literals
import RestSql.Proofs.TomlIntegers

/-!
# Settings in documents and settings by name

A document gives many settings at once, by values with types. By name, a setting is given as a text. Both are
loops that make changes, each to one setting (`Update`). A change leaves all other settings alone
(`values_of_puts`), so what comes of a loop does not depend on its order, and two loops may be compared
setting by setting (`applyAll_eq`).

They part in three places. A document may have names that are no settings. A text is trimmed before it is
taken as a character, and brought to lower case before it is taken as a word; `SettingKind.change?` has these
two steps as parameters, and is both ways at once (`ofToml?_toml`, `ofText?_text`).
-/

namespace RestSql

/-! ## What a change of one setting changes -/

/-- The change puts a value into a setting of this kind. -/
inductive SettingKind.Puts : SettingKind → SettingValue → (Config → Config) → Prop
  | natural {get : Config → Nat} {put : Nat → Config → Config} (n : Nat) :
      Puts (.natural get put) (.natural n) (put n)
  | flag {get : Config → Bool} {put : Bool → Config → Config} (b : Bool) :
      Puts (.flag get put) (.flag b) (put b)
  | character {get : Config → Char} {put : Char → Config → Config} (c : Char) :
      Puts (.character get put) (.character c) (put c)
  | text {get : Config → String} {put : String → Config → Config} (s : String) :
      Puts (.text get put) (.text s) (put s)
  | path {get : Config → Option String} {put : String → Config → Config} (p : String) :
      Puts (.path get put) (.path (some p)) (put p)
  | choice {get : Config → String} {options : List (String × (Config → Config))}
      {option : String × (Config → Config)} (h : option ∈ options) :
      Puts (.choice get options) (.word option.1) option.2

/-- The values of all settings. -/
def Config.values (c : Config) : List SettingValue :=
  Setting.all.map fun s => s.kind.value c

/-- Putting a value into a setting leaves the other settings alone. -/
theorem values_of_puts : ∀ p ∈ Setting.all.zipIdx, ∀ v f, p.1.kind.Puts v f →
    ∀ c : Config, (f c).values = c.values.set p.2 v := by
  simp only [Setting.all, List.zipIdx, List.forall_mem_cons, List.not_mem_nil, false_implies,
    implies_true, and_true]
  and_intros
  all_goals
    intro v f h c
    cases h
    first
      | rfl
      | next hoption =>
        -- A choice makes one change for each word.
        obtain ⟨word, -, rfl⟩ := List.mem_map.1 hoption
        rfl

theorem ErrorPlace.word_injective : Function.Injective word := by
  intro p q h
  cases p <;> cases q <;> simp [word] at h ⊢

theorem OutputFormat.word_injective : Function.Injective word := by
  intro f g h
  cases f <;> cases g <;> simp [word] at h ⊢

theorem Config.ext_values {c d : Config} (h : c.values = d.values) : c = d := by
  simp only [values, Setting.all, List.map_cons, List.map_nil, SettingKind.value, List.cons.injEq,
    SettingValue.natural.injEq, SettingValue.flag.injEq, SettingValue.character.injEq,
    SettingValue.text.injEq, SettingValue.path.injEq, SettingValue.word.injEq, Option.some.injEq,
    ErrorPlace.word_injective.eq_iff, OutputFormat.word_injective.eq_iff, and_true] at h
  cases c
  cases d
  simp only at h
  simp only [mk.injEq]
  simp only [h, and_self]

/-! ## Values that are not nested -/

/-- A value of an entry of a document that holds no other values. -/
inductive Scalar
  | integer (n : Int)
  | flag (b : Bool)
  | string (s : String)
  deriving DecidableEq, Repr

namespace Scalar

def toml : Scalar → Toml
  | integer n => .integer n
  | flag b => .flag b
  | string s => .string s

/-- The value again. -/
def ofToml? : Toml → Option Scalar
  | .integer n => some (.integer n)
  | .flag b => some (.flag b)
  | .string s => some (.string s)
  | _ => none

theorem toml_of_ofToml? {t : Toml} {v : Scalar} (h : ofToml? t = some v) : t = v.toml := by
  cases t <;> cases h <;> rfl

/-- The text of a value, by which it is set. -/
def text : Scalar → String
  | integer n => Text.ofInt n
  | flag b => if b then "true" else "false"
  | string s => s

end Scalar

namespace SettingKind

/-- The value is of the type that this kind of setting has. -/
def takes : SettingKind → Scalar → Bool
  | natural _ _, .integer _ => true
  | flag _ _, .flag _ => true
  | character _ _, .string _ => true
  | text _ _, .string _ => true
  | path _ _, .string _ => true
  | choice _ _, .string _ => true
  | _, _ => false

/-- What a value changes, where characters are trimmed and words are brought to lower case before. -/
def change? (trim lower : String → String) : SettingKind → Scalar → Option (Config → Config)
  | natural _ put, .integer n => if 0 ≤ n then some (put n.toNat) else none
  | flag _ put, .flag b => some (put b)
  | character _ put, .string s => (character? (trim s)).map put
  | text _ put, .string s => some (put s)
  | path _ put, .string s => some (put s)
  | choice _ options, .string s => chosen? options (lower s)
  | _, _ => none

/-- The value can be put. -/
def admits (trim lower : String → String) : SettingKind → Scalar → Bool
  | natural _ _, .integer n => 0 ≤ n
  | flag _ _, .flag _ => true
  | character _ _, .string s => (trim s).toList.length = 1
  | text _ _, .string _ => true
  | path _ _, .string _ => true
  | choice _ options, .string s => options.any fun option => option.1 = lower s
  | _, _ => false

/-- A character has no blanks around it, and a word is in lower case. -/
def isPlain : SettingKind → Scalar → Bool
  | character _ _, .string s => Text.trimmed s = s
  | choice _ _, .string s => Text.lower s = s
  | _, _ => true

variable {k : SettingKind} {v : Scalar} {trim lower : String → String} {f g : Config → Config}

theorem character?_eq_some {s : String} {c : Char} : character? s = some c ↔ s.toList = [c] := by
  unfold character?
  constructor
  · intro h
    split at h
    · next hs => rw [hs, Option.some.inj h]
    · cases h
  · intro h
    rw [h]

theorem chosen?_eq_some {options : List (String × (Config → Config))} {word : String}
    (h : chosen? options word = some f) : (word, f) ∈ options := by
  obtain ⟨option, hfind, rfl⟩ := Option.map_eq_some_iff.1 h
  have hword : option.1 = word := by simpa using List.find?_some hfind
  exact hword ▸ List.mem_of_find?_eq_some hfind

theorem isSome_change? (k : SettingKind) (v : Scalar) (trim lower : String → String) :
    (k.change? trim lower v).isSome = k.admits trim lower v := by
  cases k <;> cases v <;> simp only [change?, admits, Option.isSome_none, Option.isSome_some]
  case natural.integer n => split <;> simp [*]
  case character.string put s =>
    rw [Option.isSome_map, Bool.eq_iff_iff, decide_eq_true_iff, List.length_eq_one_iff,
      Option.isSome_iff_exists]
    simp only [character?_eq_some]
  case choice.string options s =>
    rw [chosen?, Option.isSome_map, Bool.eq_iff_iff, List.find?_isSome, List.any_eq_true]
    simp only [beq_iff_eq, decide_eq_true_iff]

theorem admits_of_isPlain (h : k.isPlain v = true) :
    k.admits id id v = k.admits Text.trimmed Text.lower v := by
  cases k <;> cases v
  case character.string get put s =>
    have htrim : Text.trimmed s = s := by simpa [isPlain] using h
    simp only [admits, htrim, id]
  case choice.string get options s =>
    have hlower : Text.lower s = s := by simpa [isPlain] using h
    simp only [admits, hlower, id]
  all_goals rfl

theorem puts_of_change? (h : k.change? trim lower v = some f) : ∃ w, k.Puts w f := by
  cases k <;> cases v <;> simp only [change?, reduceCtorEq] at h
  case natural.integer n =>
    obtain ⟨-, heq⟩ := Option.ite_none_right_eq_some.1 h
    cases heq
    exact ⟨_, .natural _⟩
  case flag.flag b =>
    cases h
    exact ⟨_, .flag b⟩
  case character.string s =>
    obtain ⟨c, -, rfl⟩ := Option.map_eq_some_iff.1 h
    exact ⟨_, .character c⟩
  case text.string s =>
    cases h
    exact ⟨_, .text s⟩
  case path.string s =>
    cases h
    exact ⟨_, .path s⟩
  case choice.string options s => exact ⟨_, .choice (chosen?_eq_some h)⟩

theorem ofToml?_toml (k : SettingKind) (v : Scalar) : k.ofToml? v.toml = k.change? id id v := by
  cases k <;> cases v <;> rfl

theorem trimmed_ofInt (n : Int) : Text.trimmed (Text.ofInt n) = Text.ofInt n := by
  rw [Text.trimmed, Text.trim_eq_self fun c hc => Sql.isBlank_of_numeric (Sql.numeric_of_mem_ofInt hc),
    String.ofList_toList]

theorem natural?_of_neg {n : Int} (h : n < 0) : natural? (Text.ofInt n) = none := by
  have htext := Text.toList_ofInt_of_neg h
  have hsign : Text.rest? "+" (Text.ofInt n) = none := by
    rw [Text.rest?, htext]
    rfl
  rw [natural?, hsign, Option.getD_none, Text.natural?, htext]
  rfl

theorem natural?_ofNat {n : Nat} (h : Word.isSigned n = true) : natural? (Text.ofInt n) = some n := by
  have htext : (Text.ofInt n).toList = Nat.toDigits 10 n := Text.toList_ofInt_of_nonneg (by omega)
  have hdigits := Text.all_toDigits n
  obtain ⟨c, ds, hds, hc, -⟩ := Json.exists_toDigits n
  have hsign : Text.rest? "+" (Text.ofInt n) = none := by
    have hplus : '+' ≠ c := by
      rintro rfl
      cases hc
    rw [Text.rest?, htext, hds]
    simp [Text.after?, hplus]
  have hnat : Text.natural? (Text.ofInt n) = some n := by
    rw [Text.natural?, htext, Text.naturalOf_toDigits, hdigits, hds]
    rfl
  rw [natural?, hsign, Option.getD_none, hnat, Option.filter_some,
    if_pos (Word.isUnsigned_of_isSigned h)]

/-- An integer of 64 bits is read off its text if it is not negative. -/
theorem natural?_ofInt {n : Int} (h : Word.isSigned n = true) :
    natural? (Text.ofInt n) = if 0 ≤ n then some n.toNat else none := by
  by_cases hn : 0 ≤ n
  · obtain ⟨n, rfl⟩ := Int.eq_ofNat_of_zero_le hn
    rw [natural?_ofNat h, if_pos hn, Int.toNat_natCast]
  · rw [natural?_of_neg (Int.not_le.1 hn), if_neg hn]

theorem flag?_text (b : Bool) : flag? (Text.trimmed (Scalar.flag b).text) = some b := by
  cases b <;> decide +kernel

theorem ofText?_text (h : k.takes v = true) (hword : v.toml.FitsWord) :
    (k.ofText? v.text).toOption = k.change? Text.trimmed Text.lower v := by
  unfold ofText?
  cases k <;> cases v <;> try cases h
  case natural.integer get put n =>
    have hread : natural? (Text.trimmed (Scalar.integer n).text) =
        if 0 ≤ n then some n.toNat else none := by
      rw [Scalar.text, trimmed_ofInt, natural?_ofInt (hword n rfl)]
    dsimp only [change?]
    rw [hread]
    by_cases hn : 0 ≤ n
    · rw [if_pos hn, if_pos hn]
      rfl
    · rw [if_neg hn, if_neg hn]
      rfl
  case flag.flag get put b =>
    dsimp only
    rw [flag?_text]
    rfl
  case character.string get put s =>
    dsimp only [change?, Scalar.text]
    cases character? (Text.trimmed s) <;> rfl
  case text.string => rfl
  case path.string => rfl
  case choice.string get options s =>
    dsimp only [change?, Scalar.text]
    cases chosen? options (Text.lower s) <;> rfl

/-- The words are in lower case. -/
def HasLowerWords : SettingKind → Prop
  | choice _ options => ∀ option ∈ options, Text.lower option.1 = option.1
  | _ => True

/-- A value that is taken as it is, and also trimmed and in lower case, changes the same in both ways. -/
theorem change?_unique (hk : k.HasLowerWords) (hf : k.change? id id v = some f)
    (hg : k.change? Text.trimmed Text.lower v = some g) : f = g := by
  cases k <;> cases v <;> simp only [change?, reduceCtorEq] at hf hg
  case natural.integer | flag.flag | text.string | path.string =>
    exact Option.some.inj (hf.symm.trans hg)
  case character.string get put s =>
    obtain ⟨c, hc, rfl⟩ := Option.map_eq_some_iff.1 hf
    obtain ⟨d, hd, rfl⟩ := Option.map_eq_some_iff.1 hg
    have hs : s.toList = [c] := character?_eq_some.1 hc
    have htrim : Text.trim [c] = [d] := by
      rw [← hs, ← character?_eq_some.1 hd, Text.trimmed, String.toList_ofList]
    have hblank : Text.isBlank c = false := by
      cases hblank : Text.isBlank c with
      | false => rfl
      | true =>
          rw [Text.trim, Text.trimStart, List.dropWhile_cons_of_pos hblank] at htrim
          cases htrim
    rw [Text.trim_eq_self (by simpa using hblank)] at htrim
    cases htrim
    rfl
  case choice.string get options s =>
    have hlower : Text.lower s = s := hk _ (chosen?_eq_some hf)
    rw [hlower] at hg
    exact Option.some.inj (hf.symm.trans hg)

end SettingKind

/-! ## Names of settings -/

namespace Setting

theorem hasLowerWords_all : ∀ s ∈ all, s.kind.HasLowerWords := by
  simp only [all, List.forall_mem_cons, List.not_mem_nil, false_implies, implies_true, and_true,
    SettingKind.HasLowerWords, true_and]
  decide +kernel

theorem nodup_keys : (all.map key).Nodup := by
  decide +kernel

theorem lower_key : ∀ s ∈ all, Text.lower s.key = s.key := by
  decide +kernel

theorem eq_of_key_eq {s t : Setting} (hs : s ∈ all) (ht : t ∈ all) (h : s.key = t.key) : s = t :=
  List.inj_on_of_nodup_map nodup_keys hs ht h

theorem named?_eq_some {s : Setting} {key : String} : named? key = some s ↔ s ∈ all ∧ s.key = key := by
  constructor
  · intro h
    exact ⟨List.mem_of_find?_eq_some h, by simpa using List.find?_some h⟩
  · rintro ⟨hs, rfl⟩
    obtain ⟨t, ht⟩ : ∃ t, named? s.key = some t :=
      Option.isSome_iff_exists.1 (List.find?_isSome.2 ⟨s, hs, by simp⟩)
    have hkey : t.key = s.key := by simpa using List.find?_some ht
    rw [ht, eq_of_key_eq (List.mem_of_find?_eq_some ht) hs hkey]

/-- Keys have no underscores, so a name that is a key of some setting is the own key. -/
theorem key_of_name_eq_key {s t : Setting} (h : s.name = t.key) : s.key = s.name := by
  rw [key, h, key, String.toList_ofList, List.filter_filter]
  simp only [Bool.and_self]

end Setting

/-! ## Changes made one after the other -/

/-- A setting with a change that concerns no other. -/
abbrev Update := Setting × (Config → Config)

namespace Update

/-- The change puts a value into the setting, or does nothing. -/
def IsSound (u : Update) : Prop :=
  u.1 ∈ Setting.all ∧ (u.2 = id ∨ ∃ v, u.1.kind.Puts v u.2)

def applyAll (us : List Update) (c : Config) : Config :=
  us.foldl (fun c u => u.2 c) c

theorem value_of_puts {s : Setting} (hs : s ∈ Setting.all) {v : SettingValue} {f : Config → Config}
    (h : s.kind.Puts v f) (c : Config) :
    s.kind.value (f c) = v ∧
      ∀ t ∈ Setting.all, t.key ≠ s.key → t.kind.value (f c) = t.kind.value c := by
  obtain ⟨i, hi⟩ := List.mem_iff_getElem?.1 hs
  have hvalues := values_of_puts (s, i) (List.mk_mem_zipIdx_iff_getElem?.2 hi) v f h c
  have hat (d : Config) {t : Setting} {j : Nat} (hj : Setting.all[j]? = some t) :
      d.values[j]? = some (t.kind.value d) := by
    rw [Config.values, List.getElem?_map, hj]
    rfl
  constructor
  · have hown := hat (f c) hi
    rw [hvalues, List.getElem?_set_self (by simpa using (List.getElem?_eq_some_iff.1 (hat c hi)).1)] at hown
    exact (Option.some.inj hown).symm
  · intro t ht hkey
    obtain ⟨j, hj⟩ := List.mem_iff_getElem?.1 ht
    have hij : i ≠ j := by
      rintro rfl
      exact hkey (congrArg Setting.key (Option.some.inj (hj.symm.trans hi)))
    have hother := hat (f c) hj
    rw [hvalues, List.getElem?_set_ne hij, hat c hj] at hother
    exact (Option.some.inj hother).symm

/-- A setting is left alone by the changes of others. -/
theorem IsSound.value_of_ne {u : Update} (h : u.IsSound) {t : Setting} (ht : t ∈ Setting.all)
    (hne : t.key ≠ u.1.key) (c : Config) : t.kind.value (u.2 c) = t.kind.value c := by
  obtain ⟨hu, hid | ⟨v, hv⟩⟩ := h
  · rw [hid, id]
  · exact (value_of_puts hu hv c).2 t ht hne

/-- The value of a setting after its own change comes from nothing but its value before. -/
theorem IsSound.value_congr {u : Update} (h : u.IsSound) {c d : Config}
    (hcd : u.1.kind.value c = u.1.kind.value d) :
    u.1.kind.value (u.2 c) = u.1.kind.value (u.2 d) := by
  obtain ⟨hu, hid | ⟨v, hv⟩⟩ := h
  · rw [hid, id, id, hcd]
  · rw [(value_of_puts hu hv c).1, (value_of_puts hu hv d).1]

variable {us : List Update} {t : Setting}

theorem value_applyAll_of_ne (hus : ∀ u ∈ us, u.IsSound) (ht : t ∈ Setting.all)
    (hne : ∀ u ∈ us, t.key ≠ u.1.key) (c : Config) :
    t.kind.value (applyAll us c) = t.kind.value c := by
  induction us generalizing c with
  | nil => rfl
  | cons u us ih =>
      obtain ⟨hu, hus⟩ := List.forall_mem_cons.1 hus
      obtain ⟨hneu, hne⟩ := List.forall_mem_cons.1 hne
      exact (ih hus hne (u.2 c)).trans (hu.value_of_ne ht hneu c)

/-- The changes are to different settings. -/
structure AreApart (us : List Update) : Prop where
  sound : ∀ u ∈ us, u.IsSound
  keys : us.Pairwise fun u w => u.1.key ≠ w.1.key

theorem areApart_filterMap {α : Type} {change? : α → Option Update} {key : α → String} {l : List α}
    (hnodup : (l.map key).Nodup)
    (h : ∀ a ∈ l, ∀ u, change? a = some u → u.1.key = key a ∧ u.IsSound) :
    AreApart (l.filterMap change?) where
  sound := by
    intro u hu
    obtain ⟨a, ha, hau⟩ := List.mem_filterMap.1 hu
    exact (h a ha u hau).2
  keys := by
    rw [List.pairwise_filterMap]
    refine (List.pairwise_map.1 hnodup).imp_of_mem ?_
    intro a b ha hb hne u hu w hw
    rw [(h a ha u hu).1, (h b hb w hw).1]
    exact hne

/-- Of changes to different settings, each has the effect that it has alone. -/
theorem AreApart.value_of_mem (hus : AreApart us) {f : Config → Config} (hmem : (t, f) ∈ us)
    (c : Config) : t.kind.value (applyAll us c) = t.kind.value (f c) := by
  induction us generalizing c with
  | nil => cases hmem
  | cons u us ih =>
      obtain ⟨hu, hlater⟩ := List.forall_mem_cons.1 hus.sound
      obtain ⟨hne, hkeys⟩ := List.pairwise_cons.1 hus.keys
      rcases List.mem_cons.1 hmem with heq | hmem
      · cases heq
        exact value_applyAll_of_ne hlater hu.1 hne (f c)
      · have hsound : IsSound (t, f) := hlater _ hmem
        have hother := hu.value_of_ne hsound.1 (hne _ hmem).symm c
        exact (ih ⟨hlater, hkeys⟩ hmem (u.2 c)).trans (hsound.value_congr hother)

/-- A loop that makes changes, where each of them may fail, makes all of them or fails. -/
theorem foldlM_eq_some {α : Type} {change? : α → Option Update} {l : List α} {c c' : Config} :
    l.foldlM (fun c a => (change? a).map fun u => u.2 c) c = some c' ↔
      (∀ a ∈ l, (change? a).isSome) ∧ applyAll (l.filterMap change?) c = c' := by
  induction l generalizing c with
  | nil => simp [applyAll]
  | cons a l ih =>
      rw [List.foldlM_cons, List.forall_mem_cons]
      cases h : change? a with
      | none => simp
      | some u => simp [ih, h, applyAll]

end Update

/-! ## The two ways to give settings -/

namespace Setting

/-- The name is no name and no key of a setting, whatever its case. -/
def NamesNothing (name : String) : Prop :=
  ∀ s ∈ all, s.name ≠ name ∧ s.key ≠ Text.lower name

/-- The entry is for a setting, by its key and with a value of its type, or it is for nothing. -/
def Listed (e : String × Scalar) : Prop :=
  (∃ s ∈ all, s.key = e.1 ∧ s.kind.takes e.2 = true) ∨ NamesNothing e.1

/-- Entries for settings or for nothing, no two with the same name. -/
structure AreListed (entries : List (String × Scalar)) : Prop where
  names : (entries.map Prod.fst).Nodup
  listed : ∀ e ∈ entries, Listed e

/-- The document with some entries. -/
def documentOf (entries : List (String × Scalar)) : Toml.Entries :=
  Dict.ofEntries (entries.map fun e => (e.1, e.2.toml))

variable {entries : List (String × Scalar)} {s : Setting} {v : Scalar} {key : String}

theorem find?_documentOf_of_mem (hnames : (entries.map Prod.fst).Nodup) (h : (key, v) ∈ entries) :
    Dict.find? (documentOf entries) key = some v.toml := by
  obtain ⟨before, after, rfl⟩ := List.append_of_mem h
  rw [List.map_append, List.map_cons] at hnames
  have hafter := (List.nodup_cons.1 (List.nodup_append.1 hnames).2.1).1
  rw [documentOf, List.map_append, List.map_cons]
  refine Dict.find?_ofEntries_last ?_
  rintro e he rfl
  obtain ⟨e', he', rfl⟩ := List.mem_map.1 he
  exact hafter (List.mem_map.2 ⟨e', he', rfl⟩)

theorem find?_documentOf_of_absent (h : ∀ e ∈ entries, e.1 ≠ key) :
    Dict.find? (documentOf entries) key = none := by
  refine Dict.find?_foldl_put_of_absent [] fun e he => ?_
  obtain ⟨e', he', rfl⟩ := List.mem_map.1 he
  exact h e' he'

theorem fitsWord_of_document (hnames : (entries.map Prod.fst).Nodup) {text : String}
    (h : Toml.ofText? text = some (documentOf entries)) : ∀ e ∈ entries, e.2.toml.FitsWord := by
  intro e he
  exact Toml.haveWords_of_ofText? h _ (Dict.mem_of_find? (find?_documentOf_of_mem hnames he))

/-- Entries do not use the name of a setting, unless it is the key as well. -/
theorem AreListed.find?_name (h : AreListed entries) (hs : s ∈ all) (hne : s.name ≠ s.key) :
    Dict.find? (documentOf entries) s.name = none := by
  refine find?_documentOf_of_absent fun e he hname => ?_
  rcases h.listed e he with ⟨t, -, hkey, -⟩ | hnothing
  · exact hne (key_of_name_eq_key (hname.symm.trans hkey.symm)).symm
  · exact (hnothing s hs).1 hname.symm

theorem AreListed.ofDocument?_eq (h : AreListed entries) (hs : s ∈ all) :
    s.ofDocument? (documentOf entries) =
      match Dict.find? (documentOf entries) s.key with
      | none => some id
      | some v => s.kind.ofToml? v := by
  unfold ofDocument?
  by_cases hne : s.name = s.key
  · rw [hne]
    cases Dict.find? (documentOf entries) s.key with
    | none => rfl
    | some v => exact if_pos rfl
  · rw [h.find?_name hs hne]
    cases Dict.find? (documentOf entries) s.key <;> rfl

theorem AreListed.ofDocument?_of_mem (h : AreListed entries) (hs : s ∈ all)
    (hv : (s.key, v) ∈ entries) :
    s.ofDocument? (documentOf entries) = s.kind.change? id id v := by
  rw [h.ofDocument?_eq hs, find?_documentOf_of_mem h.names hv]
  exact s.kind.ofToml?_toml v

theorem AreListed.ofDocument?_of_absent (h : AreListed entries) (hs : s ∈ all)
    (habsent : ∀ e ∈ entries, e.1 ≠ s.key) : s.ofDocument? (documentOf entries) = some id := by
  rw [h.ofDocument?_eq hs, find?_documentOf_of_absent habsent]

theorem mem_or_absent (entries : List (String × Scalar)) (key : String) :
    (∃ v, (key, v) ∈ entries) ∨ ∀ e ∈ entries, e.1 ≠ key := by
  by_cases h : ∃ v, (key, v) ∈ entries
  · exact Or.inl h
  · refine Or.inr ?_
    rintro e he rfl
    exact h ⟨e.2, he⟩

/-- The change to a setting that a key and a text make. -/
def textUpdate (p : String × String) : Option Update :=
  (named? (Text.lower p.1)).bind fun s => (s.kind.ofText? p.2).toOption.map (s, ·)

theorem textUpdate_of_key (hs : s ∈ all) (hv : s.kind.takes v = true) (hword : v.toml.FitsWord) :
    textUpdate (s.key, v.text) = (s.kind.change? Text.trimmed Text.lower v).map (s, ·) := by
  rw [textUpdate, lower_key s hs, named?_eq_some.2 ⟨hs, rfl⟩, Option.bind_some,
    SettingKind.ofText?_text hv hword]

theorem textUpdate_of_nothing {p : String × String} (h : NamesNothing p.1) : textUpdate p = none := by
  have hnamed : named? (Text.lower p.1) = none :=
    List.find?_eq_none.2 fun s hs => by simpa using (h s hs).2
  rw [textUpdate, hnamed, Option.bind_none]

/-- A name for nothing is no key. -/
theorem NamesNothing.ne {name : String} (h : NamesNothing name) (hs : s ∈ all) : s.key ≠ name := by
  rintro rfl
  exact (h s hs).2 (lower_key s hs).symm

end Setting

namespace Config

open Setting Update

/-- Settings that are given one after the other, by a name and a text each. -/
def setEach (c : Config) (pairs : List (String × String)) : Except ConfigError Config :=
  pairs.foldlM (fun c p => c.set p.1 p.2) c

theorem toOption_set (c : Config) (key value : String) :
    (c.set key value).toOption = (textUpdate (key, value)).map fun u => u.2 c := by
  unfold set textUpdate
  cases named? (Text.lower key) with
  | none => rfl
  | some s =>
      simp only [Option.bind_some]
      cases s.kind.ofText? value <;> rfl

theorem setEach_eq_ok {c c' : Config} {pairs : List (String × String)} :
    c.setEach pairs = .ok c' ↔
      (∀ p ∈ pairs, (textUpdate p).isSome) ∧ applyAll (pairs.filterMap textUpdate) c = c' := by
  have hoption : (c.setEach pairs).toOption =
      pairs.foldlM (fun c p => (textUpdate p).map fun u => u.2 c) c := by
    unfold setEach
    induction pairs generalizing c with
    | nil => rfl
    | cons p pairs ih =>
        rw [List.foldlM_cons, List.foldlM_cons, ← toOption_set]
        cases c.set p.1 p.2 with
        | error e => rfl
        | ok d => exact ih
  rw [← foldlM_eq_some, ← hoption]
  cases c.setEach pairs <;> simp [Except.toOption]

/-- The key and the text of an entry. -/
def pairOf (e : String × Scalar) : String × String :=
  (e.1, e.2.text)

/-- The change that a document makes to a setting. -/
def documentUpdate (entries : List (String × Scalar)) (s : Setting) : Option Update :=
  (s.ofDocument? (documentOf entries)).map (s, ·)

variable {entries : List (String × Scalar)} {u : Update}

theorem ofDocument?_eq_some {home : String} {c : Config} :
    ofDocument? home (documentOf entries) = some c ↔
      (∀ s ∈ Setting.all, (documentUpdate entries s).isSome) ∧
        applyAll (Setting.all.filterMap (documentUpdate entries)) (initial home) = c := by
  have hfold : ofDocument? home (documentOf entries) =
      Setting.all.foldlM (fun c s => (documentUpdate entries s).map fun u => u.2 c) (initial home) := by
    simp only [documentUpdate, Option.map_map]
    rfl
  rw [hfold, foldlM_eq_some]

section

variable (h : AreListed entries)
include h

/-- A document is taken just if every value for a setting can be put as it is. -/
theorem documentUpdate_accepts_iff :
    (∀ s ∈ Setting.all, (documentUpdate entries s).isSome) ↔
      ∀ e ∈ entries, ∀ s ∈ Setting.all, s.key = e.1 → s.kind.admits id id e.2 = true := by
  simp only [documentUpdate, Option.isSome_map]
  constructor
  · rintro hsome e he s hs hkey
    have hmem : (s.key, e.2) ∈ entries := by rwa [hkey]
    rw [← SettingKind.isSome_change?, ← h.ofDocument?_of_mem hs hmem]
    exact hsome s hs
  · intro hadmits s hs
    rcases mem_or_absent entries s.key with ⟨v, hv⟩ | habsent
    · rw [h.ofDocument?_of_mem hs hv, SettingKind.isSome_change?]
      exact hadmits _ hv s hs rfl
    · rw [h.ofDocument?_of_absent hs habsent]
      rfl

theorem documentUpdate_eq_some {s : Setting} (hs : s ∈ Setting.all)
    (hu : documentUpdate entries s = some u) : u.1 = s ∧ u.IsSound := by
  obtain ⟨f, hf, rfl⟩ := Option.map_eq_some_iff.1 hu
  refine ⟨rfl, hs, ?_⟩
  rcases mem_or_absent entries s.key with ⟨v, hv⟩ | habsent
  · rw [h.ofDocument?_of_mem hs hv] at hf
    exact Or.inr (SettingKind.puts_of_change? hf)
  · rw [h.ofDocument?_of_absent hs habsent] at hf
    exact Or.inl (Option.some.inj hf).symm

theorem areApart_document : AreApart (Setting.all.filterMap (documentUpdate entries)) := by
  refine areApart_filterMap nodup_keys fun s hs u hu => ?_
  obtain ⟨rfl, hsound⟩ := documentUpdate_eq_some h hs hu
  exact ⟨rfl, hsound⟩

variable (hwords : ∀ e ∈ entries, e.2.toml.FitsWord)
include hwords

/-- Texts are taken just if each is for a setting and can be put, trimmed or in lower case if need be. -/
theorem textUpdate_accepts_iff :
    (∀ p ∈ entries.map pairOf, (textUpdate p).isSome) ↔
      ∀ e ∈ entries, ∃ s ∈ Setting.all, s.key = e.1 ∧
        s.kind.admits Text.trimmed Text.lower e.2 = true := by
  rw [List.forall_mem_map]
  refine forall₂_congr fun e he => ?_
  rcases h.listed e he with ⟨s, hs, hkey, htakes⟩ | hnothing
  · have hupdate : textUpdate (pairOf e) = (s.kind.change? Text.trimmed Text.lower e.2).map (s, ·) := by
      rw [pairOf, ← hkey, textUpdate_of_key hs htakes (hwords e he)]
    rw [hupdate, Option.isSome_map, SettingKind.isSome_change?]
    constructor
    · intro hadmits
      exact ⟨s, hs, hkey, hadmits⟩
    · rintro ⟨t, ht, htkey, hadmits⟩
      rwa [eq_of_key_eq hs ht (hkey.trans htkey.symm)]
  · rw [textUpdate_of_nothing hnothing]
    constructor
    · intro hsome
      cases hsome
    · rintro ⟨s, hs, hkey, -⟩
      exact absurd hkey (hnothing.ne hs)

theorem textUpdate_eq_some {e : String × Scalar} (he : e ∈ entries)
    (hu : textUpdate (pairOf e) = some u) :
    u.1.key = e.1 ∧ u.1.kind.change? Text.trimmed Text.lower e.2 = some u.2 ∧ u.IsSound := by
  rcases h.listed e he with ⟨s, hs, hkey, htakes⟩ | hnothing
  · rw [pairOf, ← hkey, textUpdate_of_key hs htakes (hwords e he)] at hu
    obtain ⟨f, hf, rfl⟩ := Option.map_eq_some_iff.1 hu
    exact ⟨hkey, hf, hs, Or.inr (SettingKind.puts_of_change? hf)⟩
  · rw [textUpdate_of_nothing hnothing] at hu
    cases hu

theorem areApart_texts : AreApart ((entries.map pairOf).filterMap textUpdate) := by
  refine @areApart_filterMap _ _ Prod.fst _ (by rw [List.map_map]; exact h.names) ?_
  rw [List.forall_mem_map]
  intro e he u hu
  obtain ⟨hkey, -, hsound⟩ := textUpdate_eq_some h hwords he hu
  exact ⟨hkey, hsound⟩

/-- Where the document is taken and each of the texts, they change the same. -/
theorem applyAll_eq (hdocument : ∀ s ∈ Setting.all, (documentUpdate entries s).isSome)
    (htexts : ∀ p ∈ entries.map pairOf, (textUpdate p).isSome) (c : Config) :
    applyAll ((entries.map pairOf).filterMap textUpdate) c =
      applyAll (Setting.all.filterMap (documentUpdate entries)) c := by
  refine ext_values (List.map_congr_left fun t ht => ?_)
  obtain ⟨u, hu⟩ := Option.isSome_iff_exists.1 (hdocument t ht)
  obtain ⟨f, hf, rfl⟩ := Option.map_eq_some_iff.1 hu
  rw [(areApart_document h).value_of_mem (List.mem_filterMap.2 ⟨t, ht, hu⟩)]
  rcases mem_or_absent entries t.key with ⟨v, hv⟩ | habsent
  · have hpair : pairOf (t.key, v) ∈ entries.map pairOf := List.mem_map_of_mem hv
    obtain ⟨⟨s, g⟩, hg⟩ := Option.isSome_iff_exists.1 (htexts _ hpair)
    obtain ⟨hkey, hchange, hs, -⟩ := textUpdate_eq_some h hwords hv hg
    obtain rfl : s = t := eq_of_key_eq hs ht hkey
    rw [h.ofDocument?_of_mem hs hv] at hf
    rw [SettingKind.change?_unique (hasLowerWords_all s hs) hf hchange]
    exact (areApart_texts h hwords).value_of_mem (List.mem_filterMap.2 ⟨_, hpair, hg⟩) c
  · rw [h.ofDocument?_of_absent ht habsent] at hf
    cases hf
    refine value_applyAll_of_ne (areApart_texts h hwords).sound ht (fun u hu => ?_) c
    obtain ⟨p, hp, hpu⟩ := List.mem_filterMap.1 hu
    obtain ⟨e, he, rfl⟩ := List.mem_map.1 hp
    rw [(textUpdate_eq_some h hwords he hpu).1]
    exact (habsent e he).symm

end

/-- The settings, said to come from a file. -/
def withFile (c : Config) (path : Option String) : Config :=
  { c with configFile := path }

theorem load_eq_ok {home path : String} {files : Files} {file : File} {document : Toml.Entries}
    (hread : files.read path = .ok file) (htext : Toml.ofText? file.text = some document)
    {c : Config} : load home files path = .ok c ↔
      ∃ d, ofDocument? home document = some d ∧ d.withFile (some path) = c := by
  unfold load
  rw [hread]
  dsimp only
  rw [htext, Option.bind_some]
  cases ofDocument? home document with
  | none => simp
  | some d => simp [withFile]

theorem load_accepts_iff {home path : String} {files : Files} {file : File}
    (hread : files.read path = .ok file)
    (htext : Toml.ofText? file.text = some (documentOf entries)) (h : AreListed entries) :
    (∃ c, load home files path = .ok c) ↔
      ∀ e ∈ entries, ∀ s ∈ Setting.all, s.key = e.1 → s.kind.admits id id e.2 = true := by
  rw [← documentUpdate_accepts_iff h]
  simp only [load_eq_ok hread htext, ofDocument?_eq_some]
  constructor
  · rintro ⟨_, _, ⟨hsome, -⟩, -⟩
    exact hsome
  · intro hsome
    exact ⟨_, _, ⟨hsome, rfl⟩, rfl⟩

theorem setEach_accepts_iff {text : String} (htext : Toml.ofText? text = some (documentOf entries))
    (h : AreListed entries) (c : Config) :
    (∃ d, c.setEach (entries.map pairOf) = .ok d) ↔
      ∀ e ∈ entries, ∃ s ∈ Setting.all, s.key = e.1 ∧
        s.kind.admits Text.trimmed Text.lower e.2 = true := by
  rw [← textUpdate_accepts_iff h (fitsWord_of_document h.names htext)]
  simp only [setEach_eq_ok]
  constructor
  · rintro ⟨_, hsome, -⟩
    exact hsome
  · intro hsome
    exact ⟨_, hsome, rfl⟩

/-- The settings of a file with entries for settings, against the same entries set one after the other by
key and text. The file is taken if the values can be put as they are; what is for no setting does not
matter. The texts are taken if all of them are for settings, and if they can be put once characters are
trimmed and words are in lower case. If both are taken, the settings are the same, apart from the file that
they come from. If all entries are for settings, with plain characters and words, one is taken if the
other is. -/
theorem load_agrees_with_set {home path : String} {files : Files} {file : File}
    {entries : List (String × Scalar)} (hread : files.read path = .ok file)
    (htext : Toml.ofText? file.text = some (documentOf entries)) (h : AreListed entries) :
    ((∃ c, load home files path = .ok c) ↔
      ∀ e ∈ entries, ∀ s ∈ Setting.all, s.key = e.1 → s.kind.admits id id e.2 = true) ∧
    ((∃ c, (initial home).setEach (entries.map pairOf) = .ok c) ↔
      ∀ e ∈ entries, ∃ s ∈ Setting.all, s.key = e.1 ∧
        s.kind.admits Text.trimmed Text.lower e.2 = true) ∧
    (∀ c d, load home files path = .ok c → (initial home).setEach (entries.map pairOf) = .ok d →
      c.withFile none = d.withFile none) ∧
    ((∀ e ∈ entries, ∃ s ∈ Setting.all, s.key = e.1 ∧ s.kind.isPlain e.2 = true) →
      ((∃ c, load home files path = .ok c) ↔
        ∃ c, (initial home).setEach (entries.map pairOf) = .ok c)) := by
  have hloads := @load_accepts_iff _ home _ _ _ hread htext h
  have hsets := setEach_accepts_iff htext h (initial home)
  refine ⟨hloads, hsets, ?_, fun hplain => ?_⟩
  · intro c d hc hd
    obtain ⟨c, hdocument, rfl⟩ := (load_eq_ok hread htext).1 hc
    obtain ⟨haccepted, rfl⟩ := ofDocument?_eq_some.1 hdocument
    obtain ⟨htexts, rfl⟩ := setEach_eq_ok.1 hd
    rw [applyAll_eq h (fitsWord_of_document h.names htext) haccepted htexts]
    rfl
  · rw [hloads, hsets]
    refine forall₂_congr fun e he => ?_
    obtain ⟨s, hs, hkey, hp⟩ := hplain e he
    constructor
    · intro hadmits
      exact ⟨s, hs, hkey, (SettingKind.admits_of_isPlain hp).symm.trans (hadmits s hs hkey)⟩
    · rintro ⟨t, ht, htkey, hadmits⟩ u hu hukey
      obtain rfl : t = s := eq_of_key_eq ht hs (htkey.trans hkey.symm)
      obtain rfl : u = t := eq_of_key_eq hu ht (hukey.trans htkey.symm)
      exact (SettingKind.admits_of_isPlain hp).trans hadmits

/-- A document is known by the values in it if these are not nested. -/
theorem eq_of_ofToml? {t : Toml.Entries} {entries : List (String × Scalar)}
    (h : t.map (fun e => (e.1, Scalar.ofToml? e.2)) = entries.map fun e => (e.1, some e.2)) :
    t = entries.map fun e => (e.1, e.2.toml) := by
  induction t generalizing entries with
  | nil =>
      cases entries with
      | nil => rfl
      | cons e entries => cases h
  | cons e t ih =>
      cases entries with
      | nil => cases h
      | cons e' entries =>
          obtain ⟨he, h⟩ := List.cons.inj h
          obtain ⟨hkey, hvalue⟩ := Prod.mk.inj he
          rw [List.map_cons, ih h, ← hkey, ← Scalar.toml_of_ofToml? hvalue]

theorem ofText?_eq_documentOf {text : String} {entries : List (String × Scalar)}
    (hsorted : entries.Pairwise fun a b => a.1 < b.1)
    (h : (Toml.ofText? text).map (fun t => t.map fun e => (e.1, Scalar.ofToml? e.2)) =
      some (entries.map fun e => (e.1, some e.2))) :
    Toml.ofText? text = some (documentOf entries) := by
  obtain ⟨t, ht, hvalues⟩ := Option.map_eq_some_iff.1 h
  have hdocument : Dict.Sorted (entries.map fun e => (e.1, e.2.toml)) :=
    List.pairwise_map.2 hsorted
  rw [ht, documentOf, hdocument.ofEntries_eq, eq_of_ofToml? hvalues]

/-- Three settings of different types. -/
theorem load_agrees_with_set_three :
    ∃ c d, load "" [("config.toml", ⟨"dryrun = true\nmaxresults = 5\noutput = \"json\"\n", 0⟩)]
        "config.toml" = .ok c ∧
      (initial "").setEach [("dryrun", "true"), ("maxresults", "5"), ("output", "json")] = .ok d ∧
      c.withFile none = d.withFile none := by
  have hread : Files.read
      [("config.toml", ⟨"dryrun = true\nmaxresults = 5\noutput = \"json\"\n", 0⟩)] "config.toml" =
        .ok ⟨"dryrun = true\nmaxresults = 5\noutput = \"json\"\n", 0⟩ :=
    eq_ok_of_toOption (by decide +kernel)
  have htext : Toml.ofText? "dryrun = true\nmaxresults = 5\noutput = \"json\"\n" =
      some (documentOf [("dryrun", .flag true), ("maxresults", .integer 5), ("output", .string "json")]) :=
    ofText?_eq_documentOf (by decide +kernel) (by decide +kernel)
  have hlisted : AreListed
      [("dryrun", .flag true), ("maxresults", .integer 5), ("output", .string "json")] :=
    ⟨by decide +kernel, fun e he => Or.inl (by revert e he; decide +kernel)⟩
  obtain ⟨hloads, hsets, hsame, -⟩ := @load_agrees_with_set "" _ _ _ _ hread htext hlisted
  obtain ⟨c, hc⟩ := hloads.2 (by decide +kernel)
  obtain ⟨d, hd⟩ := hsets.2 (by decide +kernel)
  exact ⟨c, d, hc, hd, hsame c d hc hd⟩

/-- A name that is no setting is passed over in a file, and it is refused if it is set. -/
theorem not_load_iff_set :
    ¬∀ (home path : String) (files : Files) (file : File) (entries : List (String × Scalar)),
      files.read path = .ok file → Toml.ofText? file.text = some (documentOf entries) →
      AreListed entries →
      ((∃ c, load home files path = .ok c) ↔
        ∃ c, (initial home).setEach (entries.map pairOf) = .ok c) := by
  intro hall
  have hread : Files.read [("config.toml", ⟨"nosuchkey = 1\n", 0⟩)] "config.toml" =
      .ok ⟨"nosuchkey = 1\n", 0⟩ :=
    eq_ok_of_toOption (by decide +kernel)
  have htext : Toml.ofText? "nosuchkey = 1\n" = some (documentOf [("nosuchkey", .integer 1)]) :=
    ofText?_eq_documentOf (by decide +kernel) (by decide +kernel)
  have hnothing : NamesNothing "nosuchkey" := by
    unfold NamesNothing
    decide +kernel
  have hlisted : AreListed [("nosuchkey", .integer 1)] := by
    refine ⟨List.nodup_singleton _, fun e he => ?_⟩
    obtain rfl := List.mem_singleton.1 he
    exact Or.inr hnothing
  have hload := (@load_accepts_iff _ "" _ _ _ hread htext hlisted).2 (by
    intro e he s hs hkey
    obtain rfl := List.mem_singleton.1 he
    exact absurd hkey (hnothing.ne hs))
  obtain ⟨s, hs, hkey, -⟩ := (setEach_accepts_iff htext hlisted (initial "")).1
    ((hall "" _ _ _ _ hread htext hlisted).1 hload) _ List.mem_cons_self
  exact hnothing.ne hs hkey

end Config

end RestSql
