import Mathlib.Data.List.TakeWhile
import RestSql.Proofs.Encoding
import RestSql.Proofs.Steps
import RestSql.Url.Reader

/-!
# Reading URL texts

A text `scheme://host/dir/…/` with segments after it is read segment by segment (`Base.ofText_append`), if
no segment holds a character that ends it or is dropped, or is read as a dot segment. Nothing else is
assumed of the scheme, the host and the directories.
-/

namespace RestSql

namespace Url

/-! ## Reading a text -/

/-- A character that is kept where it stands, and ends neither the authority nor a segment. -/
def isBare (special : Bool) (c : Char) : Bool :=
  !(endsAuthority special c || c = '\t' || c = '\n' || c = '\r')

theorem ne_of_isBare {special : Bool} {c : Char} (h : isBare special c = true) :
    c ≠ '/' ∧ c ≠ '?' ∧ c ≠ '#' ∧ (special = false ∨ c ≠ '\\') ∧ c ≠ '\t' ∧ c ≠ '\n' ∧ c ≠ '\r' := by
  simpa [isBare, endsAuthority, and_assoc] using h

theorem clean_eq_self {cs : List Char} (hfirst : ∀ x ∈ cs.head?, 0x20 < x.toNat)
    (hlast : ∀ x ∈ cs.getLast?, 0x20 < x.toNat)
    (hkept : ∀ x ∈ cs, x ≠ '\t' ∧ x ≠ '\n' ∧ x ≠ '\r') : clean cs = cs := by
  have hdrop {l : List Char} (h : ∀ x ∈ l.head?, 0x20 < x.toNat) :
      l.dropWhile (fun x => decide (x.toNat ≤ 0x20)) = l := by
    cases l with
    | nil => rfl
    | cons x l => exact List.dropWhile_cons_of_neg (by simpa using h x rfl)
  rw [← List.head?_reverse] at hlast
  unfold clean
  dsimp only
  rw [hdrop hfirst, hdrop hlast, List.reverse_reverse, List.filter_eq_self]
  intro x hx
  simpa [and_assoc] using hkept x hx

theorem lt_of_isSchemeChar {c : Char} (h : isSchemeChar c = true) : 0x20 < c.toNat := by
  have hblank : ∀ n ≤ 0x20, isSchemeChar (Char.ofNat n) = false := by decide
  by_contra hle
  have := hblank c.toNat (Nat.le_of_not_lt hle)
  rw [Char.ofNat_toNat, h] at this
  cases this

/-- A scheme: a letter and what a scheme continues with. -/
def isScheme (cs : List Char) : Bool :=
  match cs with
  | c :: cs => c.isAlpha && cs.all isSchemeChar
  | [] => false

theorem isSchemeChar_of_isScheme {cs : List Char} (h : isScheme cs = true) :
    ∀ c ∈ cs, isSchemeChar c = true := by
  match cs, h with
  | c :: cs, h =>
    rw [isScheme, Bool.and_eq_true, List.all_eq_true] at h
    rw [List.forall_mem_cons]
    exact ⟨by simp [isSchemeChar, Char.isAlphanum, h.1], h.2⟩

theorem scheme?_append {scheme : List Char} (h : isScheme scheme = true) (rest : List Char) :
    scheme? (scheme ++ ':' :: rest) = some (String.ofList (scheme.map Char.toLower), rest) := by
  match scheme, h with
  | c :: cs, h =>
    rw [isScheme, Bool.and_eq_true, List.all_eq_true] at h
    have hcolon : ¬isSchemeChar ':' = true := by decide
    rw [List.cons_append, scheme?, if_pos h.1, List.dropWhile_append_of_pos h.2,
      List.dropWhile_cons_of_neg hcolon, List.takeWhile_append_of_pos h.2,
      List.takeWhile_cons_of_neg hcolon, List.append_nil]
    rfl

/-! ## Segments -/

/-- A segment as it stands in a URL. -/
def segment (cs : List Char) : String :=
  String.ofList (Percent.encode Percent.inPath cs)

/-- A text that is one segment of a path. -/
structure IsSegment (special : Bool) (cs : List Char) : Prop where
  bare : ∀ c ∈ cs, isBare special c = true
  ne_dot : Percent.decode cs ≠ ['.']
  ne_dots : Percent.decode cs ≠ ['.', '.']

theorem decode_segment (cs : List Char) : Percent.decode (segment cs).toList = Percent.decode cs := by
  rw [segment, String.toList_ofList]
  exact Percent.decode_encode_of_digits (by decide) (by decide) cs

theorem ne_of_mem_segment {special : Bool} {cs : List Char} (h : IsSegment special cs) {c : Char}
    (hc : c ∈ (segment cs).toList) : c ≠ '/' ∧ c ≠ '?' ∧ c ≠ '#' := by
  rw [segment, String.toList_ofList] at hc
  rcases Percent.mem_encode hc with ⟨hc, -⟩ | rfl | hc
  · have hbare := ne_of_isBare (h.bare c hc)
    exact ⟨hbare.1, hbare.2.1, hbare.2.2.1⟩
  · decide
  · refine ⟨?_, ?_, ?_⟩ <;> rintro rfl <;> exact absurd hc (by decide)

theorem eq_of_toLower_eq {c d : Char} (h : c.toLower = d) : c = d ∨ c = d.toUpper := by
  have hback : ∀ n ≤ 90, 65 ≤ n → (Char.ofNat n).toLower.toUpper = Char.ofNat n := by decide
  by_cases hupper : c.toNat ≤ 90 ∧ 65 ≤ c.toNat
  · have := hback c.toNat hupper.1 hupper.2
    rw [Char.ofNat_toNat, h] at this
    exact .inr this.symm
  · unfold Char.toLower at h
    split at h
    · next h' =>
      exact absurd ⟨UInt32.le_iff_toNat_le.1 h'.2, UInt32.le_iff_toNat_le.1 h'.1⟩ hupper
    · exact .inl h

/-- A dot, maybe percent-encoded. -/
def IsDot (cs : List Char) : Prop :=
  cs.map Char.toLower = ['.'] ∨ cs.map Char.toLower = ['%', '2', 'e']

theorem IsDot.decodeBytes_append {cs : List Char} (h : IsDot cs) (rest : List Char) :
    Percent.decodeBytes (cs ++ rest) = Text.utf8 ['.'] ++ Percent.decodeBytes rest := by
  have same {c d : Char} (hd : d.toUpper = d) (h : c.toLower = d) : c = d :=
    (eq_of_toLower_eq h).elim id fun h => h.trans hd
  rcases h with h | h
  · obtain ⟨a, cs, rfl, ha, hnil⟩ := List.map_eq_cons_iff.1 h
    rw [List.map_eq_nil_iff.1 hnil, same rfl ha]
    exact Percent.decodeBytes_cons_of_ne (by decide) rest
  · obtain ⟨a, cs, rfl, ha, h⟩ := List.map_eq_cons_iff.1 h
    obtain ⟨b, cs, rfl, hb, h⟩ := List.map_eq_cons_iff.1 h
    obtain ⟨c, cs, rfl, hc, hnil⟩ := List.map_eq_cons_iff.1 h
    rw [List.map_eq_nil_iff.1 hnil, same rfl ha, same rfl hb]
    rcases eq_of_toLower_eq hc with rfl | rfl <;> rfl

theorem decode_of_isSingleDot {s : String} (h : isSingleDot s = true) :
    Percent.decode s.toList = ['.'] := by
  have hdot : IsDot s.toList := by
    simpa [isSingleDot, Text.lower, ← String.toList_inj, IsDot] using h
  have hbytes := hdot.decodeBytes_append []
  rw [List.append_nil] at hbytes
  rw [Percent.decode, hbytes]
  exact Text.ofUtf8_utf8 ['.']

theorem decode_of_isDoubleDot {s : String} (h : isDoubleDot s = true) :
    Percent.decode s.toList = ['.', '.'] := by
  have hsplit : ∃ x y, s.toList.map Char.toLower = x ++ y ∧ (x = ['.'] ∨ x = ['%', '2', 'e']) ∧
      (y = ['.'] ∨ y = ['%', '2', 'e']) := by
    simp only [isDoubleDot, List.contains_eq_mem, decide_eq_true_eq, List.mem_cons, List.not_mem_nil,
      or_false, Text.lower, ← String.toList_inj, String.toList_map] at h
    rcases h with h | h | h | h
    · exact ⟨['.'], ['.'], h, .inl rfl, .inl rfl⟩
    · exact ⟨['%', '2', 'e'], ['%', '2', 'e'], h, .inr rfl, .inr rfl⟩
    · exact ⟨['%', '2', 'e'], ['.'], h, .inr rfl, .inl rfl⟩
    · exact ⟨['.'], ['%', '2', 'e'], h, .inl rfl, .inr rfl⟩
  obtain ⟨x, y, hlower, hx, hy⟩ := hsplit
  obtain ⟨a, b, hs, rfl, rfl⟩ := List.map_eq_append_iff.1 hlower
  have ha : IsDot a := hx
  have hbytes := IsDot.decodeBytes_append hy []
  rw [List.append_nil] at hbytes
  rw [Percent.decode, hs, ha.decodeBytes_append, hbytes]
  exact Text.ofUtf8_utf8 ['.', '.']

theorem resolveDots_eq_append {done segments : List String}
    (h : ∀ s ∈ segments, isDoubleDot s = false ∧ isSingleDot s = false) :
    resolveDots done segments = done ++ segments := by
  induction segments generalizing done with
  | nil => simp [resolveDots]
  | cons s segments ih =>
    rw [List.forall_mem_cons] at h
    cases segments with
    | nil => simp [resolveDots, h.1]
    | cons t segments =>
      rw [resolveDots, if_neg (by simp [h.1]), if_neg (by simp [h.1]), ih h.2, List.append_assoc]
      · rfl
      · simp

theorem segmentsOf_intercalate {special : Bool} {pieces : List (List Char)} (hne : pieces ≠ [])
    (h : ∀ piece ∈ pieces, IsSegment special piece) :
    segmentsOf special (List.intercalate ['/'] pieces) = pieces.map segment := by
  have hslash : ∀ piece ∈ pieces, ∀ c ∈ piece, (c = '/' || (special && c = '\\') : Bool) = false := by
    intro piece hpiece c hc
    have := ne_of_isBare ((h piece hpiece).bare c hc)
    cases special <;> simp_all
  have hdots : ∀ s ∈ pieces.map segment, isDoubleDot s = false ∧ isSingleDot s = false := by
    intro s hs
    obtain ⟨piece, hpiece, rfl⟩ := List.mem_map.1 hs
    constructor
    · refine Bool.eq_false_iff.2 fun hdots => (h piece hpiece).ne_dots ?_
      rw [← decode_segment, decode_of_isDoubleDot hdots]
    · refine Bool.eq_false_iff.2 fun hdot => (h piece hpiece).ne_dot ?_
      rw [← decode_segment, decode_of_isSingleDot hdot]
  unfold segmentsOf
  rw [Text.cut_intercalate (by simp) hne hslash]
  exact (resolveDots_eq_append hdots).trans (List.nil_append _)

/-! ## Base addresses -/

/-- The text `scheme://host/dir/…/` in its parts. The directory of a file URL is not the root, where empty
segments get lost. -/
structure Base where
  scheme : String
  host : String
  dirs : List String
  isScheme_scheme : isScheme scheme.toList = true
  host_ne : host ≠ ""
  isBare_host : ∀ c ∈ host.toList, isBare (isSpecial (Text.lower scheme)) c = true
  dir_ne : ∀ d ∈ dirs, d ≠ ""
  isSegment_dir : ∀ d ∈ dirs, IsSegment (isSpecial (Text.lower scheme)) d.toList
  dirs_ne : Text.lower scheme = "file" → dirs ≠ []

namespace Base

variable (b : Base)

def lowerScheme : String :=
  Text.lower b.scheme

def special : Bool :=
  isSpecial b.lowerScheme

def text : String :=
  b.scheme ++ "://" ++ b.host ++ "/" ++ String.join (b.dirs.map (· ++ "/"))

/-- What the host is read as. -/
def authority : Except UrlError Authority :=
  if b.lowerScheme = "file" then
    (fileHostOf b.host.toList).map fun host => { user := "", password := "", host, port := none }
  else authorityOf b.lowerScheme b.host.toList

/-- The URL with an authority and segments below the base. -/
def url (a : Authority) (segments : List String) : Url :=
  { scheme := b.lowerScheme, authority := some a
    path := .segments (b.dirs.map (segment ·.toList) ++ segments), query := none, fragment := none }

theorem toList_text_append (pieces : List (List Char)) (hne : pieces ≠ []) :
    (b.text ++ String.ofList (List.intercalate ['/'] pieces)).toList =
      b.scheme.toList ++ ':' :: ('/' :: '/' :: (b.host.toList ++
        '/' :: List.intercalate ['/'] (b.dirs.map String.toList ++ pieces))) := by
  rw [Text.intercalate_append _ _ hne]
  simp [text, String.toList_append, String.toList_join, List.flatMap_map]

theorem cut_host (rest : List Char) :
    (b.host.toList ++ '/' :: rest).takeWhile (!endsAuthority b.special ·) = b.host.toList ∧
      (b.host.toList ++ '/' :: rest).dropWhile (!endsAuthority b.special ·) = '/' :: rest := by
  have hhost : ∀ c ∈ b.host.toList, (!endsAuthority b.special c) = true := by
    intro c hc
    have hbare := b.isBare_host c hc
    simp only [isBare, Bool.not_or, Bool.and_eq_true] at hbare
    exact hbare.1.1.1
  have hslash : ¬(!endsAuthority b.special '/') = true := by simp [endsAuthority]
  rw [List.takeWhile_append_of_pos hhost, List.dropWhile_append_of_pos hhost,
    List.takeWhile_cons_of_neg (p := (!endsAuthority b.special ·)) hslash,
    List.dropWhile_cons_of_neg (p := (!endsAuthority b.special ·)) hslash, List.append_nil]
  exact ⟨rfl, rfl⟩

section

variable {pieces : List (List Char)} (hne : pieces ≠ [])
  (hpieces : ∀ piece ∈ pieces, IsSegment b.special piece)

include hpieces in
theorem cut_path :
    ('/' :: List.intercalate ['/'] pieces).takeWhile (!endsPath ·) =
        '/' :: List.intercalate ['/'] pieces ∧
      ('/' :: List.intercalate ['/'] pieces).dropWhile (!endsPath ·) = [] := by
  have hpath : ∀ c ∈ '/' :: List.intercalate ['/'] pieces, (!endsPath c) = true := by
    intro c hc
    rcases List.mem_cons.1 hc with rfl | hc
    · rfl
    rcases Text.eq_or_mem_of_mem_intercalate hc with rfl | ⟨piece, hpiece, hc⟩
    · rfl
    · have := ne_of_isBare ((hpieces piece hpiece).bare c hc)
      simp [endsPath, this]
  exact ⟨List.takeWhile_eq_self_iff.2 hpath, List.dropWhile_eq_nil_iff.2 hpath⟩

include hne hpieces

theorem withAuthority_eq :
    withAuthority b.lowerScheme (b.host.toList ++ '/' :: List.intercalate ['/'] pieces) =
      (authorityOf b.lowerScheme b.host.toList).map fun a =>
        { scheme := b.lowerScheme, authority := some a, path := .segments (pieces.map segment)
          query := none, fragment := none } := by
  have hhost := b.cut_host (List.intercalate ['/'] pieces)
  have hpath := b.cut_path hpieces
  unfold withAuthority
  dsimp only
  rw [← special, hhost.1, hhost.2, hpath.1, hpath.2, pathOf]
  simp only [decide_true, Bool.true_or, if_true]
  rw [segmentsOf_intercalate hne hpieces]
  cases authorityOf b.lowerScheme b.host.toList <;> rfl

theorem ofFile_eq (hscheme : b.lowerScheme = "file") (hfirst : ∀ piece ∈ pieces.head?, piece ≠ []) :
    ofFile ('/' :: '/' :: (b.host.toList ++ '/' :: List.intercalate ['/'] pieces)) =
      (fileHostOf b.host.toList).map fun host =>
        { scheme := "file", authority := some { user := "", password := "", host, port := none }
          path := .segments (pieces.map segment), query := none, fragment := none } := by
  have hspecial : b.special = true := by rw [special, hscheme]; decide
  have hhost := b.cut_host (List.intercalate ['/'] pieces)
  have hpath := b.cut_path hpieces
  rw [hspecial] at hhost hpieces
  obtain ⟨piece, pieces, rfl⟩ := List.exists_cons_of_ne_nil hne
  have hpiece := hfirst piece rfl
  have hdrop : ('/' :: List.intercalate ['/'] (piece :: pieces)).dropWhile
      (fun c => c = '/' || c = '\\') = List.intercalate ['/'] (piece :: pieces) := by
    obtain ⟨c, cs, rfl⟩ := List.exists_cons_of_ne_nil hpiece
    obtain ⟨rest, hrest⟩ : ∃ rest, List.intercalate ['/'] ((c :: cs) :: pieces) = c :: rest := by
      cases pieces with
      | nil => exact ⟨cs, List.intercalate_singleton⟩
      | cons d pieces => exact ⟨_, List.intercalate_cons_cons⟩
    have hc := ne_of_isBare ((hpieces (c :: cs) List.mem_cons_self).bare c List.mem_cons_self)
    have hslash : c ≠ '/' ∧ c ≠ '\\' := ⟨hc.1, hc.2.2.2.1.resolve_left (by decide)⟩
    rw [hrest, List.dropWhile_cons_of_pos (by simp),
      List.dropWhile_cons_of_neg (by simpa using hslash)]
  have hkept : ((piece :: pieces).map segment).dropWhile (· == "") =
      (piece :: pieces).map segment := by
    have hsegment : segment piece ≠ "" := by
      rw [segment, ← String.toList_inj.ne, String.toList_ofList]
      exact Percent.encode_ne_nil hpiece
    rw [List.map_cons, List.dropWhile_cons_of_neg (by simpa using hsegment)]
  unfold ofFile
  simp only [decide_true, Bool.true_or, Bool.and_self, if_true]
  rw [hhost.1, hhost.2, hpath.1, hpath.2, hdrop, segmentsOf_intercalate hne hpieces, hkept]
  cases fileHostOf b.host.toList <;> rfl

theorem clean_text_append (hlast : ∀ piece ∈ pieces.getLast?, ∀ c ∈ piece.getLast?, 0x20 < c.toNat) :
    clean (b.scheme.toList ++ ':' :: ('/' :: '/' :: (b.host.toList ++
        '/' :: List.intercalate ['/'] pieces))) =
      b.scheme.toList ++ ':' :: ('/' :: '/' :: (b.host.toList ++
        '/' :: List.intercalate ['/'] pieces)) := by
  have hscheme : ∀ c ∈ b.scheme.toList, 0x20 < c.toNat :=
    fun c hc => lt_of_isSchemeChar (isSchemeChar_of_isScheme b.isScheme_scheme c hc)
  have hvisible {x : Char} (h : 0x20 < x.toNat) : x ≠ '\t' ∧ x ≠ '\n' ∧ x ≠ '\r' := by
    refine ⟨?_, ?_, ?_⟩ <;> rintro rfl <;> exact absurd h (by decide)
  refine clean_eq_self (fun x hx => ?_) (fun x hx => ?_) fun x hx => ?_
  · rw [List.head?_append] at hx
    cases hhead : b.scheme.toList.head? with
    | none =>
      rw [hhead] at hx
      obtain rfl : ':' = x := by simpa using hx
      decide
    | some c =>
      rw [hhead] at hx
      obtain rfl : c = x := by simpa using hx
      exact hscheme c (List.mem_of_mem_head? hhead)
  · -- the text ends like its last segment, or with the slash before it
    have hsplit : b.scheme.toList ++ ':' :: ('/' :: '/' :: (b.host.toList ++
        '/' :: List.intercalate ['/'] pieces)) =
        (b.scheme.toList ++ ':' :: '/' :: '/' :: b.host.toList) ++
          '/' :: List.intercalate ['/'] pieces := by
      simp
    have hpiece := List.getLast?_eq_some_getLast hne
    rw [hsplit, List.getLast?_append, Text.getLast?_intercalate, hpiece, Option.some_or,
      Option.getD_some, Option.mem_some_iff] at hx
    subst hx
    cases hc : (pieces.getLast hne).getLast? with
    | none => decide
    | some c => exact hlast _ hpiece c hc
  · simp only [List.mem_cons, List.mem_append] at hx
    rcases hx with hx | rfl | rfl | rfl | hx | rfl | hx
    · exact hvisible (hscheme x hx)
    · decide
    · decide
    · decide
    · exact (ne_of_isBare (b.isBare_host x hx)).2.2.2.2
    · decide
    · rcases Text.eq_or_mem_of_mem_intercalate hx with rfl | ⟨piece, hpiece, hx⟩
      · decide
      · exact (ne_of_isBare ((hpieces piece hpiece).bare x hx)).2.2.2.2

end

theorem dropWhile_slashes (hspecial : b.special = true) (rest : List Char) :
    ('/' :: '/' :: (b.host.toList ++ rest)).dropWhile (fun c => c = '/' || c = '\\') =
      b.host.toList ++ rest := by
  have hhost := b.host_ne
  rw [← String.toList_inj.ne] at hhost
  obtain ⟨c, cs, hcs⟩ := List.exists_cons_of_ne_nil hhost
  have hc := ne_of_isBare (b.isBare_host c (by simp [hcs]))
  have hslash : c ≠ '/' ∧ c ≠ '\\' :=
    ⟨hc.1, hc.2.2.2.1.resolve_left (by rw [← lowerScheme, ← special, hspecial]; decide)⟩
  rw [hcs, List.cons_append, List.dropWhile_cons_of_pos (by simp),
    List.dropWhile_cons_of_pos (by simp), List.dropWhile_cons_of_neg (by simpa using hslash)]

/-- A text below a base is read segment by segment. -/
theorem ofText_append {pieces : List (List Char)} (hne : pieces ≠ [])
    (hpieces : ∀ piece ∈ pieces, IsSegment b.special piece)
    (hlast : ∀ piece ∈ pieces.getLast?, ∀ c ∈ piece.getLast?, 0x20 < c.toNat) :
    ofText (b.text ++ String.ofList (List.intercalate ['/'] pieces)) =
      b.authority.map fun a => b.url a (pieces.map segment) := by
  have hall : ∀ piece ∈ b.dirs.map String.toList ++ pieces, IsSegment b.special piece := by
    intro piece hpiece
    rcases List.mem_append.1 hpiece with hpiece | hpiece
    · obtain ⟨d, hd, rfl⟩ := List.mem_map.1 hpiece
      exact b.isSegment_dir d hd
    · exact hpieces piece hpiece
  have hnil : b.dirs.map String.toList ++ pieces ≠ [] := List.append_ne_nil_of_right_ne_nil _ hne
  have hend : ∀ piece ∈ (b.dirs.map String.toList ++ pieces).getLast?,
      ∀ c ∈ piece.getLast?, 0x20 < c.toNat := by
    rw [List.getLast?_append, List.getLast?_eq_some_getLast hne, Option.some_or,
      ← List.getLast?_eq_some_getLast hne]
    exact hlast
  have hread := b.withAuthority_eq hnil hall
  have hurl : (b.dirs.map String.toList ++ pieces).map segment =
      b.dirs.map (segment ·.toList) ++ pieces.map segment := by
    simp [Function.comp_def]
  rw [ofText, b.toList_text_append pieces hne, b.clean_text_append hnil hall hend,
    scheme?_append b.isScheme_scheme]
  dsimp only
  rw [← String.toList_map, String.ofList_toList, ← Text.lower, ← lowerScheme]
  -- only a file URL drops empty segments at the front, and its base has none there
  by_cases hfile : b.lowerScheme = "file"
  · have hfirst : ∀ piece ∈ (b.dirs.map String.toList ++ pieces).head?, piece ≠ [] := by
      obtain ⟨d, dirs, hdirs⟩ := List.exists_cons_of_ne_nil (b.dirs_ne hfile)
      have hd : d.toList ≠ [] := by
        rw [← String.toList_empty, String.toList_inj.ne]
        exact b.dir_ne d (by simp [hdirs])
      simpa [hdirs] using hd
    rw [if_pos hfile, b.ofFile_eq hnil hall hfile hfirst, authority, if_pos hfile, hurl]
    cases fileHostOf b.host.toList with
    | error e => rfl
    | ok host => simp [url, hfile, Except.map]
  · rw [hurl] at hread
    rw [if_neg hfile, authority, if_neg hfile, ← special]
    cases hspecial : b.special with
    | true =>
      rw [if_pos rfl, b.dropWhile_slashes hspecial]
      exact hread
    | false => exact hread

end Base
end Url
end RestSql
