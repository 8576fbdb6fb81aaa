import RestSql.Proofs.Templates
import RestSql.Proofs.UrlReading
import RestSql.Request.Prepared

/-!
# The parts of an address

The address of a call is the base with segments and a query after it. Values of the query are read back
as they are, whatever they hold. A value in the path has only its slashes encoded, so it stays what it is,
and one segment, if it is `IsPlain` (`Method.address_tail`). A question mark in it, for one, ends the path.
-/

namespace RestSql

/-- What a reader finds in an address after its base. -/
structure AddressTail where
  segments : List String
  pairs : List (String × String)
  fragment : Option String
  deriving DecidableEq, Repr

namespace AddressTail

/-- The text cut at the first `#`, then at the first `?`, then at every `/`, each part decoded. -/
def ofText (text : String) : AddressTail :=
  let (cs, fragment) := match Text.cutFirst (· == '#') text.toList with
    | some (cs, f) => (cs, some (String.ofList f))
    | none => (text.toList, none)
  let (path, query) := match Text.cutFirst (· == '?') cs with
    | some (path, query) => (path, query)
    | none => (cs, [])
  { segments := (Text.cut (· == '/') path).map fun s => String.ofList (Percent.decode s)
    pairs := Percent.formPairs query, fragment }

def queryText (pairs : List (String × String)) : String :=
  if pairs = [] then "" else "?" ++ String.ofList (Percent.formText pairs)

theorem toList_queryText (pairs : List (String × String)) :
    (queryText pairs).toList = if pairs = [] then [] else '?' :: Percent.formText pairs := by
  unfold queryText
  split <;> simp

def pathText (pieces : List (List Char)) : List Char :=
  List.intercalate ['/'] (pieces.map fun piece => (Url.segment piece).toList)

section

variable {special : Bool} {pieces : List (List Char)}
  (hpieces : ∀ piece ∈ pieces, Url.IsSegment special piece)

include hpieces

theorem ne_of_mem_pathText {c : Char} (hc : c ∈ pathText pieces) : c ≠ '?' ∧ c ≠ '#' := by
  rcases Text.eq_or_mem_of_mem_intercalate hc with rfl | ⟨s, hs, hc⟩
  · decide
  · obtain ⟨piece, hpiece, rfl⟩ := List.mem_map.1 hs
    exact (Url.ne_of_mem_segment (hpieces piece hpiece) hc).2

theorem cut_pathText (hne : pieces ≠ []) :
    (Text.cut (· == '/') (pathText pieces)).map (fun s => String.ofList (Percent.decode s)) =
      pieces.map fun piece => String.ofList (Percent.decode piece) := by
  have hslash : ∀ s ∈ pieces.map (fun piece => (Url.segment piece).toList), ∀ c ∈ s,
      (c == '/') = false := by
    intro s hs c hc
    obtain ⟨piece, hpiece, rfl⟩ := List.mem_map.1 hs
    exact beq_eq_false_iff_ne.2 (Url.ne_of_mem_segment (hpieces piece hpiece) hc).1
  rw [pathText, Text.cut_intercalate rfl (by simpa using hne) hslash, List.map_map]
  exact List.map_congr_left fun piece _ => congrArg String.ofList (Url.decode_segment piece)

/-- What is written of a path and a query is read back. -/
theorem ofText_append (hne : pieces ≠ []) (pairs : List (String × String)) :
    ofText (String.intercalate "/" (pieces.map Url.segment) ++ queryText pairs) =
      { segments := pieces.map fun piece => String.ofList (Percent.decode piece), pairs
        fragment := none } := by
  have htext : (String.intercalate "/" (pieces.map Url.segment) ++ queryText pairs).toList =
      pathText pieces ++ (queryText pairs).toList := by
    rw [String.toList_append, String.toList_intercalate, List.map_map]
    rfl
  have hfragment : Text.cutFirst (· == '#') (pathText pieces ++ (queryText pairs).toList) = none := by
    refine Text.cutFirst_of_forall_not fun c hc => beq_eq_false_iff_ne.2 ?_
    rcases List.mem_append.1 hc with hc | hc
    · exact (ne_of_mem_pathText hpieces hc).2
    · rw [toList_queryText] at hc
      split at hc
      · cases hc
      · rcases List.mem_cons.1 hc with rfl | hc
        · decide
        · exact Percent.ne_number_of_mem_formText hc
  have hquestion : ∀ c ∈ pathText pieces, (c == '?') = false :=
    fun c hc => beq_eq_false_iff_ne.2 (ne_of_mem_pathText hpieces hc).1
  unfold ofText
  rw [htext, hfragment]
  dsimp only
  rw [toList_queryText]
  by_cases hpairs : pairs = []
  · rw [if_pos hpairs, List.append_nil, Text.cutFirst_of_forall_not hquestion]
    dsimp only
    rw [cut_pathText hpieces hne, hpairs]
    rfl
  · rw [if_neg hpairs, Text.cutFirst_append_cons hquestion rfl]
    dsimp only
    rw [cut_pathText hpieces hne, Percent.formPairs_formText]

end

end AddressTail

namespace Url.Base

variable (b : Base)

theorem text_withPairs (a : Authority) {segments : List String} (hne : segments ≠ [])
    (pairs : List (String × String)) :
    ((b.url a segments).withPairs pairs).text =
      (b.url a [""]).text ++ (String.intercalate "/" segments ++ AddressTail.queryText pairs) := by
  have hpath : (UrlPath.segments (b.dirs.map (segment ·.toList) ++ segments)).text =
      (UrlPath.segments (b.dirs.map (segment ·.toList) ++ [""])).text ++
        String.intercalate "/" segments := by
    have hjoin : segments.flatMap (fun s => '/' :: s.toList) =
        '/' :: List.intercalate ['/'] (segments.map String.toList) := by
      rw [← Text.flatMap_cons_eq_cons_intercalate '/' (by simpa using hne), List.flatMap_map]
    rw [← String.toList_inj]
    simp [UrlPath.text, String.toList_join, List.flatMap_map, hjoin]
  rw [withPairs_eq rfl]
  simp only [Url.text, guardText, url, hpath, AddressTail.queryText]
  by_cases hpairs : pairs = []
  · simp [hpairs, String.append_assoc]
  · simp [hpairs, String.append_assoc]

end Url.Base

/-! ## Values in a path -/

/-- A text that stays within one segment of a path and is read back as it is. -/
structure IsPlain (special : Bool) (text : String) : Prop where
  bare : ∀ c ∈ text.toList, c = '/' ∨ Url.isBare special c = true
  ne_dot : text ≠ "."
  ne_dots : text ≠ ".."
  decode_eq : Percent.decode text.toList = text.toList

def slashed (text : String) : List Char :=
  Percent.encode (· == '/') text.toList

theorem replace_slash (text : String) :
    Text.replace ['/'] ['%', '2', 'F'] text.toList = slashed text := by
  rw [Text.replace_singleton, slashed, Percent.encode]
  refine List.flatMap_congr fun c _ => ?_
  by_cases h : c = '/'
  · subst h
    rfl
  · rw [if_neg (Ne.symm h), if_neg (by simpa using h)]

theorem decode_slashed (text : String) : Percent.decode (slashed text) = Percent.decode text.toList :=
  Percent.decode_encode_of_digits rfl (by decide) text.toList

theorem getLast?_slashed {text : String} (h : ∀ c ∈ text.toList.getLast?, 0x20 < c.toNat) :
    ∀ c ∈ (slashed text).getLast?, 0x20 < c.toNat := by
  have hconcat (front : List Char) (d : Char) :
      Percent.encode (· == '/') (front ++ [d]) =
        Percent.encode (· == '/') front ++ Percent.encode (· == '/') [d] := by
    simp [Percent.encode]
  unfold slashed
  rcases List.eq_nil_or_concat' text.toList with hnil | ⟨front, d, hd⟩
  · rw [hnil]
    exact fun c hc => by cases hc
  · rw [hd, List.getLast?_concat] at h
    rw [hd, hconcat]
    by_cases hslash : d = '/'
    · subst hslash
      have hend : Percent.encode (· == '/') ['/'] = ['%', '2'] ++ ['F'] := rfl
      rw [hend, ← List.append_assoc, List.getLast?_concat]
      rintro c ⟨⟩
      decide
    · rw [Percent.encode_singleton_of_not (by simpa using hslash), List.getLast?_concat]
      exact h

theorem IsPlain.isSegment {special : Bool} {text : String} (h : IsPlain special text) :
    Url.IsSegment special (slashed text) := by
  have hdecode : Percent.decode (slashed text) = text.toList := (decode_slashed text).trans h.decode_eq
  refine ⟨fun c hc => ?_, ?_, ?_⟩
  · rcases Percent.mem_encode hc with ⟨hc, hslash⟩ | rfl | hc
    · exact (h.bare c hc).resolve_left (by simpa using hslash)
    · cases special <;> rfl
    · have hdigits : Percent.hexDigits.all (Url.isBare special) = true := by
        cases special <;> decide
      exact List.all_eq_true.1 hdigits c (Percent.mem_hexDigits hc)
  · rw [hdecode]
    exact fun hdot => h.ne_dot (String.toList_inj.1 hdot)
  · rw [hdecode]
    exact fun hdots => h.ne_dots (String.toList_inj.1 hdots)

namespace PathTemplate.Piece

def isUnreserved (c : Char) : Bool :=
  c.isAlphanum || c = '-' || c = '.' || c = '_' || c = '~'

/-- A segment of a template: a literal without anything that needs encoding, or one placeholder. -/
def IsProper : Piece → Prop
  | literal text => (∀ c ∈ text.toList, isUnreserved c = true) ∧ text ≠ "." ∧ text ≠ ".."
  | hole name => '\x7d' ∉ name.toList ∧ name.toList.head? ≠ some '+'

/-- The value of a placeholder is there, and plain. -/
def HasPlainValue (special : Bool) (values : Fields) : Piece → Prop
  | literal _ => True
  | hole name => ∃ v, Dict.find? values name = some v ∧ IsPlain special v.urlText

/-- What the segment stands for. -/
def content (values : Fields) : Piece → String
  | literal text => text
  | hole name => ((Dict.find? values name).map Json.urlText).getD ""

theorem isPlain_of_unreserved {special : Bool} {text : String}
    (h : ∀ c ∈ text.toList, isUnreserved c = true) (hdot : text ≠ ".") (hdots : text ≠ "..") :
    IsPlain special text := by
  have hne {c d : Char} (hc : c ∈ text.toList) (hd : isUnreserved d = false) : c ≠ d := by
    rintro rfl
    rw [h c hc] at hd
    cases hd
  refine ⟨fun c hc => .inr ?_, hdot, hdots, ?_⟩
  · simp [Url.isBare, Url.endsAuthority, hne hc (d := '/') (by decide), hne hc (d := '?') (by decide),
      hne hc (d := '#') (by decide), hne hc (d := '\\') (by decide), hne hc (d := '\t') (by decide),
      hne hc (d := '\n') (by decide), hne hc (d := '\r') (by decide)]
  · exact Percent.decode_of_not_mem fun hpercent => hne hpercent (by decide) rfl

variable {special : Bool} {values : Fields}

theorem placeholder_of_isProper {name : String} (h : (hole name).IsProper) :
    placeholder name = ⟨name, false⟩ := by
  unfold placeholder Placeholder.ofToken
  split
  · next hplus => exact absurd (by rw [hplus]; rfl) h.2
  · rw [String.ofList_toList]

theorem IsProper.isRead {part : Piece} (h : part.IsProper) : part.IsRead := by
  cases part with
  | literal text =>
    intro hbrace
    exact absurd (h.1 _ hbrace) (by decide)
  | hole name => exact h.1

theorem IsProper.hasValue {part : Piece} (h : part.IsProper)
    (hvalue : part.HasPlainValue special values) : part.HasValue values := by
  cases part with
  | literal text => trivial
  | hole name =>
    obtain ⟨v, hv, -⟩ := hvalue
    rw [HasValue, placeholder_of_isProper h, hv]
    rfl

theorem IsProper.isPlain_content {part : Piece} (h : part.IsProper)
    (hvalue : part.HasPlainValue special values) : IsPlain special (part.content values) := by
  cases part with
  | literal text => exact isPlain_of_unreserved h.1 h.2.1 h.2.2
  | hole name =>
    obtain ⟨v, hv, hplain⟩ := hvalue
    rwa [content, hv]

theorem IsProper.filled_eq {part : Piece} (h : part.IsProper) (hvalue : part.HasValue values) :
    part.filled values = slashed (part.content values) := by
  cases part with
  | literal text =>
    have hslash : ∀ c ∈ text.toList, (c == '/') = false := by
      intro c hc
      rw [beq_eq_false_iff_ne]
      rintro rfl
      exact absurd (h.1 _ hc) (by decide)
    exact (Percent.encode_eq_self hslash).symm
  | hole name =>
    obtain ⟨v, hv⟩ := Option.isSome_iff_exists.1 hvalue
    have hname := placeholder_of_isProper h
    rw [hname] at hv
    rw [filled, hname, hv, content, hv]
    exact replace_slash v.urlText

end PathTemplate.Piece

namespace Method

open PathTemplate

variable {b : Url.Base} {m : Method} {p : Parameters} {u : Url}

theorem eq_url_of_ofText (hbase : Url.ofText b.text = .ok u) :
    ∃ a, b.authority = .ok a ∧ u = b.url a [""] := by
  have hempty : Url.ofText (b.text ++ String.ofList (List.intercalate ['/'] [[]])) =
      b.authority.map fun a => b.url a [""] :=
    b.ofText_append (List.cons_ne_nil _ _)
      (List.forall_mem_singleton.2 ⟨by simp, by decide +kernel, by decide +kernel⟩) (by simp)
  rw [List.intercalate_singleton, String.ofList_nil, String.append_empty, hbase] at hempty
  obtain ⟨a, hauthority, hu⟩ := map_eq_ok.1 hempty.symm
  exact ⟨a, hauthority, hu.symm⟩

theorem address_of_expand {pieces : List (List Char)} (hne : pieces ≠ [])
    (hpieces : ∀ piece ∈ pieces, Url.IsSegment b.special piece)
    (hlast : ∀ piece ∈ pieces.getLast?, ∀ c ∈ piece.getLast?, 0x20 < c.toNat)
    (hexpand : expand m.path p.path = .ok (String.ofList (List.intercalate ['/'] pieces)))
    {a : Authority} (ha : b.authority = .ok a) :
    m.address b.text p = .ok ((b.url a [""]).text ++ (String.intercalate "/" (pieces.map Url.segment) ++
      AddressTail.queryText (p.query.map fun (k, v) => (k, v.urlText)))) := by
  rw [address, hexpand]
  dsimp only [bind, Except.bind]
  rw [b.ofText_append hne hpieces hlast, ha]
  dsimp only [Except.map]
  rw [b.text_withPairs a (by simpa using hne)]

/-- A method whose path is a list of literal segments and single placeholders has an address whose path
after the base is that list, with each value in its place, and whose query holds exactly the values of the
query. There is no fragment. -/
theorem address_tail {parts : List Piece}
    (hpath : m.path = String.intercalate "/" (parts.map (·.text))) (hne : parts ≠ [])
    (hproper : ∀ part ∈ parts, part.IsProper)
    (hvalue : ∀ part ∈ parts, part.HasPlainValue b.special p.path)
    (hlast : ∀ part ∈ parts.getLast?, ∀ c ∈ (part.content p.path).toList.getLast?, 0x20 < c.toNat)
    (hbase : Url.ofText b.text = .ok u) :
    u.path = .segments (b.dirs.map (Url.segment ·.toList) ++ [""]) ∧ u.query = none ∧
      u.fragment = none ∧
      ∃ tail, m.address b.text p = .ok (u.text ++ tail) ∧
        AddressTail.ofText tail =
          { segments := parts.map (·.content p.path)
            pairs := p.query.map fun (k, v) => (k, v.urlText)
            fragment := none } := by
  have hplain : ∀ part ∈ parts, IsPlain b.special (part.content p.path) :=
    fun part hpart => (hproper part hpart).isPlain_content (hvalue part hpart)
  have hhas : ∀ part ∈ parts, part.HasValue p.path :=
    fun part hpart => (hproper part hpart).hasValue (hvalue part hpart)
  have hsegment : ∀ piece ∈ parts.map fun part => slashed (part.content p.path),
      Url.IsSegment b.special piece := by
    intro piece hpiece
    obtain ⟨part, hpart, rfl⟩ := List.mem_map.1 hpiece
    exact (hplain part hpart).isSegment
  have hend : ∀ piece ∈ (parts.map fun part => slashed (part.content p.path)).getLast?,
      ∀ c ∈ piece.getLast?, 0x20 < c.toNat := by
    intro piece hpiece
    rw [List.getLast?_map, Option.mem_map] at hpiece
    obtain ⟨part, hpart, rfl⟩ := hpiece
    exact getLast?_slashed (hlast part hpart)
  have hexpand : expand m.path p.path = .ok (String.ofList
      (List.intercalate ['/'] (parts.map fun part => slashed (part.content p.path)))) := by
    rw [expand_intercalate (fun part hpart => (hproper part hpart).isRead) hhas hpath]
    exact congrArg (fun l => Except.ok (String.ofList (List.intercalate ['/'] l)))
      (List.map_congr_left fun part hpart => (hproper part hpart).filled_eq (hhas part hpart))
  have hmap : (parts.map fun part => slashed (part.content p.path)) ≠ [] := by simpa using hne
  obtain ⟨a, ha, rfl⟩ := eq_url_of_ofText hbase
  refine ⟨rfl, rfl, rfl, _, address_of_expand hmap hsegment hend hexpand ha, ?_⟩
  rw [AddressTail.ofText_append hsegment hmap, List.map_map]
  have hcontent : parts.map ((fun piece => String.ofList (Percent.decode piece)) ∘
      fun part => slashed (part.content p.path)) = parts.map (·.content p.path) := by
    refine List.map_congr_left fun part hpart => ?_
    rw [Function.comp_apply, decode_slashed, (hplain part hpart).decode_eq, String.ofList_toList]
  rw [hcontent]

/-- A method on the networks of a project. -/
def onNetworks : Method :=
  { id := "compute.networks.list", name := "list", path := "projects/\x7bproject\x7d/networks"
    verb := "GET", description := "", parameters := [], parameterOrder := [], request := none
    response := none }

/-- The values of a path and of a query. -/
def networkValues (project filter : String) : Parameters :=
  { Parameters.empty with path := [("project", .string project)], query := [("filter", .string filter)] }

def networksBase : Url.Base where
  scheme := "https"
  host := "compute.test"
  dirs := ["v1"]
  isScheme_scheme := by decide
  host_ne := by decide
  isBare_host := List.all_eq_true.1 (by decide +kernel)
  dir_ne := by decide
  isSegment_dir := by
    rw [List.forall_mem_singleton]
    exact ⟨List.all_eq_true.1 (by decide +kernel), by decide +kernel, by decide +kernel⟩
  dirs_ne := by decide +kernel

theorem address_tail_onNetworks :
    ∃ tail, onNetworks.address networksBase.text (networkValues "a/b c" "x&y=#") =
        .ok ("https://compute.test/v1/" ++ tail) ∧
      AddressTail.ofText tail =
        { segments := ["projects", "a/b c", "networks"], pairs := [("filter", "x&y=#")]
          fragment := none } := by
  let host : Authority := { user := "", password := "", host := .domain "compute.test", port := none }
  have hbase : Url.ofText networksBase.text = .ok (networksBase.url host [""]) := by decide +kernel
  have htext : (networksBase.url host [""]).text = "https://compute.test/v1/" := by decide +kernel
  have hliteral (text : String) (h : (text.toList.all Piece.isUnreserved && text != "." &&
      text != "..") = true) : (Piece.literal text).IsProper := by
    simpa [Piece.IsProper, and_assoc] using h
  have hproper : ∀ part ∈ [Piece.literal "projects", .hole "project", .literal "networks"],
      part.IsProper := by
    simp only [List.forall_mem_cons]
    exact ⟨hliteral "projects" (by decide +kernel), ⟨by decide +kernel, by decide +kernel⟩,
      hliteral "networks" (by decide +kernel), List.forall_mem_nil _⟩
  have hbare : "a/b c".toList.all (fun c => c == '/' || Url.isBare networksBase.special c) = true := by
    decide +kernel
  have hplain : IsPlain networksBase.special "a/b c" :=
    ⟨by simpa using hbare, by decide, by decide, by decide +kernel⟩
  have hvalue : ∀ part ∈ [Piece.literal "projects", .hole "project", .literal "networks"],
      part.HasPlainValue networksBase.special (networkValues "a/b c" "x&y=#").path := by
    simp only [List.forall_mem_cons]
    exact ⟨trivial, ⟨.string "a/b c", rfl, hplain⟩, trivial, List.forall_mem_nil _⟩
  have hlast : ∀ part ∈ [Piece.literal "projects", .hole "project", .literal "networks"].getLast?,
      ∀ c ∈ (part.content (networkValues "a/b c" "x&y=#").path).toList.getLast?, 0x20 < c.toNat := by
    have hend : "networks".toList.getLast? = some 's' := by decide +kernel
    intro part hpart c hc
    obtain rfl : Piece.literal "networks" = part := by simpa using hpart
    rw [Piece.content, hend] at hc
    cases hc
    decide
  obtain ⟨-, -, -, tail, haddress, htail⟩ := @address_tail networksBase onNetworks
    (networkValues "a/b c" "x&y=#") _ _ (by decide +kernel) (List.cons_ne_nil _ _) hproper hvalue
    hlast hbase
  refine ⟨tail, ?_, htail⟩
  rw [haddress, htext]

/-- A question mark in a value ends the path, and the segments after it become a query. -/
theorem not_address_tail :
    (onNetworks.address "https://compute.test/v1/" { networkValues "a?b" "" with query := [] }).toOption =
        some ("https://compute.test/v1/" ++ "projects/a?b/networks") ∧
      AddressTail.ofText "projects/a?b/networks" =
        { segments := ["projects", "a"], pairs := [("b/networks", "")], fragment := none } :=
  ⟨by decide +kernel, by decide +kernel⟩

end Method
end RestSql
