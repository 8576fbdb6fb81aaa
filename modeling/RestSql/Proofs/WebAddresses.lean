import RestSql.Proofs.HostTexts
import RestSql.Proofs.UrlReading

/-!
# Web addresses and their texts

What is read as a URL of a special scheme other than `file` has parts that are written as they are
(`isWritten_of_ofText`): nothing in them would be encoded or resolved again. Such a URL is read from its text,
part by part (`ofText_text`).
-/

namespace RestSql

namespace Percent

/-- Nothing in the text is encoded. -/
def Keeps (set : Char → Bool) (s : String) : Prop :=
  ∀ c ∈ s.toList, set c = false

/-- What is encoded stays as it is if it is encoded again. -/
theorem keeps_encode {set : Char → Bool} (hpercent : set '%' = false)
    (hdigit : hexDigits.any set = false) (cs : List Char) :
    Keeps set (String.ofList (encode set cs)) := by
  intro c hc
  rw [String.toList_ofList] at hc
  rcases mem_encode hc with ⟨-, h⟩ | rfl | h
  · exact h
  · exact hpercent
  · exact eq_false_of_hexValue? hdigit h

theorem Keeps.encode_eq {set : Char → Bool} {s : String} (h : Keeps set s) :
    String.ofList (encode set s.toList) = s := by
  rw [encode_eq_self h, String.ofList_toList]

end Percent

/-- An authority as it is read. -/
structure Authority.IsWritten (scheme : String) (a : Authority) : Prop where
  user : Percent.Keeps Percent.inUserInfo a.user
  password : Percent.Keeps Percent.inUserInfo a.password
  host : a.host.IsWritten
  port : ∀ p ∈ a.port, p ≤ 65535 ∧ some p ≠ Url.defaultPort? scheme

namespace Url

/-- A text without the slashes that segments are cut at, in which nothing is encoded. -/
structure IsPiece (s : String) : Prop where
  kept : Percent.Keeps Percent.inPath s
  ne_slash : ∀ c ∈ s.toList, c ≠ '/' ∧ c ≠ '\\'

/-- A segment of a path as it is read. -/
structure IsWrittenSegment (s : String) : Prop extends IsPiece s where
  isDoubleDot : isDoubleDot s = false
  isSingleDot : isSingleDot s = false

/-- A URL of a special scheme as it is read. -/
structure IsWritten (u : Url) : Prop where
  special : isSpecial u.scheme = true
  ne_file : u.scheme ≠ "file"
  authority : ∃ a, u.authority = some a ∧ a.IsWritten u.scheme
  path : ∃ list, u.path = .segments list ∧ list ≠ [] ∧ ∀ s ∈ list, IsWrittenSegment s
  query : ∀ q ∈ u.query, Percent.Keeps Percent.inSpecialQuery q
  fragment : ∀ f ∈ u.fragment, Percent.Keeps Percent.inFragment f

/-! ## What is read -/

theorem keeps_userInfo (cs : List Char) :
    Percent.Keeps Percent.inUserInfo (userInfo cs).1 ∧ Percent.Keeps Percent.inUserInfo (userInfo cs).2 := by
  have hkept (cs : List Char) :
      Percent.Keeps Percent.inUserInfo (String.ofList (Percent.encode Percent.inUserInfo cs)) :=
    Percent.keeps_encode (by decide) (by decide) cs
  unfold userInfo
  dsimp only
  split
  · exact ⟨hkept _, hkept _⟩
  · exact ⟨hkept _, nofun⟩

theorem portOf_ok {scheme : String} {ds : List Char} {port : Option Nat}
    (h : portOf scheme ds = .ok port) :
    ∀ p ∈ port, p ≤ 65535 ∧ some p ≠ defaultPort? scheme := by
  simp only [portOf, ite_error_eq_ok] at h
  obtain ⟨-, hbound, h⟩ := h
  cases h
  intro p hp
  split at hp
  · cases hp
  · next hwritten =>
    cases hp
    simp only [Bool.or_eq_true, decide_eq_true_eq, not_or] at hwritten
    exact ⟨Nat.le_of_not_lt hbound, hwritten.2⟩

theorem isWritten_of_authorityOf {scheme : String} (hspecial : isSpecial scheme = true)
    {cs : List Char} {a : Authority} (h : authorityOf scheme cs = .ok a) : a.IsWritten scheme := by
  simp only [authorityOf, hspecial, if_true, ite_error_eq_ok, bind_eq_ok, pure_eq_ok] at h
  obtain ⟨-, host, hhost, -, -, port, hport, rfl⟩ := h
  exact ⟨(keeps_userInfo _).1, (keeps_userInfo _).2, Host.isWritten_of_ofText hhost, portOf_ok hport⟩

theorem isWrittenSegment_empty : IsWrittenSegment "" :=
  ⟨⟨nofun, nofun⟩, by simp [Url.isDoubleDot, Text.lower, ← String.toList_inj],
    by simp [Url.isSingleDot, Text.lower, ← String.toList_inj]⟩

theorem mem_goUp {done : List String} {s : String} (h : s ∈ goUp done) : s ∈ done := by
  unfold goUp at h
  split at h
  · split at h
    · exact h
    · exact List.dropLast_subset _ h
  · exact h

/-- Dot segments are resolved. -/
theorem isWrittenSegment_of_mem_resolveDots {done pieces : List String}
    (hdone : ∀ s ∈ done, IsWrittenSegment s) (hpieces : ∀ s ∈ pieces, IsPiece s) :
    ∀ s ∈ resolveDots done pieces, IsWrittenSegment s := by
  have hconcat {done : List String} (hdone : ∀ s ∈ done, IsWrittenSegment s) {s : String}
      (hs : IsWrittenSegment s) : ∀ t ∈ done ++ [s], IsWrittenSegment t := by
    simpa [or_imp, forall_and] using ⟨hdone, hs⟩
  have hup {done : List String} (hdone : ∀ s ∈ done, IsWrittenSegment s) :
      ∀ s ∈ goUp done, IsWrittenSegment s := fun s hs => hdone s (mem_goUp hs)
  have hplain {s : String} (hs : IsPiece s) (hdouble : ¬Url.isDoubleDot s = true)
      (hsingle : ¬Url.isSingleDot s = true) : IsWrittenSegment s :=
    ⟨hs, Bool.eq_false_iff.2 hdouble, Bool.eq_false_iff.2 hsingle⟩
  fun_induction resolveDots done pieces with
  | case1 => exact hdone
  | case2 => exact hconcat (hup hdone) isWrittenSegment_empty
  | case3 => exact hconcat hdone isWrittenSegment_empty
  | case4 done s hdouble hsingle =>
    exact hconcat hdone (hplain (hpieces s List.mem_cons_self) hdouble hsingle)
  | case5 done s more _ _ ih => exact ih (hup hdone) (List.forall_mem_cons.1 hpieces).2
  | case6 done s more _ _ _ ih => exact ih hdone (List.forall_mem_cons.1 hpieces).2
  | case7 done s more _ hdouble hsingle ih =>
    rw [List.forall_mem_cons] at hpieces
    exact ih (hconcat hdone (hplain hpieces.1 hdouble hsingle)) hpieces.2

theorem resolveDots_ne_nil {done pieces : List String} (h : pieces ≠ []) :
    resolveDots done pieces ≠ [] := by
  fun_induction resolveDots done pieces with
  | case1 => exact absurd rfl h
  | case2 | case3 | case4 => exact List.append_ne_nil_of_right_ne_nil _ (List.cons_ne_nil _ _)
  | case5 _ _ _ hmore _ ih => exact ih hmore
  | case6 _ _ _ hmore _ _ ih => exact ih hmore
  | case7 _ _ _ hmore _ _ ih => exact ih hmore

theorem isWritten_segmentsOf (cs : List Char) :
    segmentsOf true cs ≠ [] ∧ ∀ s ∈ segmentsOf true cs, IsWrittenSegment s := by
  refine ⟨resolveDots_ne_nil (by simpa using Text.cut_ne_nil _ cs),
    isWrittenSegment_of_mem_resolveDots nofun fun s hs => ?_⟩
  obtain ⟨piece, hpiece, rfl⟩ := List.mem_map.1 hs
  refine ⟨Percent.keeps_encode (by decide) (by decide) piece, fun c hc => ?_⟩
  rw [String.toList_ofList] at hc
  rcases Percent.mem_encode hc with ⟨hc, -⟩ | rfl | hc
  · simpa using (Text.mem_of_mem_cut hpiece hc).2
  · decide
  · constructor <;> rintro rfl <;> exact absurd hc (by decide)

theorem isWritten_pathOf (cs : List Char) :
    ∃ list, pathOf true cs = .segments list ∧ list ≠ [] ∧ ∀ s ∈ list, IsWrittenSegment s := by
  unfold pathOf
  split
  · exact ⟨[""], rfl, List.cons_ne_nil _ _, List.forall_mem_singleton.2 isWrittenSegment_empty⟩
  · split
    · exact ⟨_, rfl, isWritten_segmentsOf _⟩
    · exact ⟨_, rfl, isWritten_segmentsOf _⟩

/-- The query and the fragment are read from the tail, and nothing else. -/
theorem exists_withTail {u : Url} (hquery : u.query = none) (hfragment : u.fragment = none)
    (cs : List Char) :
    ∃ query fragment, withTail true u cs = { u with query, fragment } ∧
      (∀ q ∈ query, Percent.Keeps Percent.inSpecialQuery q) ∧
        ∀ f ∈ fragment, Percent.Keeps Percent.inFragment f := by
  have hinQuery (cs : List Char) :
      ∀ q ∈ some (String.ofList (Percent.encode Percent.inSpecialQuery cs)),
        Percent.Keeps Percent.inSpecialQuery q := by
    rintro q ⟨⟩
    exact Percent.keeps_encode (by decide) (by decide) cs
  have hinFragment (cs : List Char) :
      ∀ f ∈ some (fragmentOf cs), Percent.Keeps Percent.inFragment f := by
    rintro f ⟨⟩
    exact Percent.keeps_encode (by decide) (by decide) cs
  obtain ⟨scheme, authority, path, query, fragment⟩ := u
  cases hquery
  cases hfragment
  simp only [withTail, if_true]
  split
  · split
    · exact ⟨_, _, rfl, hinQuery _, hinFragment _⟩
    · exact ⟨_, none, rfl, hinQuery _, nofun⟩
  · exact ⟨none, _, rfl, nofun, hinFragment _⟩
  · exact ⟨none, none, rfl, nofun, nofun⟩

theorem isWritten_of_withAuthority {scheme : String} (hspecial : isSpecial scheme = true)
    (hfile : scheme ≠ "file") {cs : List Char} {u : Url} (h : withAuthority scheme cs = .ok u) :
    u.IsWritten := by
  unfold withAuthority at h
  dsimp only at h
  rw [hspecial] at h
  obtain ⟨a, ha, h⟩ := bind_eq_ok.1 h
  cases h
  obtain ⟨query, fragment, htail, hquery, hfragment⟩ := exists_withTail (u := {
    scheme, authority := some a, path := pathOf true _, query := none, fragment := none }) rfl rfl _
  rw [htail]
  exact ⟨hspecial, hfile, ⟨a, rfl, isWritten_of_authorityOf hspecial ha⟩, isWritten_pathOf _, hquery,
    hfragment⟩

theorem scheme_withTail (special : Bool) (u : Url) (cs : List Char) :
    (withTail special u cs).scheme = u.scheme := by
  unfold withTail
  dsimp only
  split
  · split <;> rfl
  · rfl
  · rfl

theorem scheme_of_withAuthority {scheme : String} {cs : List Char} {u : Url}
    (h : withAuthority scheme cs = .ok u) : u.scheme = scheme := by
  obtain ⟨a, -, h⟩ := bind_eq_ok.1 h
  cases h
  exact scheme_withTail _ _ _

theorem scheme_of_ofFile {cs : List Char} {u : Url} (h : ofFile cs = .ok u) : u.scheme = "file" := by
  unfold ofFile at h
  obtain ⟨host, -, h⟩ := bind_eq_ok.1 h
  cases h
  exact scheme_withTail _ _ _

theorem isWritten_of_ofText {text : String} {u : Url} (h : ofText text = .ok u)
    (hspecial : isSpecial u.scheme = true) (hfile : u.scheme ≠ "file") : u.IsWritten := by
  unfold ofText at h
  split at h
  · cases h
  · split at h
    · exact absurd (scheme_of_ofFile h) hfile
    · next hscheme =>
      split at h
      · next hspecial => exact isWritten_of_withAuthority hspecial hscheme h
      · next hplain =>
        split at h
        · exact absurd (scheme_of_withAuthority h ▸ hspecial) hplain
        · cases h
          rw [withoutAuthority, scheme_withTail] at hspecial
          exact absurd hspecial hplain

/-! ## Characters -/

theorem lt_of_not_control {c : Char} (h : Percent.isControl c = false) (hblank : c ≠ ' ') :
    0x20 < c.toNat := by
  have hne : c.toNat ≠ 0x20 := fun heq => hblank (by rw [← Char.ofNat_toNat c, heq])
  simp only [Percent.isControl, Bool.or_eq_false_iff, decide_eq_false_iff_not] at h
  omega

theorem lt_of_not_inFragment {c : Char} (h : Percent.inFragment c = false) : 0x20 < c.toNat := by
  simp only [Percent.inFragment, Bool.or_eq_false_iff, decide_eq_false_iff_not] at h
  exact lt_of_not_control h.1.1.1.1.1 h.1.1.1.1.2

theorem lt_of_not_inSpecialQuery {c : Char} (h : Percent.inSpecialQuery c = false) :
    0x20 < c.toNat := by
  simp only [Percent.inSpecialQuery, Percent.inQuery, Bool.or_eq_false_iff,
    decide_eq_false_iff_not] at h
  exact lt_of_not_control h.1.1.1.1.1.1 h.1.1.1.1.1.2

theorem of_not_inPath {c : Char} (h : Percent.inPath c = false) :
    endsPath c = false ∧ 0x20 < c.toNat := by
  simp only [Percent.inPath, Bool.or_eq_false_iff, decide_eq_false_iff_not] at h
  exact ⟨by simp [endsPath, h], lt_of_not_inFragment h.1.1.1.1⟩

theorem of_not_inUserInfo {c : Char} (h : Percent.inUserInfo c = false) :
    endsAuthority true c = false ∧ 0x20 < c.toNat := by
  simp only [Percent.inUserInfo, Bool.or_eq_false_iff, decide_eq_false_iff_not] at h
  obtain ⟨hends, hlt⟩ := of_not_inPath h.1.1.1.1.1.1.1.1.1.1
  simp only [endsPath, Bool.or_eq_false_iff, decide_eq_false_iff_not] at hends
  exact ⟨by simp [endsAuthority, h, hends], hlt⟩

theorem of_not_isForbidden {c : Char} (h : Host.isForbidden c = false) :
    endsAuthority true c = false ∧ c ≠ '@' ∧ 0x20 < c.toNat := by
  simp only [Host.isForbidden, Bool.or_eq_false_iff, decide_eq_false_iff_not] at h
  exact ⟨by simp [endsAuthority, h], by simp [h], by omega⟩

theorem of_mem_hostText {host : Host} (h : host.IsWritten) {c : Char} (hc : c ∈ host.text.toList) :
    endsAuthority true c = false ∧ c ≠ '@' ∧ 0x20 < c.toNat := by
  rcases Host.name_or_brackets h with ⟨-, hname⟩ | ⟨body, htext, hbody⟩
  · exact of_not_isForbidden (Host.isNameChar_iff.1 (hname c hc)).2.2
  · rw [htext, List.mem_cons, List.mem_append, List.mem_singleton] at hc
    rcases hc with rfl | hc | rfl
    · decide
    · rcases hbody c hc with rfl | hdigit
      · decide
      · exact of_not_isForbidden (Percent.eq_false_of_hexValue? (by decide) hdigit)
    · decide

/-! ## Texts of authorities -/

theorem cutUser?_append {rest : List Char} (h : '@' ∉ rest) (user : List Char) :
    cutUser? (user ++ '@' :: rest) = some (user, rest) := by
  have hrest : ∀ c ∈ rest.reverse, (c == '@') = false := fun c hc =>
    beq_eq_false_iff_ne.2 (ne_of_mem_of_not_mem (List.mem_reverse.1 hc) h)
  rw [cutUser?, List.reverse_append, List.reverse_cons, List.append_assoc, List.singleton_append,
    Text.cutFirst_append_cons hrest rfl]
  simp

theorem cutUser?_of_not_mem {cs : List Char} (h : '@' ∉ cs) : cutUser? cs = none := by
  have hcs : ∀ c ∈ cs.reverse, (c == '@') = false := fun c hc =>
    beq_eq_false_iff_ne.2 (ne_of_mem_of_not_mem (List.mem_reverse.1 hc) h)
  rw [cutUser?, Text.cutFirst_of_forall_not hcs]

/-- The text of a user and a password, without the at-sign after it. -/
def infoText (a : Authority) : String :=
  a.user ++ if a.password = "" then "" else ":" ++ a.password

/-- The user and the password are read from their text. -/
theorem userInfo_infoText {scheme : String} {a : Authority} (h : a.IsWritten scheme) :
    userInfo (infoText a).toList = (a.user, a.password) := by
  have hcolon : ∀ c ∈ a.user.toList, (c == ':') = false := by
    intro c hc
    rw [beq_eq_false_iff_ne]
    rintro rfl
    exact absurd (h.user _ hc) (by decide)
  by_cases hempty : a.password = ""
  · rw [infoText, if_pos hempty, String.append_empty, userInfo, Text.cutFirst_of_forall_not hcolon]
    simp only [h.user.encode_eq, hempty]
  · have htext : (a.user ++ (":" ++ a.password)).toList = a.user.toList ++ ':' :: a.password.toList := by
      simp
    rw [infoText, if_neg hempty, htext, userInfo, Text.cutFirst_append_cons hcolon (c := ':') rfl]
    simp only [h.user.encode_eq, h.password.encode_eq]

theorem of_mem_infoText {scheme : String} {a : Authority} (h : a.IsWritten scheme) {c : Char}
    (hc : c ∈ (infoText a).toList) : endsAuthority true c = false ∧ 0x20 < c.toNat := by
  rw [infoText, String.toList_append, List.mem_append] at hc
  rcases hc with hc | hc
  · exact of_not_inUserInfo (h.user c hc)
  · split at hc
    · cases hc
    · rw [String.toList_append, List.mem_append] at hc
      rcases hc with hc | hc
      · obtain rfl : c = ':' := by simpa using hc
        decide
      · exact of_not_inUserInfo (h.password c hc)

theorem cutPort_append_of_name {front : List Char} (h : ∀ c ∈ front, Host.isNameChar c = true)
    (rest : List Char) :
    cutPort false (front ++ rest) = (front ++ (cutPort false rest).1, (cutPort false rest).2) := by
  induction front with
  | nil => rfl
  | cons c front ih =>
    rw [List.forall_mem_cons] at h
    have hcolon : c ≠ ':' := Host.ne_of_isNameChar h.1 (by decide)
    have hbracket : c ≠ '[' := Host.ne_of_isNameChar h.1 (by decide)
    rw [List.cons_append, cutPort, if_neg (by simp [hcolon])]
    simp [hbracket, ih h.2]

theorem cutPort_append_inside {body : List Char} (h : ']' ∉ body) (rest : List Char) :
    cutPort true (body ++ ']' :: rest) =
      (body ++ ']' :: (cutPort false rest).1, (cutPort false rest).2) := by
  induction body with
  | nil =>
    rw [List.nil_append, cutPort, if_neg (by simp)]
    simp
  | cons c body ih =>
    rw [List.mem_cons, not_or] at h
    rw [List.cons_append, cutPort, if_neg (by simp)]
    simp [Ne.symm h.1, ih h.2]

/-- A host is cut off before the colon of a port; the colons of an address stand between brackets. -/
theorem cutPort_text_append {host : Host} (h : host.IsWritten) (rest : List Char) :
    cutPort false (host.text.toList ++ rest) =
      (host.text.toList ++ (cutPort false rest).1, (cutPort false rest).2) := by
  rcases Host.name_or_brackets h with ⟨-, hname⟩ | ⟨body, htext, hbody⟩
  · exact cutPort_append_of_name hname rest
  · have hclose : ']' ∉ body := by
      intro hmem
      rcases hbody _ hmem with h | h <;> exact absurd h (by decide)
    rw [htext]
    simp only [List.cons_append, List.append_assoc]
    rw [cutPort, if_neg (by simp)]
    simp [cutPort_append_inside hclose]

/-- The text of a port, with the colon before it. -/
def portText (port : Option Nat) : List Char :=
  port.elim [] fun p => ':' :: Nat.toDigits 10 p

theorem of_mem_portText {port : Option Nat} {c : Char} (hc : c ∈ portText port) :
    c = ':' ∨ c.isDigit = true := by
  cases port with
  | none => cases hc
  | some p => exact (List.mem_cons.1 hc).imp_right Text.isDigit_of_mem_toDigits

theorem portOf_toDigits {scheme : String} {p : Nat} (hp : p ≤ 65535)
    (hdefault : some p ≠ defaultPort? scheme) : portOf scheme (Nat.toDigits 10 p) = .ok (some p) := by
  have hdigits := Text.all_toDigits p
  rw [portOf, hdigits, Text.naturalOf_toDigits]
  simp [hp, hdefault, Nat.toDigits_ne_nil]

theorem portOf_portText {scheme : String} {port : Option Nat}
    (h : ∀ p ∈ port, p ≤ 65535 ∧ some p ≠ defaultPort? scheme) :
    ∃ digits, cutPort false (portText port) = ([], digits) ∧
      portOf scheme (digits.getD []) = .ok port := by
  cases port with
  | none => exact ⟨none, rfl, rfl⟩
  | some p => exact ⟨_, if_pos (by simp), portOf_toDigits (h p rfl).1 (h p rfl).2⟩

theorem toList_authorityText (a : Authority) :
    a.text.toList = (if infoText a = "" then [] else (infoText a).toList ++ ['@']) ++
      (a.host.text.toList ++ portText a.port) := by
  rw [Authority.text, ← infoText, String.toList_append, String.toList_append, List.append_assoc]
  refine congr (congrArg HAppend.hAppend ?_) (congrArg (_ ++ ·) ?_)
  · split <;> simp
  · cases a.port with
    | none => rfl
    | some p => simp [portText, Text.ofNat]

theorem toList_authorityText_ne_nil {scheme : String} {a : Authority} (h : a.IsWritten scheme) :
    a.text.toList ≠ [] := by
  rw [toList_authorityText]
  exact List.append_ne_nil_of_right_ne_nil _
    (List.append_ne_nil_of_left_ne_nil (Host.toList_text_ne_nil h.host) _)

theorem of_mem_authorityText {scheme : String} {a : Authority} (h : a.IsWritten scheme) {c : Char}
    (hc : c ∈ a.text.toList) : endsAuthority true c = false ∧ 0x20 < c.toNat := by
  rw [toList_authorityText, List.mem_append, List.mem_append] at hc
  rcases hc with hc | hc | hc
  · split at hc
    · cases hc
    · rcases List.mem_append.1 hc with hc | hc
      · exact of_mem_infoText h hc
      · rw [List.mem_singleton.1 hc]
        decide
  · exact ⟨(of_mem_hostText h.host hc).1, (of_mem_hostText h.host hc).2.2⟩
  · rcases of_mem_portText hc with rfl | hdigit
    · decide
    · have hallowed := (Host.isNameChar_iff.1 (Host.isNameChar_of_isDigit hdigit)).2.2
      exact ⟨(of_not_isForbidden hallowed).1, (of_not_isForbidden hallowed).2.2⟩

/-- What an authority is read as, if its user and its host are cut off. -/
theorem authorityOf_eq {scheme : String} (hspecial : isSpecial scheme = true)
    {cs user rest hostText : List Char} {digits : Option (List Char)}
    (hcut : cutUser? cs = some (user, rest) ∧ user ≠ [] ∨ cutUser? cs = none ∧ user = [] ∧ rest = cs)
    (hport : cutPort false rest = (hostText, digits)) (hne : hostText ≠ []) :
    authorityOf scheme cs = (do
      let host ← Host.ofText hostText
      let port ← portOf scheme (digits.getD [])
      return { user := (userInfo user).1, password := (userInfo user).2, host, port }) := by
  rcases hcut with ⟨hcut, huser⟩ | ⟨hcut, rfl, rfl⟩
  · simp [authorityOf, hcut, hspecial, hport, hne, huser]
  · simp [authorityOf, hcut, hspecial, hport, hne]

theorem authorityOf_text {scheme : String} (hspecial : isSpecial scheme = true) {a : Authority}
    (h : a.IsWritten scheme) : authorityOf scheme a.text.toList = .ok a := by
  obtain ⟨digits, hcutPort, hport⟩ := portOf_portText h.port
  have hrest : cutPort false (a.host.text.toList ++ portText a.port) =
      (a.host.text.toList, digits) := by
    rw [cutPort_text_append h.host, hcutPort, List.append_nil]
  have hat : '@' ∉ a.host.text.toList ++ portText a.port := by
    rw [List.mem_append, not_or]
    refine ⟨fun hmem => (of_mem_hostText h.host hmem).2.1 rfl, fun hmem => ?_⟩
    rcases of_mem_portText hmem with h | h <;> exact absurd h (by decide)
  have hcut : cutUser? a.text.toList =
        some ((infoText a).toList, a.host.text.toList ++ portText a.port) ∧ (infoText a).toList ≠ [] ∨
      cutUser? a.text.toList = none ∧ (infoText a).toList = [] ∧
        a.host.text.toList ++ portText a.port = a.text.toList := by
    rw [toList_authorityText]
    by_cases hempty : infoText a = ""
    · rw [if_pos hempty, List.nil_append]
      exact .inr ⟨cutUser?_of_not_mem hat, by rw [hempty, String.toList_empty], rfl⟩
    · rw [if_neg hempty, List.append_assoc, List.singleton_append]
      refine .inl ⟨cutUser?_append hat _, ?_⟩
      rwa [← String.toList_empty, String.toList_inj.ne]
  rw [authorityOf_eq hspecial hcut hrest (Host.toList_text_ne_nil h.host), Host.ofText_text h.host, hport,
    userInfo_infoText h]
  rfl

/-! ## Texts of paths -/

section

variable {list : List String} (hne : list ≠ [])

include hne

theorem toList_text_segments : (UrlPath.segments list).text.toList =
    '/' :: List.intercalate ['/'] (list.map String.toList) := by
  rw [← Text.flatMap_cons_eq_cons_intercalate '/' (by simpa using hne), UrlPath.text,
    String.toList_join, List.flatMap_map, List.flatMap_map]
  simp

variable (h : ∀ s ∈ list, IsWrittenSegment s)

include h

theorem pathOf_text : pathOf true (UrlPath.segments list).text.toList = .segments list := by
  have hslash : ∀ piece ∈ list.map String.toList, ∀ c ∈ piece,
      (c = '/' || (true && c = '\\') : Bool) = false := by
    intro piece hpiece c hc
    obtain ⟨s, hs, rfl⟩ := List.mem_map.1 hpiece
    simpa using (h s hs).ne_slash c hc
  have hkept : (list.map String.toList).map
      (fun piece => String.ofList (Percent.encode Percent.inPath piece)) = list := by
    rw [List.map_map]
    exact (List.map_congr_left fun s hs => (h s hs).kept.encode_eq).trans (List.map_id _)
  rw [toList_text_segments hne, pathOf, if_pos (by simp), segmentsOf,
    Text.cut_intercalate (by simp) (by simpa using hne) hslash, hkept,
    resolveDots_eq_append fun s hs => ⟨(h s hs).isDoubleDot, (h s hs).isSingleDot⟩, List.nil_append]

theorem of_mem_pathText {c : Char} (hc : c ∈ (UrlPath.segments list).text.toList) :
    endsPath c = false ∧ 0x20 < c.toNat := by
  rw [toList_text_segments hne, List.mem_cons] at hc
  rcases hc with rfl | hc
  · decide
  · rcases Text.eq_or_mem_of_mem_intercalate hc with rfl | ⟨piece, hpiece, hc⟩
    · decide
    · obtain ⟨s, hs, rfl⟩ := List.mem_map.1 hpiece
      exact of_not_inPath ((h s hs).kept c hc)

end

/-! ## Texts of queries and fragments -/

theorem span_append {p : Char → Bool} {front rest : List Char} (hfront : ∀ c ∈ front, p c = true)
    (hrest : ∀ c ∈ rest.head?, p c = false) :
    (front ++ rest).takeWhile p = front ∧ (front ++ rest).dropWhile p = rest := by
  have hstop : rest.takeWhile p = [] ∧ rest.dropWhile p = rest := by
    cases rest with
    | nil => exact ⟨rfl, rfl⟩
    | cons c rest => simp [hrest c rfl]
  rw [List.takeWhile_append_of_pos hfront, List.dropWhile_append_of_pos hfront, hstop.1, hstop.2,
    List.append_nil]
  exact ⟨rfl, rfl⟩

/-- The text of a query and of a fragment. -/
def tailText (query fragment : Option String) : List Char :=
  (query.elim [] fun q => '?' :: q.toList) ++ fragment.elim [] fun f => '#' :: f.toList

theorem withTail_tailText {u : Url} (hquery : ∀ q ∈ u.query, Percent.Keeps Percent.inSpecialQuery q)
    (hfragment : ∀ f ∈ u.fragment, Percent.Keeps Percent.inFragment f) :
    withTail true { u with query := none, fragment := none } (tailText u.query u.fragment) = u := by
  have hcut {q : String} (h : Percent.Keeps Percent.inSpecialQuery q) (rest : List Char)
      (hrest : ∀ c ∈ rest.head?, c = '#') :
      (q.toList ++ rest).takeWhile (fun c => decide (c ≠ '#')) = q.toList ∧
        (q.toList ++ rest).dropWhile (fun c => decide (c ≠ '#')) = rest := by
    refine span_append (fun c hc => ?_) fun c hc => by simp [hrest c hc]
    rw [decide_eq_true_eq]
    rintro rfl
    exact absurd (h _ hc) (by decide)
  obtain ⟨scheme, authority, path, query, fragment⟩ := u
  dsimp only at hquery hfragment ⊢
  simp only [withTail, tailText, if_true]
  cases query with
  | none =>
    cases fragment with
    | none => rfl
    | some f => simp [fragmentOf, (hfragment f rfl).encode_eq]
  | some q =>
    cases fragment with
    | none =>
      obtain ⟨hbefore, hafter⟩ := hcut (hquery q rfl) [] nofun
      simp only [Option.elim_some, Option.elim_none, List.cons_append, hbefore, hafter,
        (hquery q rfl).encode_eq]
    | some f =>
      obtain ⟨hbefore, hafter⟩ := hcut (hquery q rfl) ('#' :: f.toList) (by simp)
      simp only [Option.elim_some, List.cons_append, hbefore, hafter, fragmentOf,
        (hquery q rfl).encode_eq, (hfragment f rfl).encode_eq]

theorem lt_of_mem_tailText {query fragment : Option String}
    (hquery : ∀ q ∈ query, Percent.Keeps Percent.inSpecialQuery q)
    (hfragment : ∀ f ∈ fragment, Percent.Keeps Percent.inFragment f) {c : Char}
    (hc : c ∈ tailText query fragment) : 0x20 < c.toNat := by
  rcases List.mem_append.1 hc with hc | hc
  · cases query with
    | none => cases hc
    | some q =>
      rcases List.mem_cons.1 hc with rfl | hc
      · decide
      · exact lt_of_not_inSpecialQuery (hquery q rfl c hc)
  · cases fragment with
    | none => cases hc
    | some f =>
      rcases List.mem_cons.1 hc with rfl | hc
      · decide
      · exact lt_of_not_inFragment (hfragment f rfl c hc)

theorem endsPath_of_head_tailText (query fragment : Option String) :
    ∀ c ∈ (tailText query fragment).head?, endsPath c = true := by
  cases query <;> cases fragment <;> simp [tailText, endsPath]

/-! ## Whole texts -/

theorem toList_text {u : Url} {a : Authority} (ha : u.authority = some a) :
    u.text.toList = u.scheme.toList ++ ':' :: '/' :: '/' :: (a.text.toList ++
      (u.path.text.toList ++ tailText u.query u.fragment)) := by
  obtain ⟨scheme, authority, path, query, fragment⟩ := u
  cases ha
  cases query <;> cases fragment <;> simp [text, guardText, tailText]

theorem withAuthority_text {u : Url} (h : u.IsWritten) {a : Authority} (ha : u.authority = some a)
    (hauthority : a.IsWritten u.scheme) :
    withAuthority u.scheme (a.text.toList ++ (u.path.text.toList ++ tailText u.query u.fragment)) =
      .ok u := by
  obtain ⟨list, hpath, hne, hlist⟩ := h.path
  have hcut : ∀ c ∈ a.text.toList, (!endsAuthority true c) = true := fun c hc => by
    rw [(of_mem_authorityText hauthority hc).1]
    rfl
  have hcutPath : ∀ c ∈ u.path.text.toList, (!endsPath c) = true := fun c hc => by
    rw [(of_mem_pathText hne hlist (hpath ▸ hc)).1]
    rfl
  have hslash : ∀ c ∈ (u.path.text.toList ++ tailText u.query u.fragment).head?,
      (!endsAuthority true c) = false := by
    rw [hpath, toList_text_segments hne]
    simp [endsAuthority]
  have htail : ∀ c ∈ (tailText u.query u.fragment).head?, (!endsPath c) = false := fun c hc => by
    rw [endsPath_of_head_tailText _ _ c hc]
    rfl
  obtain ⟨hbefore, hafter⟩ := span_append hcut hslash
  obtain ⟨hbeforePath, hafterPath⟩ := span_append hcutPath htail
  have hsegments : pathOf true u.path.text.toList = u.path := by
    rw [hpath, pathOf_text hne hlist]
  have hread := withTail_tailText h.query h.fragment
  rw [ha] at hread
  simp only [withAuthority, h.special, hbefore, hafter, hbeforePath, hafterPath, hsegments,
    authorityOf_text h.special hauthority]
  exact congrArg Except.ok hread

theorem clean_of_visible {cs : List Char} (h : ∀ c ∈ cs, 0x20 < c.toNat) : clean cs = cs := by
  refine clean_eq_self (fun c hc => h c (List.mem_of_mem_head? hc))
    (fun c hc => h c (List.mem_of_mem_getLast? hc)) fun c hc => ?_
  have hlt := h c hc
  refine ⟨?_, ?_, ?_⟩ <;> rintro rfl <;> exact absurd hlt (by decide)

/-- The special schemes are written in lower case. -/
theorem isScheme_of_isSpecial {scheme : String} (h : isSpecial scheme = true) :
    isScheme scheme.toList = true ∧ String.ofList (scheme.toList.map Char.toLower) = scheme := by
  have hall : specialPorts.all (fun entry => isScheme entry.1.toList &&
      String.ofList (entry.1.toList.map Char.toLower) == entry.1) = true := by decide
  obtain ⟨entry, hentry, heq⟩ := List.any_eq_true.1 h
  rw [← beq_iff_eq.1 heq]
  simpa using List.all_eq_true.1 hall entry hentry

/-- A URL of a special scheme is read from its text. -/
theorem ofText_text {u : Url} (h : u.IsWritten) : ofText u.text = .ok u := by
  obtain ⟨a, ha, hauthority⟩ := h.authority
  obtain ⟨list, hpath, hne, hlist⟩ := h.path
  obtain ⟨hscheme, hlower⟩ := isScheme_of_isSpecial h.special
  have hvisible : ∀ c ∈ u.text.toList, 0x20 < c.toNat := by
    intro c hc
    rw [toList_text ha] at hc
    simp only [List.mem_append, List.mem_cons] at hc
    rcases hc with hc | rfl | rfl | rfl | hc | hc | hc
    · exact lt_of_isSchemeChar (isSchemeChar_of_isScheme hscheme c hc)
    · decide
    · decide
    · decide
    · exact (of_mem_authorityText hauthority hc).2
    · exact (of_mem_pathText hne hlist (hpath ▸ hc)).2
    · exact lt_of_mem_tailText h.query h.fragment hc
  -- the slashes before the authority are dropped, and it does not start with another one
  have hslashes (rest : List Char) :
      ('/' :: '/' :: (a.text.toList ++ rest)).dropWhile (fun c => c = '/' || c = '\\') =
        a.text.toList ++ rest := by
    obtain ⟨c, cs, hcs⟩ := List.exists_cons_of_ne_nil (toList_authorityText_ne_nil hauthority)
    have hc := (of_mem_authorityText hauthority (c := c) (by rw [hcs]; exact List.mem_cons_self)).1
    simp only [endsAuthority, Bool.true_and, Bool.or_eq_false_iff, decide_eq_false_iff_not] at hc
    simp [hcs, hc]
  rw [ofText, clean_of_visible hvisible, toList_text ha, scheme?_append hscheme, hlower]
  dsimp only
  rw [if_neg h.ne_file, if_pos h.special, hslashes]
  exact withAuthority_text h ha hauthority

end Url
end RestSql
