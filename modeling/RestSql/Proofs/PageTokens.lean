import RestSql.Proofs.WebAddresses
import RestSql.Request.Page

/-!
# The token of a page

The address of a page is that of the list with other pairs in its query (`Url.onPage`): those that name no
page, and the token after them. The address is read from its text again, so that a second token replaces the
first one and nothing else changes (`page_replaces_token`).
-/

namespace RestSql

open Request (pageParameter)

namespace Url

/-- The pairs that do not name a page. -/
def otherPairs (u : Url) : List (String × String) :=
  u.pairs.filter (·.1 ≠ pageParameter)

/-- The URL of the page with the given token. -/
def onPage (u : Url) (token : String) : Url :=
  { u with query := some (String.ofList (Percent.formText (u.otherPairs ++ [(pageParameter, token)]))) }

theorem query_onPage (u : Url) (token : String) : (u.onPage token).query =
    some (String.ofList (Percent.formText (u.otherPairs ++ [(pageParameter, token)]))) :=
  rfl

theorem pairs_onPage (u : Url) (token : String) :
    (u.onPage token).pairs = u.otherPairs ++ [(pageParameter, token)] := by
  rw [pairs, query_onPage, Option.getD_some, String.toList_ofList, Percent.formPairs_formText]

theorem otherPairs_onPage (u : Url) (token : String) : (u.onPage token).otherPairs = u.otherPairs := by
  rw [otherPairs, pairs_onPage, List.filter_append, otherPairs, List.filter_filter]
  simp

/-- The second token replaces the first one. -/
theorem onPage_onPage (u : Url) (first second : String) :
    (u.onPage first).onPage second = u.onPage second := by
  rw [onPage, otherPairs_onPage]
  rfl

theorem lt_of_isAlphanum {c : Char} (h : c.isAlphanum = true) : c.toNat < 0x80 := by
  have hle {z : Char} (hz : z.toNat < 0x80) (h : c.val ≤ z.val) : c.toNat < 0x80 :=
    (UInt32.le_iff_toNat_le.1 h).trans_lt hz
  rcases Bool.or_eq_true_iff.1 h with h | h
  · rcases Bool.or_eq_true_iff.1 h with h | h
    · exact hle (z := 'Z') (by decide) (of_decide_eq_true h).2
    · exact hle (z := 'z') (by decide) (of_decide_eq_true (Bool.and_eq_true_iff.1 h).2)
  · exact hle (z := '9') (by decide) (of_decide_eq_true (Bool.and_eq_true_iff.1 h).2)

theorem kept_of_not_inForm {c : Char} (h : Percent.inForm c = false) :
    Percent.inSpecialQuery c = false := by
  have hascii : c.toNat < 0x80 := by
    simp only [Percent.inForm, Bool.not_eq_false', Bool.or_eq_true, decide_eq_true_eq] at h
    rcases h with (((h | rfl) | rfl) | rfl) | rfl
    · exact lt_of_isAlphanum h
    all_goals decide
  have hall := Host.forall_ascii (p := fun c => Percent.inForm c || !Percent.inSpecialQuery c)
    (by decide) hascii
  simpa [h] using hall

theorem kept_of_mem_formText {pairs : List (String × String)} {c : Char}
    (hc : c ∈ Percent.formText pairs) : Percent.inSpecialQuery c = false := by
  have hform {cs : List Char} (hc : c ∈ Percent.encodeForm cs) : Percent.inSpecialQuery c = false := by
    rcases Percent.mem_encodeForm hc with rfl | rfl | hform
    · decide
    · decide
    · exact kept_of_not_inForm hform
  rcases Text.eq_or_mem_of_mem_intercalate hc with rfl | ⟨piece, hpiece, hc⟩
  · decide
  · obtain ⟨⟨name, value⟩, -, rfl⟩ := List.mem_map.1 hpiece
    rcases List.mem_append.1 hc with hc | hc
    · exact hform hc
    · rcases List.mem_cons.1 hc with rfl | hc
      · decide
      · exact hform hc

theorem IsWritten.onPage {u : Url} (h : u.IsWritten) (token : String) : (u.onPage token).IsWritten := by
  refine ⟨h.special, h.ne_file, h.authority, h.path, ?_, h.fragment⟩
  intro q hq c hc
  rw [query_onPage, Option.mem_some_iff] at hq
  rw [← hq, String.toList_ofList] at hc
  exact kept_of_mem_formText hc

end Url

namespace Request

theorem page_eq {r : Request} {u : Url} (hu : Url.ofText r.url = .ok u) (token : String) :
    r.page token = .ok { r with url := (u.onPage token).text } := by
  have hpairs := Url.withPairs_eq (u := { u with query := none }) rfl
    (u.otherPairs ++ [(pageParameter, token)])
  rw [if_neg (by simp)] at hpairs
  rw [page, hu]
  dsimp only
  rw [← Url.otherPairs, hpairs]
  rfl

/-- A token replaces the one before, and nothing else of the request changes: neither the other pairs of the
query, as they are decoded, nor the other parts of the address, as they are read. -/
theorem page_replaces_token (r : Request) {u : Url} (hu : Url.ofText r.url = .ok u)
    (hscheme : u.scheme = "http" ∨ u.scheme = "https") (first second : String) :
    ∃ r₁ r₂ u₁, r.page first = .ok r₁ ∧ r.page second = .ok r₂ ∧ r₁.page second = .ok r₂ ∧
      r₁ = { r with url := r₁.url } ∧ Url.ofText r₁.url = .ok u₁ ∧ u₁ = { u with query := u₁.query } ∧
      u₁.pairs = u.pairs.filter (·.1 ≠ "pageToken") ++ [("pageToken", first)] := by
  have hspecial : Url.isSpecial u.scheme = true := by
    rcases hscheme with h | h <;> rw [h] <;> decide
  have hfile : u.scheme ≠ "file" := by
    rcases hscheme with h | h <;> rw [h] <;> decide
  have hwritten := (Url.isWritten_of_ofText hu hspecial hfile).onPage first
  have hread := Url.ofText_text hwritten
  have hagain := page_eq (r := { r with url := (u.onPage first).text }) hread second
  rw [Url.onPage_onPage] at hagain
  have hpairs : (u.onPage first).pairs =
      u.pairs.filter (·.1 ≠ "pageToken") ++ [("pageToken", first)] := u.pairs_onPage first
  exact ⟨_, _, u.onPage first, page_eq hu first, page_eq hu second, hagain, rfl, hread, rfl, hpairs⟩

end Request

namespace Sample

def listing : Request :=
  { verb := "POST"
    url := "HTTPS://me@Example.com:443/v1/a/../b?x=1&pageToken=old&y=%C3%A9+z&x=1#top"
    headers := [("accept", "application/json")], body := some "\x7b\x7d" }

def listingUrl : Url :=
  { scheme := "https"
    authority := some { user := "me", password := "", host := .domain "example.com", port := none }
    path := .segments ["v1", "b"], query := some "x=1&pageToken=old&y=%C3%A9+z&x=1"
    fragment := some "top" }

end Sample

namespace Request

open Sample

theorem page_replaces_token_listing :
    Url.ofText listing.url = .ok listingUrl ∧ listingUrl.scheme = "https" ∧
      ∃ r₁ r₂ u₁, listing.page "\u00e9 &=+%" = .ok r₁ ∧ listing.page "t" = .ok r₂ ∧
        r₁.page "t" = .ok r₂ ∧ r₁ = { listing with url := r₁.url } ∧ Url.ofText r₁.url = .ok u₁ ∧
        u₁ = { listingUrl with query := u₁.query } ∧
        u₁.pairs = [("x", "1"), ("y", "\u00e9 z"), ("x", "1"), ("pageToken", "\u00e9 &=+%")] := by
  have hread : Url.ofText listing.url = .ok listingUrl := by decide +kernel
  obtain ⟨r₁, r₂, u₁, hfirst, hsecond, hagain, hrest, hurl, hparts, hpairs⟩ :=
    page_replaces_token listing hread (.inr rfl) "\u00e9 &=+%" "t"
  have hkept : listingUrl.pairs.filter (·.1 ≠ "pageToken") =
      [("x", "1"), ("y", "\u00e9 z"), ("x", "1")] := by decide +kernel
  rw [hkept] at hpairs
  exact ⟨hread, rfl, r₁, r₂, u₁, hfirst, hsecond, hagain, hrest, hurl, hparts, hpairs⟩

end Request
end RestSql
