import RestSql.Proofs.Planning

/-!
# Where documents are looked for

What a provider says about its services it takes from documents: from what it remembers of them, else
from a copy that may be used, else from the network. `Provider.Consulted` is all that can happen when it
is asked, case by case (`Provider.find_eq_iff`). What one question changes is read off the cases.
-/

namespace RestSql

/-! ## Questions and findings -/

/-- What a provider is asked about its services. -/
inductive Inquiry
  | directory
  | service (entry : ServiceEntry)

/-- What a document says. -/
inductive Finding
  | directory (entries : List ServiceEntry)
  | service (s : Service)

/-- The id of the service that is described; nothing for the directory. -/
def Finding.key : Finding → Option String
  | .directory _ => none
  | .service s => some s.entry.id

namespace Inquiry

/-- The id of the service that is asked for; nothing for the directory. -/
def key : Inquiry → Option String
  | .directory => none
  | .service e => some e.id

def document : Inquiry → String
  | .directory => Provider.directoryFile
  | .service e => Provider.serviceFile e.id

def address (d : DocumentSource) : Inquiry → String
  | .directory => d.directory
  | .service e => e.documentAddress

def finding? (text : String) : Inquiry → Option Finding
  | .directory => (ServiceEntry.directory? text).map .directory
  | .service e => (Document.ofText? text).map fun document => .service (document.toService (some e))

/-- What is wrong with a text that says nothing. -/
def badText : Inquiry → DiscoveryError
  | .directory => .badDirectory
  | .service _ => .badDocument

/-- The answer that a text gives. -/
def reading (i : Inquiry) (text : String) : Except Error Finding :=
  match i.finding? text with
  | some f => .ok f
  | none => .error (.discovery i.badText)

variable {i : Inquiry} {text : String} {f : Finding}

theorem key_of_finding? (h : i.finding? text = some f) : f.key = i.key := by
  cases i with
  | directory =>
      obtain ⟨entries, -, rfl⟩ := Option.map_eq_some_iff.1 h
      rfl
  | service e =>
      obtain ⟨document, -, rfl⟩ := Option.map_eq_some_iff.1 h
      rfl

theorem reading_ok (h : i.finding? text = some f) : i.reading text = .ok f := by
  rw [reading, h]

theorem reading_error (h : i.finding? text = none) :
    i.reading text = .error (.discovery i.badText) := by
  rw [reading, h]

theorem key_of_reading (h : i.reading text = .ok f) : f.key = i.key := by
  cases hf : i.finding? text with
  | none => cases (reading_error hf).symm.trans h
  | some g =>
      cases (reading_ok hf).symm.trans h
      exact key_of_finding? hf

end Inquiry

namespace Library

variable (l : Library) (f : Finding) (i : Inquiry)

/-- What is remembered. -/
def find? : Inquiry → Option Finding
  | .directory => l.directory.map .directory
  | .service e => (Dict.find? l.services e.id).map .service

/-- The library with one more document. -/
def learn : Finding → Library
  | .directory entries => { l with directory := some entries }
  | .service s => { l with services := Dict.put l.services s.entry.id s }

theorem find?_empty : empty.find? i = none := by
  cases i <;> rfl

/-- Only the key decides what is remembered. -/
theorem find?_congr {i j : Inquiry} (h : i.key = j.key) : l.find? i = l.find? j := by
  cases i with
  | directory =>
      cases j with
      | directory => rfl
      | service e => cases h
  | service e =>
      cases j with
      | directory => cases h
      | service e' => simp [find?, Option.some.inj h]

theorem find?_learn : (l.learn f).find? i = if f.key = i.key then some f else l.find? i := by
  cases f with
  | directory entries =>
      cases i with
      | directory => rfl
      | service e => rfl
  | service s =>
      cases i with
      | directory => rfl
      | service e =>
          simp only [learn, find?, Dict.find?_put, Finding.key, Inquiry.key, Option.some.injEq]
          split <;> rfl

end Library

namespace Context

/-- The context after an address was read. -/
def asked (c : Context) (url : String) : Context :=
  { c with sent := .read url :: c.sent }

/-- The context after an attempt to write a copy. -/
def copied (c : Context) (path text : String) : Context :=
  match c.files.write path text c.clock with
  | .ok files => { c with files }
  | .error _ => c

/-- The context after an answer; a finding is remembered. -/
def learn (c : Context) (provider : String) : Except Error Finding → Context
  | .ok f => c.setLibrary provider ((c.libraryOf provider).learn f)
  | .error _ => c

variable (c : Context) (provider : String) (r : Except Error Finding)

theorem libraryOf_setLibrary (l : Library) (name : String) :
    (c.setLibrary provider l).libraryOf name = if provider = name then l else c.libraryOf name := by
  unfold libraryOf setLibrary
  rw [Dict.find?_put]
  split <;> rfl

@[simp] theorem libraryOf_asked (url : String) :
    (c.asked url).libraryOf provider = c.libraryOf provider := rfl

@[simp] theorem libraryOf_copied (path text : String) :
    (c.copied path text).libraryOf provider = c.libraryOf provider := by
  unfold copied
  split <;> rfl

@[simp] theorem sent_copied (path text : String) : (c.copied path text).sent = c.sent := by
  unfold copied
  split <;> rfl

theorem libraryOf_learn_ok (f : Finding) :
    (c.learn provider (.ok f)).libraryOf provider = (c.libraryOf provider).learn f := by
  rw [learn, libraryOf_setLibrary, if_pos rfl]

theorem libraryOf_learn_of_ne {name : String} (h : provider ≠ name) :
    (c.learn provider r).libraryOf name = c.libraryOf name := by
  cases r with
  | error e => rfl
  | ok f => rw [learn, libraryOf_setLibrary, if_neg h]

@[simp] theorem sent_learn : (c.learn provider r).sent = c.sent := by
  cases r <;> rfl

@[simp] theorem files_learn : (c.learn provider r).files = c.files := by
  cases r <;> rfl

end Context

/-! ## Reading a document -/

def DocumentSource.copyPath (d : DocumentSource) (name : String) : String :=
  Files.join d.folder name

theorem Response.value_of_error {response : Response}
    (h : Response.firstErrorStatus ≤ response.status) :
    ∃ e, response.value = .error e := by
  rw [value, if_pos h]
  exact ⟨_, rfl⟩

section

variable {α β ε : Type} {r : Request} {c : Context}

theorem Run.ofExcept_ok_bind (wrap : ε → Error) (a : α) (f : α → Run β) :
    Run.ofExcept wrap (.ok a) >>= f = f a := rfl

theorem Run.fetch_bind_of_ok {response : Response} {f : Response → Run β}
    (answer : c.network.answer c.sent r = .ok response) :
    (Run.fetch r >>= f) c = f response { c with sent := r :: c.sent } := by
  rw [bind_apply, fetch_apply, answer]
  rfl

theorem Run.fetch_bind_of_error {e : TransportError} {f : Response → Run β}
    (answer : c.network.answer c.sent r = .error e) :
    (Run.fetch r >>= f) c = (.error (.transport e), { c with sent := r :: c.sent }) := by
  rw [bind_apply, fetch_apply, answer]
  rfl

end

open Response (firstErrorStatus)

namespace DocumentSource

variable {d : DocumentSource} {url name : String} {c : Context}

theorem read_of_copy {text : String}
    (hcopy : d.copy? c.files c.clock name = .ok (some text)) :
    d.read url name c = (.ok text, c) := by
  rw [read, Run.get_bind_apply, hcopy]
  rfl

theorem read_of_copy_error {e : FileError} (hcopy : d.copy? c.files c.clock name = .error e) :
    d.read url name c = (.error (.file e), c) := by
  rw [read, Run.get_bind_apply, hcopy]
  rfl

theorem read_of_offline (hcopy : d.copy? c.files c.clock name = .ok none) (h : d.offline = true) :
    d.read url name c = (.error (.discovery (.notCached name)), c) := by
  rw [read, Run.get_bind_apply, hcopy, Run.ofExcept_ok_bind]
  dsimp only
  rw [if_pos h]
  rfl

theorem read_of_unanswered (hcopy : d.copy? c.files c.clock name = .ok none)
    (h : d.offline = false) {e : TransportError}
    (answer : c.network.answer c.sent (.read url) = .error e) :
    d.read url name c = (.error (.transport e), c.asked url) := by
  rw [read, Run.get_bind_apply, hcopy, Run.ofExcept_ok_bind]
  dsimp only
  rw [if_neg (by simp [h])]
  exact Run.fetch_bind_of_error answer

theorem read_of_rejected (hcopy : d.copy? c.files c.clock name = .ok none)
    (h : d.offline = false) {response : Response} {e : ResponseError}
    (answer : c.network.answer c.sent (.read url) = .ok response)
    (status : firstErrorStatus ≤ response.status) (value : response.value = .error e) :
    d.read url name c = (.error (.discovery (.downloadFailed url e)), c.asked url) := by
  rw [read, Run.get_bind_apply, hcopy, Run.ofExcept_ok_bind]
  dsimp only
  rw [if_neg (by simp [h])]
  refine (Run.fetch_bind_of_ok answer).trans ?_
  rw [if_pos status, value]
  rfl

theorem read_of_fetched (hcopy : d.copy? c.files c.clock name = .ok none)
    (h : d.offline = false) {response : Response}
    (answer : c.network.answer c.sent (.read url) = .ok response)
    (status : response.status < firstErrorStatus) :
    d.read url name c =
      (.ok response.body, (c.asked url).copied (d.copyPath name) response.body) := by
  rw [read, Run.get_bind_apply, hcopy, Run.ofExcept_ok_bind]
  dsimp only
  rw [if_neg (by simp [h])]
  refine (Run.fetch_bind_of_ok answer).trans ?_
  rw [if_neg (Nat.not_le.2 status)]
  rfl

end DocumentSource

/-! ## Asking a provider -/

namespace Provider

def find (p : Provider) : Inquiry → Run Finding
  | .directory => .directory <$> p.directory
  | .service e => .service <$> p.load e

/-- The provider does not remember the document, has no copy of it that it may use, and may fetch it. -/
structure Fetches (p : Provider) (d : DocumentSource) (i : Inquiry) (c : Context) : Prop where
  unknown : (c.libraryOf p.name).find? i = none
  noCopy : d.copy? c.files c.clock i.document = .ok none
  online : d.offline = false

/-- What a provider answers, and the context after it, by where it looks. -/
inductive Consulted (p : Provider) (d : DocumentSource) (i : Inquiry) (c : Context) :
    Except Error Finding → Context → Prop
  | remembered {f : Finding} (known : (c.libraryOf p.name).find? i = some f) :
    Consulted p d i c (.ok f) c
  | unreadable {e : FileError} (unknown : (c.libraryOf p.name).find? i = none)
      (copy : d.copy? c.files c.clock i.document = .error e) :
    Consulted p d i c (.error (.file e)) c
  | copied {text : String} (unknown : (c.libraryOf p.name).find? i = none)
      (copy : d.copy? c.files c.clock i.document = .ok (some text)) :
    Consulted p d i c (i.reading text) (c.learn p.name (i.reading text))
  | refused (unknown : (c.libraryOf p.name).find? i = none)
      (noCopy : d.copy? c.files c.clock i.document = .ok none) (offline : d.offline = true) :
    Consulted p d i c (.error (.discovery (.notCached i.document))) c
  | unanswered {e : TransportError} (h : p.Fetches d i c)
      (answer : c.network.answer c.sent (.read (i.address d)) = .error e) :
    Consulted p d i c (.error (.transport e)) (c.asked (i.address d))
  | rejected {response : Response} {e : ResponseError} (h : p.Fetches d i c)
      (answer : c.network.answer c.sent (.read (i.address d)) = .ok response)
      (status : firstErrorStatus ≤ response.status) (value : response.value = .error e) :
    Consulted p d i c (.error (.discovery (.downloadFailed (i.address d) e)))
      (c.asked (i.address d))
  | fetched {response : Response} (h : p.Fetches d i c)
      (answer : c.network.answer c.sent (.read (i.address d)) = .ok response)
      (status : response.status < firstErrorStatus) :
    Consulted p d i c (i.reading response.body)
      (((c.asked (i.address d)).copied (d.copyPath i.document) response.body).learn p.name
        (i.reading response.body))

variable {p : Provider} {d : DocumentSource} {i : Inquiry} {c c' : Context} {r : Except Error Finding}

/-- What is not remembered is read, and what the text says is remembered. -/
theorem find_apply (hp : p.catalog = .documents d) (i : Inquiry) (c : Context) :
    p.find i c = match (c.libraryOf p.name).find? i with
      | some f => (.ok f, c)
      | none => match d.read (i.address d) i.document c with
        | (.error e, c') => (.error e, c')
        | (.ok text, c') => match i.reading text with
          | .error e => (.error e, c')
          | .ok f => (.ok f, c'.setLibrary p.name ((c.libraryOf p.name).learn f)) := by
  cases i with
  | directory =>
      simp only [find, directory, hp]
      rw [map_eq_pure_bind, Run.bind_apply, Run.get_bind_apply, Library.find?]
      cases (c.libraryOf p.name).directory with
      | some entries => rfl
      | none =>
          simp only [Run.bind_apply, Option.map, Inquiry.address, Inquiry.document]
          rcases d.read d.directory directoryFile c with ⟨e | text, c'⟩
          · rfl
          · simp only [Inquiry.reading, Inquiry.finding?]
            cases ServiceEntry.directory? text <;> rfl
  | service e =>
      simp only [find, load, hp]
      rw [map_eq_pure_bind, Run.bind_apply, Run.get_bind_apply, Library.find?]
      cases Dict.find? (c.libraryOf p.name).services e.id with
      | some s => rfl
      | none =>
          simp only [Run.bind_apply, Option.map, Inquiry.address, Inquiry.document]
          rcases d.read e.documentAddress (serviceFile e.id) c with ⟨e | text, c'⟩
          · rfl
          · simp only [Inquiry.reading, Inquiry.finding?]
            cases Document.ofText? text <;> rfl

theorem find_of_read_error (hp : p.catalog = .documents d)
    (unknown : (c.libraryOf p.name).find? i = none) {e : Error}
    (h : d.read (i.address d) i.document c = (.error e, c')) : p.find i c = (.error e, c') := by
  rw [find_apply hp, unknown, h]

theorem find_of_read (hp : p.catalog = .documents d)
    (unknown : (c.libraryOf p.name).find? i = none) {text : String}
    (h : d.read (i.address d) i.document c = (.ok text, c'))
    (hlibrary : c'.libraryOf p.name = c.libraryOf p.name) :
    p.find i c = (i.reading text, c'.learn p.name (i.reading text)) := by
  simp only [find_apply hp, unknown, h]
  cases i.reading text with
  | error e => rfl
  | ok f => simp only [Context.learn, hlibrary]

theorem Consulted.find_eq (hp : p.catalog = .documents d) (h : Consulted p d i c r c') :
    p.find i c = (r, c') := by
  cases h with
  | remembered known => rw [find_apply hp, known]
  | unreadable unknown copy =>
      exact find_of_read_error hp unknown (DocumentSource.read_of_copy_error copy)
  | copied unknown copy => exact find_of_read hp unknown (DocumentSource.read_of_copy copy) rfl
  | refused unknown noCopy offline =>
      exact find_of_read_error hp unknown (DocumentSource.read_of_offline noCopy offline)
  | unanswered h answer =>
      exact find_of_read_error hp h.unknown
        (DocumentSource.read_of_unanswered h.noCopy h.online answer)
  | rejected h answer status value =>
      exact find_of_read_error hp h.unknown
        (DocumentSource.read_of_rejected h.noCopy h.online answer status value)
  | fetched h answer status =>
      exact find_of_read hp h.unknown
        (DocumentSource.read_of_fetched h.noCopy h.online answer status) (by simp)

theorem exists_consulted (p : Provider) (d : DocumentSource) (i : Inquiry) (c : Context) :
    ∃ r c', Consulted p d i c r c' := by
  cases unknown : (c.libraryOf p.name).find? i with
  | some f => exact ⟨_, _, .remembered unknown⟩
  | none =>
      rcases copy : d.copy? c.files c.clock i.document with e | _ | text
      · exact ⟨_, _, .unreadable unknown copy⟩
      · cases offline : d.offline with
        | true => exact ⟨_, _, .refused unknown copy offline⟩
        | false =>
            have h : p.Fetches d i c := ⟨unknown, copy, offline⟩
            cases answer : c.network.answer c.sent (.read (i.address d)) with
            | error e => exact ⟨_, _, .unanswered h answer⟩
            | ok response =>
                by_cases status : firstErrorStatus ≤ response.status
                · obtain ⟨e, value⟩ := Response.value_of_error status
                  exact ⟨_, _, .rejected h answer status value⟩
                · exact ⟨_, _, .fetched h answer (Nat.not_le.1 status)⟩
      · exact ⟨_, _, .copied unknown copy⟩

/-- The cases are all that can happen, and exactly one of them happens. -/
theorem find_eq_iff (hp : p.catalog = .documents d) :
    p.find i c = (r, c') ↔ Consulted p d i c r c' := by
  constructor
  · intro h
    obtain ⟨r', c'', hc⟩ := exists_consulted p d i c
    cases (hc.find_eq hp).symm.trans h
    exact hc
  · exact Consulted.find_eq hp

/-- Without documents there is nothing to read, and only the key decides the answer. -/
theorem Loaded.find_apply (h : p.Loaded) {i j : Inquiry} (hkey : i.key = j.key) (c c' : Context) :
    p.find i c = ((p.find j c').1, c) := by
  obtain ⟨directory, services, hp⟩ := h
  cases i with
  | directory =>
      cases j with
      | directory =>
          simp only [find, Provider.directory, hp]
          rfl
      | service e => cases hkey
  | service e =>
      cases j with
      | directory => cases hkey
      | service e' =>
          simp only [find, load, hp, Option.some.inj hkey]
          cases Dict.find? services e'.id <;> rfl

theorem Loaded.after_eq (h : p.Loaded) (hfind : p.find i c = (r, c')) : c' = c := by
  rw [h.find_apply rfl c c] at hfind
  exact (Prod.mk.inj hfind).2.symm

end Provider

/-! ## What one question changes -/

namespace DocumentSource

variable {d : DocumentSource} {c : Context} {name : String}

/-- Any copy is dated in the future or not younger than the lifetime. -/
def Stale (d : DocumentSource) (c : Context) (name : String) : Prop :=
  ∀ f, c.files.read (d.copyPath name) = .ok f →
    ¬(f.time ≤ c.clock ∧ c.clock - f.time < d.lifetime)

theorem stale_of_copy? (h : d.copy? c.files c.clock name = .ok none) : d.Stale c name := by
  intro f hf hfresh
  have hfresh : d.isFresh f c.clock = true := by simpa [isFresh] using hfresh
  simp [copy?, show c.files.read (Files.join d.folder name) = .ok f from hf, hfresh] at h

theorem copy?_of_stale (h : d.Stale c name) (honline : d.offline = false)
    (hfolder : c.files.read (d.copyPath name) ≠ .error .isFolder) :
    d.copy? c.files c.clock name = .ok none := by
  unfold copyPath at hfolder
  unfold copy?
  split
  · rename_i f hf
    have hnot : d.isFresh f c.clock = false := by simpa [isFresh] using h f hf
    simp [honline, hnot]
  · contradiction
  · rfl

end DocumentSource

namespace Provider.Consulted

variable {p : Provider} {d : DocumentSource} {i : Inquiry} {c c' : Context} {r : Except Error Finding}

theorem find?_of_ok (h : Consulted p d i c r c') {f : Finding} (hr : r = .ok f) (j : Inquiry) :
    (c'.libraryOf p.name).find? j =
      if i.key = j.key then some f else (c.libraryOf p.name).find? j := by
  cases h with
  | remembered known =>
      cases hr
      split
      · rename_i hkey
        rw [← Library.find?_congr _ hkey, known]
      · rfl
  | unreadable unknown copy => cases hr
  | copied unknown copy =>
      rw [hr, Context.libraryOf_learn_ok, Library.find?_learn, Inquiry.key_of_reading hr]
  | refused unknown noCopy offline => cases hr
  | unanswered h answer => cases hr
  | rejected h answer status value => cases hr
  | fetched h answer status =>
      rw [hr, Context.libraryOf_learn_ok, Library.find?_learn, Inquiry.key_of_reading hr,
        Context.libraryOf_copied, Context.libraryOf_asked]

theorem library_of_error (h : Consulted p d i c r c') {e : Error} (hr : r = .error e) :
    c'.libraryOf p.name = c.libraryOf p.name := by
  cases h with
  | remembered known => cases hr
  | unreadable unknown copy => rfl
  | copied unknown copy =>
      rw [hr]
      rfl
  | refused unknown noCopy offline => rfl
  | unanswered h answer => rfl
  | rejected h answer status value => rfl
  | fetched h answer status =>
      rw [hr]
      exact Context.libraryOf_copied _ _ _ _

theorem libraryOf_of_ne (h : Consulted p d i c r c') {name : String} (hname : p.name ≠ name) :
    c'.libraryOf name = c.libraryOf name := by
  cases h with
  | remembered known => rfl
  | unreadable unknown copy => rfl
  | copied unknown copy => exact c.libraryOf_learn_of_ne _ _ hname
  | refused unknown noCopy offline => rfl
  | unanswered h answer => rfl
  | rejected h answer status value => rfl
  | fetched h answer status =>
      rw [Context.libraryOf_learn_of_ne _ _ _ hname, Context.libraryOf_copied,
        Context.libraryOf_asked]

theorem find?_of_known (hp : p.catalog = .documents d) (h : Consulted p d i c r c') {j : Inquiry}
    {f : Finding} {name : String} (known : (c.libraryOf name).find? j = some f) :
    (c'.libraryOf name).find? j = some f := by
  by_cases hname : p.name = name
  · subst hname
    cases r with
    | error e => rw [h.library_of_error rfl, known]
    | ok g =>
        rw [h.find?_of_ok rfl]
        split
        · rename_i hkey
          -- the answer is what was remembered
          have hfind := h.find_eq hp
          rw [find_apply hp, Library.find?_congr _ hkey, known] at hfind
          cases hfind
          rfl
        · exact known
  · rw [h.libraryOf_of_ne hname, known]

/-- The document is asked for, or nothing is sent or written. -/
theorem sent (h : Consulted p d i c r c') :
    (p.Fetches d i c ∧ c'.sent = .read (i.address d) :: c.sent) ∨
      (¬p.Fetches d i c ∧ c'.sent = c.sent ∧ c'.files = c.files) := by
  cases h with
  | remembered known => exact .inr ⟨(fun h => nomatch known.symm.trans h.unknown), rfl, rfl⟩
  | unreadable unknown copy => exact .inr ⟨(fun h => nomatch copy.symm.trans h.noCopy), rfl, rfl⟩
  | copied unknown copy =>
      exact .inr ⟨(fun h => nomatch copy.symm.trans h.noCopy), c.sent_learn _ _, c.files_learn _ _⟩
  | refused unknown noCopy offline =>
      exact .inr ⟨(fun h => nomatch offline.symm.trans h.online), rfl, rfl⟩
  | unanswered h answer => exact .inl ⟨h, rfl⟩
  | rejected h answer status value => exact .inl ⟨h, rfl⟩
  | fetched h answer status =>
      refine .inl ⟨h, ?_⟩
      rw [Context.sent_learn, Context.sent_copied]
      rfl

end Provider.Consulted

end RestSql
