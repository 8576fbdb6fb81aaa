import RestSql.Config.Basic
import RestSql.Error
import RestSql.Number.Word
import RestSql.Text.Blank
import RestSql.Text.Digits
import RestSql.Toml.Reader

/-!
Settings by name. A setting is given as a text, as an argument of the command line, or by a document;
each is read by what kind of value the setting has. Main statement: a setting has the value that it was
given (`lawful_all`).
-/

namespace RestSql

/-- What kind of value a setting has, how it is read off the settings, and how it is put into them. -/
inductive SettingKind
  /-- A number of 64 bits. -/
  | natural (get : Config → Nat) (put : Nat → Config → Config)
  | flag (get : Config → Bool) (put : Bool → Config → Config)
  | character (get : Config → Char) (put : Char → Config → Config)
  | text (get : Config → String) (put : String → Config → Config)
  | path (get : Config → Option String) (put : String → Config → Config)
  /-- One of some words. -/
  | choice (get : Config → String) (options : List (String × (Config → Config)))

/-- The value of a setting. -/
inductive SettingValue
  | natural (n : Nat)
  | flag (b : Bool)
  | character (c : Char)
  | text (s : String)
  | path (p : Option String)
  | word (w : String)
  deriving DecidableEq, Repr

structure Setting where
  /-- The name in documents. -/
  name : String
  kind : SettingKind

namespace SettingKind

/-- The value of a setting of this kind. -/
def value (c : Config) : SettingKind → SettingValue
  | natural get _ => .natural (get c)
  | flag get _ => .flag (get c)
  | character get _ => .character (get c)
  | text get _ => .text (get c)
  | path get _ => .path (get c)
  | choice get _ => .word (get c)

/-- What is put in is read off. -/
def Lawful : SettingKind → Prop
  | natural get put => ∀ n c, get (put n c) = n
  | flag get put => ∀ b c, get (put b c) = b
  | character get put => ∀ d c, get (put d c) = d
  | text get put => ∀ s c, get (put s c) = s
  | path get put => ∀ p c, get (put p c) = some p
  | choice get options => ∀ o ∈ options, ∀ c, get (o.2 c) = o.1

/-- The number that digits after an optional plus sign denote, if it has 64 bits. -/
def natural? (s : String) : Option Nat :=
  (Text.natural? ((Text.rest? "+" s).getD s)).filter Word.isUnsigned

def flag? (s : String) : Option Bool :=
  if s = "true" then some true else if s = "false" then some false else none

/-- The character of a text of one. -/
def character? (s : String) : Option Char :=
  match s.toList with
  | [c] => some c
  | _ => none

/-- What the choice of a word changes. -/
def chosen? (options : List (String × (Config → Config))) (word : String) :
    Option (Config → Config) :=
  (options.find? (·.1 == word)).map Prod.snd

/-- What a text changes, else the text that is no value. Blanks around numbers, flags and characters
and the case of words do not matter. -/
def ofText? (k : SettingKind) (s : String) : Except String (Config → Config) :=
  let orWhole (f : Option (Config → Config)) : Except String (Config → Config) :=
    match f with
    | some f => .ok f
    | none => .error s
  match k with
  | natural _ put => orWhole ((natural? (Text.trimmed s)).map put)
  | flag _ put => orWhole ((flag? (Text.trimmed s)).map put)
  | character _ put => orWhole ((character? (Text.trimmed s)).map put)
  | text _ put => .ok (put s)
  | path _ put => .ok (put s)
  | choice _ options =>
    match chosen? options (Text.lower s) with
    | some f => .ok f
    | none => .error (Text.lower s)

/-- What an argument changes; a path must not be empty. -/
def ofArgument? : SettingKind → String → Option (Config → Config)
  | natural _ put, s => (natural? s).map put
  | flag _ put, s => (flag? s).map put
  | character _ put, s => (character? s).map put
  | text _ put, s => some (put s)
  | path _ put, s => if s = "" then none else some (put s)
  | choice _ options, s => chosen? options s

/-- The word that a value of a document chooses: a text, or a table with the word as its only key and
nothing under it. -/
def word? : Toml → Option String
  | .string s => some s
  | .table _ [(word, .table _ [])] => some word
  | .table _ [(word, .array [])] => some word
  | _ => none

/-- What a value of a document changes. -/
def ofToml? : SettingKind → Toml → Option (Config → Config)
  | natural _ put, .integer n => if 0 ≤ n then some (put n.toNat) else none
  | flag _ put, .flag b => some (put b)
  | character _ put, .string s => (character? s).map put
  | text _ put, .string s => some (put s)
  | path _ put, .string s => some (put s)
  | choice _ options, v => (word? v).bind (chosen? options)
  | _, _ => none

end SettingKind

namespace Setting

/-- The short name: the name without underscores. -/
def key (s : Setting) : String :=
  String.ofList (s.name.toList.filter (· ≠ '_'))

/-- All settings. -/
def all : List Setting :=
  [⟨"api_request_timeout", .natural (·.requestTimeout) fun n c => { c with requestTimeout := n }⟩,
   ⟨"cache_key_count", .natural (·.documentCount) fun n c => { c with documentCount := n }⟩,
   ⟨"metadata_ttl", .natural (·.documentLifetime) fun n c => { c with documentLifetime := n }⟩,
   ⟨"color_scheme", .text (·.colorScheme) fun s c => { c with colorScheme := s }⟩,
   ⟨"config_file", .path (·.configFile) fun s c => { c with configFile := some s }⟩,
   ⟨"hide_headers", .flag (·.hideHeaders) fun b c => { c with hideHeaders := b }⟩,
   ⟨"delimiter", .character (·.delimiter) fun d c => { c with delimiter := d }⟩,
   ⟨"dry_run", .flag (·.dryRun) fun b c => { c with dryRun := b }⟩,
   ⟨"error_presentation", .choice (·.errorPlace.word)
      (ErrorPlace.all.map fun p => (p.word, fun c => { c with errorPlace := p }))⟩,
   ⟨"infile", .path (·.inputFile) fun s c => { c with inputFile := some s }⟩,
   ⟨"key_file_path", .path (·.keyFile) fun s c => { c with keyFile := some s }⟩,
   ⟨"log_level", .text (·.logLevel) fun s c => { c with logLevel := s }⟩,
   ⟨"outfile", .path (·.outputFile) fun s c => { c with outputFile := some s }⟩,
   ⟨"output", .choice (·.output.word)
      (OutputFormat.all.map fun f => (f.word, fun c => { c with output := f }))⟩,
   ⟨"provider_root", .path (fun c => some c.providerRoot) fun s c => { c with providerRoot := s }⟩,
   ⟨"provider", .text (·.provider) fun s c => { c with provider := s }⟩,
   ⟨"query_cache_size", .natural (·.planCount) fun n c => { c with planCount := n }⟩,
   ⟨"use_non_preferred_apis", .flag (·.nonPreferred) fun b c => { c with nonPreferred := b }⟩,
   ⟨"verbose", .flag (·.verbose) fun b c => { c with verbose := b }⟩,
   ⟨"offline", .flag (·.offline) fun b c => { c with offline := b }⟩,
   ⟨"poll_interval", .natural (·.pollInterval) fun n c => { c with pollInterval := n }⟩,
   ⟨"max_results", .natural (·.pageSize) fun n c => { c with pageSize := n }⟩,
   ⟨"page_limit", .natural (·.pageLimit) fun n c => { c with pageLimit := n }⟩]

theorem lawful_all : ∀ s ∈ all, s.kind.Lawful := by
  simp only [all, List.forall_mem_cons, List.not_mem_nil, false_implies, implies_true, and_true,
    SettingKind.Lawful, List.forall_mem_map]

/-- The setting with the given short name. -/
def named? (key : String) : Option Setting :=
  all.find? (·.key == key)

/-- What a document changes about the setting; none if the value does not fit or is given twice. -/
def ofDocument? (s : Setting) (document : Toml.Entries) : Option (Config → Config) :=
  match Dict.find? document s.name, Dict.find? document s.key with
  | none, none => some id
  | some v, none => s.kind.ofToml? v
  | none, some v => s.kind.ofToml? v
  | some v, some _ => if s.name = s.key then s.kind.ofToml? v else none

end Setting

namespace Config

/-- The settings with one changed; the case of the key does not matter. -/
def set (c : Config) (key value : String) : Except ConfigError Config :=
  match Setting.named? (Text.lower key) with
  | none => .error (.unknownKey key)
  | some s =>
    match s.kind.ofText? value with
    | .ok f => .ok (f c)
    | .error shown => .error (.badValue key shown)

/-- The settings of a document. What it does not mention is as at the start, and what is no setting
does not matter. -/
def ofDocument? (home : String) (document : Toml.Entries) : Option Config :=
  Setting.all.foldlM (fun c s => (s.ofDocument? document).map fun f => f c) (initial home)

/-- The settings in a file. -/
def load (home : String) (files : Files) (path : String) : Except ConfigError Config :=
  match files.read path with
  | .error e => .error (.unreadable path e)
  | .ok f =>
    match (Toml.ofText? f.text).bind (ofDocument? home) with
    | some c => .ok { c with configFile := some path }
    | none => .error (.unparsable path)

end Config
end RestSql
