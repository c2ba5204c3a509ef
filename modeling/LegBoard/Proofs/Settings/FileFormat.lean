import LegBoard.Proofs.Settings.Outcome
import LegBoard.Proofs.Toml.DocumentsRead
import LegBoard.Proofs.Toml.Ranges

/-!
# What a configuration file is

A text is taken for a configuration file exactly if it is a TOML document whose tables have the
shape that is looked for, and it gives what they give. Any other text is refused before anything is
logged.
-/
namespace LegBoard.Settings

open LegBoard.Toml (Absent Value Table)

/-! ## The shape of the tables -/

/-- What a section gives for a key. It is a table whose numbers are all in range, with a text at the
key or without the key, an array that starts with a text or is empty, or a date. -/
inductive SectionGives (key : String) : Value → Option String → Prop
  | named {origin : Toml.Origin} {front back : List (String × Value)} {content : String}
      (hfits : Toml.entriesFit (front ++ (key, .text content) :: back) = true)
      (habsent : Absent key front) :
      SectionGives key (.table origin (front ++ (key, .text content) :: back)) (some content)
  | unnamed {origin : Toml.Origin} {entries : List (String × Value)}
      (hfits : Toml.entriesFit entries = true) (habsent : Absent key entries) :
      SectionGives key (.table origin entries) none
  | first {content : String} {items : List Value} :
      SectionGives key (.array (.text content :: items)) (some content)
  | empty : SectionGives key (.array []) none
  | dateTime : SectionGives key .dateTime none

/-- What a document gives for a key of a section, which may be missing. -/
inductive EntryGives (name key : String) : List (String × Value) → Option String → Prop
  | missing {entries : List (String × Value)} (habsent : Absent name entries) :
      EntryGives name key entries none
  | present {front back : List (String × Value)} {value : Value} {content : Option String}
      (habsent : Absent name front) (h : SectionGives key value content) :
      EntryGives name key (front ++ (name, value) :: back) content

/-- A document has the shape of a configuration file and gives what that holds. -/
structure DocumentGives (root : Table) (file : ConfigFile) : Prop where
  url : EntryGives "explorer" "graphiql_url" root.2 file.graphiqlUrl
  path : EntryGives "itinerary" "path" root.2 file.itineraryPath
  /-- What else it holds does not matter, so long as its numbers are in range. -/
  others : ∀ entry ∈ root.2, entry.1 ≠ "explorer" → entry.1 ≠ "itinerary" → entry.2.fits = true

/-- The text of a configuration file: a document that the grammar spells, whose statements do not
contradict each other and make tables of the shape that is looked for. -/
def IsConfigFile (text : String) (file : ConfigFile) : Prop :=
  ∃ statements root, Toml.States (Toml.reading true) text statements ∧
    Toml.Composes statements root ∧ DocumentGives root file

/-! ## What is read of the tables -/

theorem text?_eq_some {value : Value} {content : String}
    (h : ConfigFile.text? value = some content) : value = .text content := by
  unfold ConfigFile.text? at h
  split at h
  · cases h
    rfl
  · cases h

theorem sectionText?_eq_some_iff {key : String} {value : Value} {content : Option String} :
    ConfigFile.sectionText? key value = some content ↔ SectionGives key value content := by
  constructor
  · intro h
    unfold ConfigFile.sectionText? at h
    split at h
    · next origin entries =>
      split at h
      · next hfits =>
        split at h
        · next hfind =>
          cases h
          exact .unnamed hfits (Toml.absent_of_find? hfind)
        · next value hfind =>
          obtain ⟨content, hcontent, rfl⟩ := Option.map_eq_some_iff.mp h
          obtain rfl := text?_eq_some hcontent
          obtain ⟨front, back, rfl, habsent⟩ := Toml.split_of_find? hfind
          exact .named hfits habsent
      · cases h
    · cases h
      exact .empty
    · obtain ⟨content, hcontent, rfl⟩ := Option.map_eq_some_iff.mp h
      obtain rfl := text?_eq_some hcontent
      exact .first
    · cases h
      exact .dateTime
    · cases h
  · intro h
    cases h with
    | named hfits habsent =>
      simp only [ConfigFile.sectionText?, if_pos hfits, Toml.find?_split habsent]
      rfl
    | unnamed hfits habsent =>
      simp only [ConfigFile.sectionText?, if_pos hfits, Toml.find?_absent habsent]
    | first | empty | dateTime => rfl

theorem entry?_eq_some_iff {root : Table} {name key : String} {content : Option String} :
    ConfigFile.entry? root name key = some content ↔ EntryGives name key root.2 content := by
  constructor
  · intro h
    unfold ConfigFile.entry? at h
    split at h
    · next hfind =>
      cases h
      exact .missing (Toml.absent_of_find? hfind)
    · next value hfind =>
      obtain ⟨front, back, hsplit, habsent⟩ := Toml.split_of_find? hfind
      rw [hsplit]
      exact .present habsent (sectionText?_eq_some_iff.mp h)
  · intro h
    unfold ConfigFile.entry?
    generalize root.2 = entries at h
    cases h with
    | missing habsent => rw [Toml.find?_absent habsent]
    | present habsent h =>
      rw [Toml.find?_split habsent]
      exact sectionText?_eq_some_iff.mpr h

theorem othersFit_iff {root : Table} :
    ConfigFile.othersFit root = true ↔
      ∀ entry ∈ root.2, entry.1 ≠ "explorer" → entry.1 ≠ "itinerary" →
        entry.2.fits = true := by
  simp only [ConfigFile.othersFit, List.all_eq_true, Bool.or_eq_true, beq_iff_eq]
  exact forall₂_congr fun entry _ => by tauto

theorem ofToml?_eq_some_iff {root : Table} {file : ConfigFile} :
    ConfigFile.ofToml? root = some file ↔ DocumentGives root file := by
  constructor
  · intro h
    simp only [ConfigFile.ofToml?, Option.bind_eq_bind, Option.bind_eq_some_iff] at h
    obtain ⟨url, hurl, path, hpath, h⟩ := h
    split at h
    · next hothers =>
      cases h
      exact ⟨entry?_eq_some_iff.mp hurl, entry?_eq_some_iff.mp hpath, othersFit_iff.mp hothers⟩
    · cases h
  · intro h
    simp only [ConfigFile.ofToml?, entry?_eq_some_iff.mpr h.url, entry?_eq_some_iff.mpr h.path,
      Option.bind_eq_bind, Option.bind_some, if_pos (othersFit_iff.mpr h.others)]

/-- An array is not looked at behind its first value, so a number there may be beyond its range. -/
example : ConfigFile.ofToml? (.header, [("explorer", .array [.text "u", .oversized])]) =
    some { graphiqlUrl := some "u" } := by decide

/-! ## Texts -/

/-- A text is read as a configuration file exactly if it is one. -/
theorem configFile_iff {text : String} {file : ConfigFile} :
    ConfigFile.parse? text = some file ↔ IsConfigFile text file := by
  constructor
  · intro h
    obtain ⟨root, hroot, hfile⟩ := Option.bind_eq_some_iff.mp h
    obtain ⟨statements, hstates, hcomposes⟩ := Toml.parse?_eq_some_iff.mp hroot
    exact ⟨statements, root, hstates, hcomposes, ofToml?_eq_some_iff.mp hfile⟩
  · rintro ⟨statements, root, hstates, hcomposes, hgives⟩
    exact Option.bind_eq_some_iff.mpr
      ⟨root, Toml.parse?_eq_some_iff.mpr ⟨statements, hstates, hcomposes⟩,
        ofToml?_eq_some_iff.mpr hgives⟩

theorem noConfigFile_iff {text : String} :
    ConfigFile.parse? text = none ↔ ∀ file, ¬IsConfigFile text file := by
  simp only [Option.eq_none_iff_forall_ne_some, Ne, configFile_iff]

/-- A header that is not closed is no line of a document. -/
example : ConfigFile.parse? "[explorer\ngraphiql_url = 1" = none := by decide

theorem configAt_iff {files : Files} {path : String} {file : ConfigFile} :
    ConfigAt files (some path) file ↔
      ∃ text, FileHolds files path text ∧ IsConfigFile text file := by
  simp only [ConfigAt, configFile_iff]

/-- A run whose configuration file holds a text that is none of that format says so, with its path,
and says nothing else. -/
theorem resolve_of_badFormat {files : Files} {args : Args} {path text : String}
    (hpath : args.config = some path) (hfile : FileHolds files path text)
    (hbad : ∀ file, ¬IsConfigFile text file) :
    resolve files args = ⟨[], .error (.badConfig path)⟩ := by
  rw [resolve_eq, hpath, loadConfig_of_fileHolds hfile, parseConfig, noConfigFile_iff.mpr hbad]

end LegBoard.Settings
