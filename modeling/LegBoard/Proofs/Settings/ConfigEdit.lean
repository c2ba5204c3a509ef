import LegBoard.Proofs.Settings.BlankUrl
import LegBoard.Proofs.Toml.Tables

/-!
# Edits of the configuration file

An entry of the configuration file that is given directly as well can be edited at will: the run
comes to the same. It has to be the same otherwise, and that is not only a matter of the
configuration file, because the itinerary of a run may be that very file.
-/
namespace LegBoard.Settings

/-! ## Documents -/

/-- Two documents that may differ in one section only, of which both are read for a text or for
none. -/
structure SectionEdit (name key : String) (root root' : Toml.Table) : Prop where
  before : ∃ old, ConfigFile.entry? root name key = some old
  after : ∃ new, ConfigFile.entry? root' name key = some new
  rest : ∀ other, other ≠ name → Toml.find? other root'.2 = Toml.find? other root.2

/-- Two texts of configuration files, of which one comes of the other by giving a section another
text, or none. -/
def TextEdit (name key text text' : String) : Prop :=
  ∃ root root', Toml.parse? text = some root ∧ Toml.parse? text' = some root' ∧
    SectionEdit name key root root'

theorem SectionEdit.entry?_eq {name key : String} {root root' : Toml.Table}
    (h : SectionEdit name key root root') (other key' : String)
    (hother : other ≠ name) :
    ConfigFile.entry? root' other key' = ConfigFile.entry? root other key' := by
  unfold ConfigFile.entry?
  rw [h.rest other hother]

/-- In a table that has every name once, what a name leads to is what stands under it. -/
theorem find?_of_mem {table : Toml.Table} (hnames : Toml.NamesOnce table) {name : String}
    {value : Toml.Value} (h : (name, value) ∈ table.2) : Toml.find? name table.2 = some value := by
  obtain ⟨front, back, hsplit⟩ := List.append_of_mem h
  have habsent : Toml.Absent name front := by
    intro entry hentry heq
    rw [Toml.NamesOnce, hsplit, List.map_append, List.nodup_append] at hnames
    exact hnames.2.2 entry.1 (List.mem_map_of_mem hentry) name List.mem_cons_self heq
  rw [hsplit, Toml.find?_split habsent]

/-- What stands outside of both sections is not touched by an edit of one. -/
theorem SectionEdit.othersFit {name key : String} {root root' : Toml.Table}
    (h : SectionEdit name key root root') (hname : name = "explorer" ∨ name = "itinerary")
    (hnames : Toml.NamesOnce root') (hfits : ConfigFile.othersFit root = true) :
    ConfigFile.othersFit root' = true := by
  refine List.all_eq_true.mpr fun entry hentry => ?_
  obtain ⟨other, value⟩ := entry
  simp only [Bool.or_eq_true, beq_iff_eq]
  by_cases hsection : other = "explorer" ∨ other = "itinerary"
  · exact .inl hsection
  · have hother : other ≠ name := by
      rintro rfl
      exact hsection hname
    have hfind := find?_of_mem hnames hentry
    rw [h.rest other hother] at hfind
    obtain ⟨entry, hmem, rfl⟩ := Option.map_eq_some_iff.mp hfind
    have hkey : entry.1 = other := by simpa using List.find?_some hmem
    have hentryFits := List.all_eq_true.mp hfits entry (List.mem_of_find?_eq_some hmem)
    simp only [Bool.or_eq_true, beq_iff_eq, hkey] at hentryFits
    exact hentryFits

theorem SectionEdit.symm {name key : String} {root root' : Toml.Table}
    (h : SectionEdit name key root root') : SectionEdit name key root' root :=
  ⟨h.after, h.before, fun other hother => (h.rest other hother).symm⟩

/-- An edit of a section keeps the numbers outside of both in range, or out of it. -/
theorem SectionEdit.othersFit_eq {name key text text' : String} {root root' : Toml.Table}
    (h : SectionEdit name key root root') (hname : name = "explorer" ∨ name = "itinerary")
    (hroot : Toml.parse? text = some root) (hroot' : Toml.parse? text' = some root') :
    ConfigFile.othersFit root' = ConfigFile.othersFit root := by
  obtain ⟨statements, -, hmade⟩ := Option.bind_eq_some_iff.mp hroot
  obtain ⟨statements', -, hmade'⟩ := Option.bind_eq_some_iff.mp hroot'
  rw [Bool.eq_iff_iff]
  exact ⟨h.symm.othersFit hname (Toml.root?_namesOnce hmade),
    h.othersFit hname (Toml.root?_namesOnce hmade')⟩

theorem TextEdit.itineraryPath_eq {text text' : String}
    (h : TextEdit "explorer" "graphiql_url" text text') :
    (ConfigFile.parse? text').map (·.itineraryPath) =
      (ConfigFile.parse? text).map (·.itineraryPath) := by
  obtain ⟨root, root', hroot, hroot', hedit⟩ := h
  obtain ⟨old, hold⟩ := hedit.before
  obtain ⟨new, hnew⟩ := hedit.after
  have hrest := hedit.entry?_eq "itinerary" "path" (by decide)
  unfold ConfigFile.parse? ConfigFile.ofToml?
  rw [hroot, hroot']
  simp only [Option.bind_eq_bind, Option.bind_some, hold, hnew, hrest,
    hedit.othersFit_eq (.inl rfl) hroot hroot']
  cases ConfigFile.entry? root "itinerary" "path" with
  | none => rfl
  | some path => cases ConfigFile.othersFit root <;> rfl

theorem TextEdit.graphiqlUrl_eq {text text' : String}
    (h : TextEdit "itinerary" "path" text text') :
    (ConfigFile.parse? text').map (·.graphiqlUrl) =
      (ConfigFile.parse? text).map (·.graphiqlUrl) := by
  obtain ⟨root, root', hroot, hroot', hedit⟩ := h
  obtain ⟨old, hold⟩ := hedit.before
  obtain ⟨new, hnew⟩ := hedit.after
  have hrest := hedit.entry?_eq "explorer" "graphiql_url" (by decide)
  unfold ConfigFile.parse? ConfigFile.ofToml?
  rw [hroot, hroot']
  simp only [Option.bind_eq_bind, Option.bind_some, hold, hnew, hrest,
    hedit.othersFit_eq (.inr rfl) hroot hroot']
  cases ConfigFile.entry? root "explorer" "graphiql_url" with
  | none => rfl
  | some url => cases ConfigFile.othersFit root <;> rfl

/-- A document that has one section at most, which gives a text or none. -/
def OnlySection (name key text : String) (content : Option String) : Prop :=
  (Toml.parse? text).map
    (fun root => (root.2.all (·.1 == name), ConfigFile.entry? root name key)) =
      some (true, some content)

instance (name key text : String) (content : Option String) :
    Decidable (OnlySection name key text content) :=
  inferInstanceAs (Decidable (_ = _))

theorem find?_eq_none {name : String} {entries : List (String × Toml.Value)}
    (h : entries.all (·.1 == name) = true) {other : String} (hother : other ≠ name) :
    Toml.find? other entries = none := by
  rw [Toml.find?, Option.map_eq_none_iff, List.find?_eq_none]
  intro entry hentry
  have hname := List.all_eq_true.mp h entry hentry
  rw [beq_iff_eq] at hname ⊢
  rintro rfl
  exact hother hname

theorem textEdit_of_onlySection {name key text text' : String} {content content' : Option String}
    (h : OnlySection name key text content) (h' : OnlySection name key text' content') :
    TextEdit name key text text' := by
  obtain ⟨root, hroot, hold⟩ := Option.map_eq_some_iff.mp h
  obtain ⟨root', hroot', hnew⟩ := Option.map_eq_some_iff.mp h'
  obtain ⟨hname, hold⟩ := Prod.mk.inj hold
  obtain ⟨hname', hnew⟩ := Prod.mk.inj hnew
  refine ⟨root, root', hroot, hroot', ⟨content, hold⟩, ⟨content', hnew⟩, fun other hother => ?_⟩
  rw [find?_eq_none hname hother, find?_eq_none hname' hother]

theorem onlySection_linkedConfig :
    OnlySection "explorer" "graphiql_url" linkedConfig (some "http://otp.example/graphiql") := by
  decide +kernel

theorem onlySection_empty : OnlySection "explorer" "graphiql_url" "" none := by
  decide +kernel

/-! ## Runs -/

/-- A run looks for its itinerary at a path. -/
def LooksAt (files : Files) (args : Args) (path : String) : Prop :=
  ∃ file, ConfigAt files args.config file ∧ itineraryPath args file = some path

/-- Two trees of files between which the configuration file of a run was edited, while the
itinerary of the run stayed as it was. -/
structure ConfigEdit (name key : String) (args : Args) (files files' : Files) : Prop where
  edit : ∃ path text text', args.config = some path ∧ FileHolds files path text ∧
    FileHolds files' path text' ∧ TextEdit name key text text'
  itinerary : ∀ path, LooksAt files args path → files'.readBytes path = files.readBytes path

theorem loadItinerary_congr {files files' : Files} {path? : Option String}
    (h : ∀ path, path? = some path → files'.readBytes path = files.readBytes path) :
    loadItinerary files' path? = loadItinerary files path? := by
  cases path? with
  | none => rfl
  | some path => rw [loadItinerary, loadItinerary, loadAs, loadAs, Files.readText, Files.readText,
      h path rfl]

/-- What a run takes from its configuration file is where links lead and where the itinerary is. -/
theorem resolve_congr {files files' : Files} {args : Args} {path text text' : String}
    (hpath : args.config = some path) (hfile : FileHolds files path text)
    (hfile' : FileHolds files' path text')
    (hsame : (ConfigFile.parse? text').map
        (fun file => (explorerFrom args file, itineraryPath args file)) =
      (ConfigFile.parse? text).map
        (fun file => (explorerFrom args file, itineraryPath args file)))
    (hread : ∀ path, LooksAt files args path → files'.readBytes path = files.readBytes path) :
    resolve files' args = resolve files args := by
  rw [resolve_eq, resolve_eq, hpath, loadConfig_of_fileHolds hfile,
    loadConfig_of_fileHolds hfile', parseConfig, parseConfig]
  cases hparse : ConfigFile.parse? text with
  | none =>
    rw [hparse, Option.map_none, Option.map_eq_none_iff] at hsame
    rw [hsame]
  | some file =>
    rw [hparse, Option.map_some, Option.map_eq_some_iff] at hsame
    obtain ⟨file', hparse', heq⟩ := hsame
    obtain ⟨hexplorer, hitinerary⟩ := Prod.mk.inj heq
    have hconfig : ConfigAt files args.config file := by
      rw [hpath]
      exact ⟨text, hfile, hparse⟩
    have hload := loadItinerary_congr fun path hlooks => hread path ⟨file, hconfig, hlooks⟩
    rw [hparse']
    dsimp only
    rw [hexplorer, hitinerary, resolution, resolution, hload]

theorem resolve_graphiqlUrlEdit {files files' : Files} {args : Args} {url : String}
    (hurl : args.graphiqlUrl = some url)
    (h : ConfigEdit "explorer" "graphiql_url" args files files') :
    resolve files' args = resolve files args := by
  obtain ⟨path, text, text', hpath, hfile, hfile', hedit⟩ := h.edit
  have htaken : (fun file => (explorerFrom args file, itineraryPath args file)) =
      (fun path => (explorerOf (some url), args.itinerary <|> path)) ∘
        fun file => file.itineraryPath := by
    funext file
    simp [explorerFrom, itineraryPath, hurl]
  refine resolve_congr hpath hfile hfile' ?_ h.itinerary
  rw [htaken, ← Option.map_map, ← Option.map_map, hedit.itineraryPath_eq]

theorem resolve_itineraryPathEdit {files files' : Files} {args : Args} {path : String}
    (hitinerary : args.itinerary = some path)
    (h : ConfigEdit "itinerary" "path" args files files') :
    resolve files' args = resolve files args := by
  obtain ⟨path', text, text', hpath, hfile, hfile', hedit⟩ := h.edit
  have htaken : (fun file => (explorerFrom args file, itineraryPath args file)) =
      (fun url => (explorerOf (args.graphiqlUrl <|> url), some path)) ∘
        fun file => file.graphiqlUrl := by
    funext file
    simp [explorerFrom, itineraryPath, hitinerary]
  refine resolve_congr hpath hfile hfile' ?_ h.itinerary
  rw [htaken, ← Option.map_map, ← Option.map_map, hedit.graphiqlUrl_eq]

/-- A tree with a configuration file and an itinerary. -/
def withItinerary (text : String) : Files :=
  (configOnly text).addFile "i.json" "\x7b\"legs\":[]\x7d".toUTF8

theorem configEdit_withItinerary {name key text text' : String}
    (h : TextEdit name key text text') {args : Args} (hconfig : args.config = some "c.toml")
    (hitinerary : args.itinerary = some "i.json") :
    ConfigEdit name key args (withItinerary text) (withItinerary text') where
  edit := ⟨"c.toml", text, text', hconfig, fileHolds_of_readBytes rfl, fileHolds_of_readBytes rfl,
    h⟩
  itinerary path hlooks := by
    obtain ⟨file, -, hpath⟩ := hlooks
    rw [itineraryPath, hitinerary] at hpath
    cases hpath
    rfl

end LegBoard.Settings
