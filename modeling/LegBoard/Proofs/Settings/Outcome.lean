import LegBoard.Settings.Resolve

/-!
# How the making of settings ends

Two files may be read, the configuration file and then the itinerary. Either may not be there, may
not be text, or may not be of its format. What is reported, and what was logged by then, is told
from the bytes at the two paths alone. The wording of the causes is left out.
-/
namespace LegBoard.Settings

open LegBoard.Transit (Itinerary)

/-! ## One file -/

/-- The file at a path can be read, and its bytes are the UTF-8 form of a text. -/
def FileHolds (files : Files) (path text : String) : Prop :=
  ∃ content, files.readBytes path = .ok content ∧ String.fromUTF8? content = some text

theorem fileHolds_of_readBytes {files : Files} {path text : String}
    (h : files.readBytes path = .ok text.toUTF8) : FileHolds files path text :=
  ⟨text.toUTF8, h, dif_pos text.isValidUTF8⟩

/-- Why the file at a path gives no text. -/
inductive ReadFault (files : Files) (path : String) : ReadError → Prop
  | unread {cause : ReadError} (h : files.readBytes path = .error cause) :
      ReadFault files path cause
  | notText {content : ByteArray} (h : files.readBytes path = .ok content)
      (htext : String.fromUTF8? content = none) : ReadFault files path .notText

theorem readText_unread {files : Files} {path : String} {cause : ReadError}
    (h : files.readBytes path = .error cause) : files.readText path = .error cause := by
  rw [Files.readText, h]
  rfl

theorem readText_read {files : Files} {path : String} {content : ByteArray}
    (h : files.readBytes path = .ok content) :
    files.readText path =
      match String.fromUTF8? content with
      | some text => .ok text
      | none => .error .notText := by
  rw [Files.readText, h]
  rfl

theorem readText_eq_ok_iff {files : Files} {path text : String} :
    files.readText path = .ok text ↔ FileHolds files path text := by
  constructor
  · intro h
    cases hbytes : files.readBytes path with
    | error cause =>
      rw [readText_unread hbytes] at h
      cases h
    | ok content =>
      rw [readText_read hbytes] at h
      split at h
      · next htext =>
        cases h
        exact ⟨content, hbytes, htext⟩
      · cases h
  · rintro ⟨content, hbytes, htext⟩
    rw [readText_read hbytes, htext]

theorem readText_eq_error_iff {files : Files} {path : String} {cause : ReadError} :
    files.readText path = .error cause ↔ ReadFault files path cause := by
  constructor
  · intro h
    cases hbytes : files.readBytes path with
    | error cause' =>
      rw [readText_unread hbytes] at h
      cases h
      exact .unread hbytes
    | ok content =>
      rw [readText_read hbytes] at h
      split at h
      · cases h
      · next htext =>
        cases h
        exact .notText hbytes htext
  · intro h
    cases h with
    | unread hbytes => exact readText_unread hbytes
    | notText hbytes htext => rw [readText_read hbytes, htext]

/-! ## The two files -/

/-- The configuration of a run: that of the file at a path, or none if there is no path. -/
def ConfigAt (files : Files) : Option String → ConfigFile → Prop
  | none, file => file = {}
  | some path, file => ∃ text, FileHolds files path text ∧ ConfigFile.parse? text = some file

/-- The itinerary of a run: that of the file at a path, or the sample if there is no path. -/
def ItineraryAt (files : Files) : Option String → Itinerary → Prop
  | none, itinerary => itinerary = Itinerary.sample
  | some path, itinerary =>
    ∃ text, FileHolds files path text ∧ Json.parse Itinerary text = .ok itinerary

/-- Why the file at a path does not give what is wanted of it. -/
inductive LoadFault (files : Files) (path : String) : Source → ResolveError → Prop
  | read {source : Source} {cause : ReadError} (h : ReadFault files path cause) :
      LoadFault files path source (.unreadable source path cause)
  | config {text : String} (h : FileHolds files path text)
      (hparse : ConfigFile.parse? text = none) : LoadFault files path .config (.badConfig path)
  | itinerary {text : String} {fault : Json.Fault} (h : FileHolds files path text)
      (hparse : Json.parse Itinerary text = .error fault) :
      LoadFault files path .itinerary (.badItinerary path fault)

/-- What the text of a file gives, once the file has been read. -/
def loadAs {α : Type} (source : Source) (parse : String → String → Except ResolveError α)
    (files : Files) (path : String) : Except ResolveError α :=
  match files.readText path with
  | .error cause => .error (.unreadable source path cause)
  | .ok text => parse path text

theorem loadAs_eq_ok_iff {α : Type} {source : Source}
    {parse : String → String → Except ResolveError α} {files : Files} {path : String} {a : α} :
    loadAs source parse files path = .ok a ↔
      ∃ text, FileHolds files path text ∧ parse path text = .ok a := by
  unfold loadAs
  constructor
  · intro h
    split at h
    · cases h
    · next text hread => exact ⟨text, readText_eq_ok_iff.mp hread, h⟩
  · rintro ⟨text, hfile, hparse⟩
    rw [readText_eq_ok_iff.mpr hfile]
    exact hparse

theorem loadFault_of_loadAs {α : Type} {source : Source}
    {parse : String → String → Except ResolveError α} {files : Files} {path : String}
    {e : ResolveError} (h : loadAs source parse files path = .error e)
    (hparse : ∀ text, FileHolds files path text → parse path text = .error e →
      LoadFault files path source e) : LoadFault files path source e := by
  unfold loadAs at h
  split at h
  · next cause hread =>
    cases h
    exact .read (readText_eq_error_iff.mp hread)
  · next text hread => exact hparse text (readText_eq_ok_iff.mp hread) h

def parseConfig (path text : String) : Except ResolveError ConfigFile :=
  match ConfigFile.parse? text with
  | none => .error (.badConfig path)
  | some file => .ok file

def parseItinerary (path text : String) : Except ResolveError Itinerary :=
  match Json.parse Itinerary text with
  | .error fault => .error (.badItinerary path fault)
  | .ok itinerary => .ok itinerary

/-- The configuration of a run as it is loaded. -/
def loadConfig (files : Files) : Option String → Except ResolveError ConfigFile
  | none => .ok {}
  | some path => loadAs .config parseConfig files path

/-- The itinerary of a run as it is loaded. -/
def loadItinerary (files : Files) : Option String → Except ResolveError Itinerary
  | none => .ok Itinerary.sample
  | some path => loadAs .itinerary parseItinerary files path

theorem loadConfig_of_fileHolds {files : Files} {path text : String}
    (h : FileHolds files path text) : loadConfig files (some path) = parseConfig path text := by
  rw [loadConfig, loadAs, readText_eq_ok_iff.mpr h]

theorem loadItinerary_of_fileHolds {files : Files} {path text : String}
    (h : FileHolds files path text) :
    loadItinerary files (some path) = parseItinerary path text := by
  rw [loadItinerary, loadAs, readText_eq_ok_iff.mpr h]

theorem loadConfig_eq_ok_iff {files : Files} {path? : Option String} {file : ConfigFile} :
    loadConfig files path? = .ok file ↔ ConfigAt files path? file := by
  cases path? with
  | none => exact ⟨fun h => (Except.ok.inj h).symm, fun h => congrArg Except.ok h.symm⟩
  | some path =>
    have hparse : ∀ text, parseConfig path text = .ok file ↔
        ConfigFile.parse? text = some file := by
      intro text
      unfold parseConfig
      cases ConfigFile.parse? text <;> simp
    simp only [loadConfig, loadAs_eq_ok_iff, hparse]
    rfl

theorem loadItinerary_eq_ok_iff {files : Files} {path? : Option String} {itinerary : Itinerary} :
    loadItinerary files path? = .ok itinerary ↔ ItineraryAt files path? itinerary := by
  cases path? with
  | none => exact ⟨fun h => (Except.ok.inj h).symm, fun h => congrArg Except.ok h.symm⟩
  | some path =>
    have hparse : ∀ text, parseItinerary path text = .ok itinerary ↔
        Json.parse Itinerary text = .ok itinerary := by
      intro text
      unfold parseItinerary
      cases Json.parse Itinerary text <;> simp
    simp only [loadItinerary, loadAs_eq_ok_iff, hparse]
    rfl

theorem loadConfig_eq_error {files : Files} {path? : Option String} {e : ResolveError}
    (h : loadConfig files path? = .error e) :
    ∃ path, path? = some path ∧ LoadFault files path .config e := by
  cases path? with
  | none => cases h
  | some path =>
    refine ⟨path, rfl, loadFault_of_loadAs h fun text hfile hbad => ?_⟩
    unfold parseConfig at hbad
    split at hbad
    · next hparse =>
      cases hbad
      exact .config hfile hparse
    · cases hbad

theorem loadItinerary_eq_error {files : Files} {path? : Option String} {e : ResolveError}
    (h : loadItinerary files path? = .error e) :
    ∃ path, path? = some path ∧ LoadFault files path .itinerary e := by
  cases path? with
  | none => cases h
  | some path =>
    refine ⟨path, rfl, loadFault_of_loadAs h fun text hfile hbad => ?_⟩
    unfold parseItinerary at hbad
    split at hbad
    · next fault hparse =>
      cases hbad
      exact .itinerary hfile hparse
    · cases hbad

theorem not_fileHolds {files : Files} {path : String} {content : ByteArray}
    (hread : files.readBytes path = .ok content) (htext : String.fromUTF8? content = none)
    (text : String) : ¬FileHolds files path text := by
  rintro ⟨content', hread', htext'⟩
  cases hread.symm.trans hread'
  rw [htext] at htext'
  cases htext'

/-- A file whose bytes are not UTF-8 is never blamed for its format. -/
theorem LoadFault.of_notText {files : Files} {path : String} {content : ByteArray}
    (hread : files.readBytes path = .ok content) (htext : String.fromUTF8? content = none)
    {source : Source} {e : ResolveError} (h : LoadFault files path source e) :
    e = .unreadable source path .notText := by
  cases h with
  | read h =>
    cases h with
    | unread h => cases hread.symm.trans h
    | notText _ _ => rfl
  | config h => exact absurd h (not_fileHolds hread htext _)
  | itinerary h => exact absurd h (not_fileHolds hread htext _)

/-- A message says what failed and ends with the path as it was given. -/
theorem LoadFault.message {files : Files} {path : String} {source : Source} {e : ResolveError}
    (h : LoadFault files path source e) :
    e.message = "Failed to read " ++ source.label ++ ": " ++ path ∨
      e.message = "Failed to parse " ++ source.label ++ ": " ++ path := by
  cases h with
  | read => exact .inl rfl
  | config => exact .inr rfl
  | itinerary => exact .inr rfl

/-! ## A run -/

/-- The path at which a run looks for its itinerary. -/
def itineraryPath (args : Args) (file : ConfigFile) : Option String :=
  args.itinerary <|> file.itineraryPath

/-- The explorer of a run. -/
def explorerFrom (args : Args) (file : ConfigFile) : Explorer :=
  explorerOf (args.graphiqlUrl <|> file.graphiqlUrl)

/-- The event of an itinerary that was loaded from a path, if there is one. -/
def itineraryEvent (path? : Option String) (itinerary : Itinerary) : Event :=
  match path? with
  | none => .sampleUsed itinerary.legs.length
  | some path => .itineraryLoaded path itinerary.legs.length

/-- The number of legs that an event tells of. -/
def Event.legs? : Event → Option Nat
  | .itineraryLoaded _ legs => some legs
  | .sampleUsed legs => some legs
  | _ => none

theorem itineraryEvent_legs? (path? : Option String) (itinerary : Itinerary) :
    (itineraryEvent path? itinerary).legs? = some itinerary.legs.length := by
  cases path? <;> rfl

/-- Once it is known where links lead and where the itinerary is: the first is logged, then the
itinerary is loaded and logged. -/
def resolution (files : Files) (explorer : Explorer) (path? : Option String) : Resolution :=
  match loadItinerary files path? with
  | .error e => ⟨[explorerEvent explorer], .error e⟩
  | .ok itinerary =>
    ⟨[explorerEvent explorer, itineraryEvent path? itinerary], .ok ⟨explorer, itinerary⟩⟩

theorem resolution_result (files : Files) (explorer : Explorer) (path? : Option String) :
    (resolution files explorer path?).result =
      (loadItinerary files path?).map fun itinerary => ⟨explorer, itinerary⟩ := by
  unfold resolution
  cases loadItinerary files path? <;> rfl

theorem configOf_readText (files : Files) (path : String) :
    configOf path (files.readText path) = loadConfig files (some path) := rfl

theorem itineraryOf_readText (files : Files) (path : String) :
    itineraryOf path (files.readText path) = loadItinerary files (some path) := rfl

theorem merge_eq (files : Files) (args : Args) (file : ConfigFile) :
    Id.run (merge (fun path => files.readText path) args file) =
      resolution files (explorerFrom args file) (itineraryPath args file) := by
  unfold merge resolution itineraryPath
  cases args.itinerary <|> file.itineraryPath with
  | none =>
    rw [Itinerary.readSample_eq]
    rfl
  | some path =>
    simp only [Id.run, bind, pure, itineraryOf_readText]
    cases loadItinerary files (some path) <;> rfl

/-- The settings of a run: its configuration, then what that leads to. -/
theorem resolve_eq (files : Files) (args : Args) :
    resolve files args =
      match loadConfig files args.config with
      | .error e => ⟨[], .error e⟩
      | .ok file => resolution files (explorerFrom args file) (itineraryPath args file) := by
  unfold resolve resolveWith
  cases args.config with
  | none => exact merge_eq files args {}
  | some path =>
    simp only [bind, configOf_readText]
    cases loadConfig files (some path) with
    | error e => rfl
    | ok file => exact merge_eq files args file

/-! ## What a run comes to -/

theorem resolve_of_badConfig {files : Files} {args : Args}
    (h : ∀ file, ¬ConfigAt files args.config file) :
    ∃ path e, args.config = some path ∧ LoadFault files path .config e ∧
      resolve files args = ⟨[], .error e⟩ := by
  rw [resolve_eq]
  cases hload : loadConfig files args.config with
  | error e =>
    obtain ⟨path, hpath, hfault⟩ := loadConfig_eq_error hload
    exact ⟨path, e, hpath, hfault, rfl⟩
  | ok file => exact absurd (loadConfig_eq_ok_iff.mp hload) (h file)

theorem resolve_of_config {files : Files} {args : Args} {file : ConfigFile}
    (h : ConfigAt files args.config file) :
    resolve files args = resolution files (explorerFrom args file) (itineraryPath args file) := by
  rw [resolve_eq, loadConfig_eq_ok_iff.mpr h]

/-- A run that names no file shows the sample. -/
theorem resolve_of_noFiles {files : Files} {args : Args} (hconfig : args.config = none)
    (hitinerary : args.itinerary = none) :
    resolve files args =
      ⟨[explorerEvent (explorerOf args.graphiqlUrl),
        .sampleUsed Itinerary.sample.legs.length],
        .ok ⟨explorerOf args.graphiqlUrl, Itinerary.sample⟩⟩ := by
  obtain ⟨config, graphiqlUrl, itinerary⟩ := args
  subst hconfig hitinerary
  rw [resolve_eq]
  cases graphiqlUrl <;> rfl

theorem resolution_of_badItinerary {files : Files} {path? : Option String}
    (h : ∀ itinerary, ¬ItineraryAt files path? itinerary) (explorer : Explorer) :
    ∃ path e, path? = some path ∧ LoadFault files path .itinerary e ∧
      resolution files explorer path? = ⟨[explorerEvent explorer], .error e⟩ := by
  unfold resolution
  cases hload : loadItinerary files path? with
  | error e =>
    obtain ⟨path, hpath, hfault⟩ := loadItinerary_eq_error hload
    exact ⟨path, e, hpath, hfault, rfl⟩
  | ok itinerary => exact absurd (loadItinerary_eq_ok_iff.mp hload) (h itinerary)

theorem resolution_of_itinerary {files : Files} {path? : Option String} {itinerary : Itinerary}
    (h : ItineraryAt files path? itinerary) (explorer : Explorer) :
    resolution files explorer path? =
      ⟨[explorerEvent explorer, itineraryEvent path? itinerary], .ok ⟨explorer, itinerary⟩⟩ := by
  unfold resolution
  rw [loadItinerary_eq_ok_iff.mpr h]

/-- What a run leads to, told from the files at the paths it was given. -/
structure Outcome (files : Files) (args : Args) (r : Resolution) : Prop where
  /-- There are settings exactly if both files are there and well-formed, where they are asked
  for. -/
  succeeds : (∃ settings, r.result = .ok settings) ↔
    ∃ file itinerary, ConfigAt files args.config file ∧
      ItineraryAt files (itineraryPath args file) itinerary
  /-- A bad configuration file is all that is reported, before anything is logged. -/
  badConfig : (∀ file, ¬ConfigAt files args.config file) →
    ∃ path e, args.config = some path ∧ LoadFault files path .config e ∧ r = ⟨[], .error e⟩
  /-- A bad itinerary is reported once the explorer was logged. -/
  badItinerary : ∀ file, ConfigAt files args.config file →
    (∀ itinerary, ¬ItineraryAt files (itineraryPath args file) itinerary) →
    ∃ path e, itineraryPath args file = some path ∧ LoadFault files path .itinerary e ∧
      r = ⟨[explorerEvent (explorerFrom args file)], .error e⟩
  /-- Settings come with two events, of which the second counts the legs of the itinerary. -/
  success : ∀ file itinerary, ConfigAt files args.config file →
    ItineraryAt files (itineraryPath args file) itinerary →
    ∃ loaded, loaded.legs? = some itinerary.legs.length ∧
      r = ⟨[explorerEvent (explorerFrom args file), loaded],
        .ok ⟨explorerFrom args file, itinerary⟩⟩
  /-- A file that is asked for and is not UTF-8 is reported as one that cannot be read. -/
  configNotText : ∀ path content, args.config = some path → files.readBytes path = .ok content →
    String.fromUTF8? content = none → r.result = .error (.unreadable .config path .notText)
  itineraryNotText : ∀ file path content, ConfigAt files args.config file →
    itineraryPath args file = some path → files.readBytes path = .ok content →
    String.fromUTF8? content = none → r.result = .error (.unreadable .itinerary path .notText)
  /-- Every error names the path of its file as it was given. -/
  message : ∀ e, r.result = .error e → ∃ (source : Source) (path : String),
    (args.config = some path ∨
      ∃ file, ConfigAt files args.config file ∧ itineraryPath args file = some path) ∧
    (e.message = "Failed to read " ++ source.label ++ ": " ++ path ∨
      e.message = "Failed to parse " ++ source.label ++ ": " ++ path)

theorem not_configAt_of_notText {files : Files} {path : String} {content : ByteArray}
    (hread : files.readBytes path = .ok content) (htext : String.fromUTF8? content = none)
    (file : ConfigFile) : ¬ConfigAt files (some path) file := by
  rintro ⟨text, hfile, -⟩
  exact not_fileHolds hread htext text hfile

theorem not_itineraryAt_of_notText {files : Files} {path : String} {content : ByteArray}
    (hread : files.readBytes path = .ok content) (htext : String.fromUTF8? content = none)
    (itinerary : Itinerary) : ¬ItineraryAt files (some path) itinerary := by
  rintro ⟨text, hfile, -⟩
  exact not_fileHolds hread htext text hfile

theorem resolve_outcome (files : Files) (args : Args) :
    Outcome files args (resolve files args) where
  succeeds := by
    constructor
    · rintro ⟨settings, hok⟩
      rw [resolve_eq] at hok
      cases hconfig : loadConfig files args.config with
      | error e =>
        rw [hconfig] at hok
        cases hok
      | ok file =>
        rw [hconfig] at hok
        unfold resolution at hok
        cases hload : loadItinerary files (itineraryPath args file) with
        | error e =>
          simp only [hload] at hok
          cases hok
        | ok itinerary =>
          exact ⟨file, itinerary, loadConfig_eq_ok_iff.mp hconfig,
            loadItinerary_eq_ok_iff.mp hload⟩
    · rintro ⟨file, itinerary, hconfig, hitinerary⟩
      rw [resolve_of_config hconfig, resolution_of_itinerary hitinerary]
      exact ⟨_, rfl⟩
  badConfig := resolve_of_badConfig
  badItinerary file hconfig hbad := by
    rw [resolve_of_config hconfig]
    exact resolution_of_badItinerary hbad _
  success file itinerary hconfig hitinerary := by
    rw [resolve_of_config hconfig, resolution_of_itinerary hitinerary]
    exact ⟨_, itineraryEvent_legs? _ itinerary, rfl⟩
  configNotText path content hpath hread htext := by
    have hbad : ∀ file, ¬ConfigAt files args.config file := by
      rw [hpath]
      exact not_configAt_of_notText hread htext
    obtain ⟨path', e, hpath', hfault, hr⟩ := resolve_of_badConfig hbad
    cases hpath.symm.trans hpath'
    rw [hr, hfault.of_notText hread htext]
  itineraryNotText file path content hconfig hpath hread htext := by
    have hbad : ∀ itinerary, ¬ItineraryAt files (itineraryPath args file) itinerary := by
      rw [hpath]
      exact not_itineraryAt_of_notText hread htext
    obtain ⟨path', e, hpath', hfault, hr⟩ :=
      resolution_of_badItinerary hbad (explorerFrom args file)
    cases hpath.symm.trans hpath'
    rw [resolve_of_config hconfig, hr, hfault.of_notText hread htext]
  message e he := by
    rw [resolve_eq] at he
    cases hconfig : loadConfig files args.config with
    | error e' =>
      rw [hconfig] at he
      cases he
      obtain ⟨path, hpath, hfault⟩ := loadConfig_eq_error hconfig
      exact ⟨.config, path, .inl hpath, hfault.message⟩
    | ok file =>
      rw [hconfig] at he
      unfold resolution at he
      cases hload : loadItinerary files (itineraryPath args file) with
      | error e' =>
        simp only [hload] at he
        cases he
        obtain ⟨path, hpath, hfault⟩ := loadItinerary_eq_error hload
        exact ⟨.itinerary, path, .inr ⟨file, loadConfig_eq_ok_iff.mp hconfig, hpath⟩,
          hfault.message⟩
      | ok itinerary =>
        simp only [hload] at he
        cases he

end LegBoard.Settings
