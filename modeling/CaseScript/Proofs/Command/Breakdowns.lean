import CaseScript.Proofs.Command.Loading
import CaseScript.Proofs.Json.Reader

/-!
# What breaks a run off

Bad settings and bad sources are reported, apart from five causes that break a run off: the settings
file is a directory, one of its sections is not a table, the source is not UTF-8, a numeral in the
source has too many digits, or the stack does not suffice for one of the two files.
-/

namespace CaseScript
namespace Command

open Command.Action

variable {w : Workspace} {file : String}

/-! ## Settings -/

/-- The width that a settings document asks for. -/
def widthOf (document : Toml.Entries) : Except Settings.Fault Int := do
  match ← Settings.section? "format" document with
  | none => .ok ({} : Settings).width
  | some entries => Settings.widthIn entries

/-- The first section of a settings document that is not a table. The sections are looked at in
their order, and what is wrong with the width comes before the second section. -/
inductive NotTable (document : Toml.Entries) (value : Toml.Value) : Prop
  | format (found : document.lookup "format" = some value) (notTable : value.entries? = none)
  | emit (found : document.lookup "emit" = some value) (notTable : value.entries? = none)
    (format : ∃ width, widthOf document = .ok width)

theorem section?_eq_notTable {name : String} {document : Toml.Entries} {value : Toml.Value} :
    Settings.section? name document = .error (.notTable value) ↔
      document.lookup name = some value ∧ value.entries? = none := by
  unfold Settings.section?
  cases document.lookup name with
  | none => simp
  | some found =>
    cases hentries : found.entries? with
    | none =>
      simp only [hentries, Except.error.injEq, Settings.Fault.notTable.injEq, Option.some.injEq,
        iff_self_and]
      rintro rfl
      exact hentries
    | some entries =>
      simp only [hentries, reduceCtorEq, Option.some.injEq, false_iff, not_and]
      rintro rfl
      simp [hentries]

theorem widthIn_ne_notTable (entries : Toml.Entries) (value : Toml.Value) :
    Settings.widthIn entries ≠ .error (.notTable value) := by
  unfold Settings.widthIn
  split
  · exact nofun
  · split
    · split <;> exact nofun
    · exact nofun

theorem widthOf_eq_notTable {document : Toml.Entries} {value : Toml.Value} :
    widthOf document = .error (.notTable value) ↔
      document.lookup "format" = some value ∧ value.entries? = none := by
  rw [widthOf, except_bind_eq_error, section?_eq_notTable, or_iff_left]
  rintro ⟨found, -, h⟩
  cases found with
  | none => cases h
  | some entries => exact widthIn_ne_notTable entries value h

/-- The settings in a document, with the width first. -/
theorem ofToml_eq (document : Toml.Entries) :
    Settings.ofToml document = do
      let width ← widthOf document
      let found ← Settings.section? "emit" document
      return ⟨width, (found.map Settings.shadowingIn).getD ({} : Settings).allowShadowing⟩ := by
  have hend : ∀ width : Int,
      (do match ← Settings.section? "emit" document with
          | none => pure (⟨width, ({} : Settings).allowShadowing⟩ : Settings)
          | some entries => pure ⟨width, Settings.shadowingIn entries⟩) =
        do
          let found ← Settings.section? "emit" document
          return ⟨width, (found.map Settings.shadowingIn).getD ({} : Settings).allowShadowing⟩ := by
    intro width
    apply bind_congr
    intro found
    cases found <;> rfl
  unfold Settings.ofToml widthOf
  cases Settings.section? "format" document with
  | error fault => rfl
  | ok found =>
    cases found with
    | none => exact hend _
    | some entries =>
      simp only [bind, Except.bind]
      cases Settings.widthIn entries with
      | error fault => rfl
      | ok width => exact hend width

theorem ofToml_eq_notTable {document : Toml.Entries} {value : Toml.Value} :
    Settings.ofToml document = .error (.notTable value) ↔ NotTable document value := by
  rw [ofToml_eq, except_bind_eq_error, widthOf_eq_notTable]
  simp only [except_bind_eq_error, section?_eq_notTable]
  constructor
  · rintro (⟨hfound, htable⟩ | ⟨width, hwidth, ⟨hfound, htable⟩ | ⟨found, -, h⟩⟩)
    · exact .format hfound htable
    · exact .emit hfound htable ⟨width, hwidth⟩
    · cases h
  · rintro (⟨hfound, htable⟩ | ⟨hfound, htable, width, hwidth⟩)
    · exact .inl ⟨hfound, htable⟩
    · exact .inr ⟨width, hwidth, .inl ⟨hfound, htable⟩⟩

theorem load_eq_file {tree : FileTree} {location : Location} {fault : FileFault}
    (hthere : (tree.at? location).isSome = true) :
    Settings.load tree location = .error (.file fault) ↔
      tree.HasDirectory location ∧ fault = .isADirectory := by
  unfold Settings.load FileTree.HasDirectory
  cases hentry : tree.at? location with
  | none => simp [hentry] at hthere
  | some entry =>
    cases entry with
    | directory entries => simp [eq_comm]
    | file bytes => simp [mapError_eq_error]

theorem ofBytes_eq_notTable {bytes : ByteArray} {value : Toml.Value} :
    Settings.ofBytes bytes = .error (.notTable value) ↔
      ∃ text document, String.fromUTF8? bytes = some text ∧ Toml.parse text = .ok document ∧
        NotTable document value := by
  unfold Settings.ofBytes
  cases String.fromUTF8? bytes with
  | none => simp
  | some text =>
    cases hparse : Toml.parse text with
    | error fault => cases fault <;> simp [hparse]
    | ok document => simp [hparse, ofToml_eq_notTable]

theorem load_eq_content {tree : FileTree} {location : Location} {fault : Settings.Fault} :
    Settings.load tree location = .error (.content fault) ↔
      ∃ bytes, tree.fileAt? location = some bytes ∧ Settings.ofBytes bytes = .error fault := by
  unfold Settings.load FileTree.fileAt?
  cases tree.at? location with
  | none => simp
  | some entry =>
    cases entry with
    | directory entries => simp
    | file bytes => simp [mapError_eq_error]

theorem settingsFailure_eq_breakdown {fault : Settings.LoadFault} {cause : Breakdown} :
    settingsFailure fault = .breakdown cause ↔
      (∃ file, fault = .file file ∧ cause = .file file) ∨
        ∃ value, fault = .content (.notTable value) ∧ cause = .notTable value := by
  rcases fault with file | (_ | _ | _ | value | _) <;> simp [settingsFailure, eq_comm]

/-- Settings that cannot be had are reported, unless a directory or a section is in the way. -/
theorem discover_breaksOff {cause : Breakdown} :
    (Settings.discover w file).mapError settingsFailure = .error (.breakdown cause) ↔
      ∃ location, Settings.find? w file = some location ∧
        ((w.tree.HasDirectory location ∧ cause = .file .isADirectory) ∨
          ∃ bytes text document value, w.tree.fileAt? location = some bytes ∧
            String.fromUTF8? bytes = some text ∧ Toml.parse text = .ok document ∧
            NotTable document value ∧ cause = .notTable value) := by
  rw [mapError_eq_error]
  cases hfound : Settings.find? w file with
  | none => simp [Settings.discover_of_find?_eq_none hfound]
  | some location =>
    have hthere := FileTree.at?_nearest? hfound
    simp only [Settings.discover_of_find?_eq_some hfound, settingsFailure_eq_breakdown,
      Option.some.injEq, exists_eq_left']
    constructor
    · rintro ⟨fault, hload, ⟨fileFault, rfl, rfl⟩ | ⟨value, rfl, rfl⟩⟩
      · obtain ⟨hdirectory, rfl⟩ := (load_eq_file hthere).mp hload
        exact .inl ⟨hdirectory, rfl⟩
      · obtain ⟨bytes, hbytes, hvalue⟩ := load_eq_content.mp hload
        obtain ⟨text, document, htext, hdocument, htable⟩ := ofBytes_eq_notTable.mp hvalue
        exact .inr ⟨bytes, text, document, value, hbytes, htext, hdocument, htable, rfl⟩
    · rintro (⟨hdirectory, rfl⟩ |
        ⟨bytes, text, document, value, hbytes, htext, hdocument, htable, rfl⟩)
      · exact ⟨_, (load_eq_file hthere).mpr ⟨hdirectory, rfl⟩, .inl ⟨_, rfl, rfl⟩⟩
      · have hvalue := ofBytes_eq_notTable.mpr ⟨text, document, htext, hdocument, htable⟩
        exact ⟨_, load_eq_content.mpr ⟨bytes, hbytes, hvalue⟩, .inr ⟨value, rfl, rfl⟩⟩

theorem fitsSettings_of_fileAt? {location : Location} {bytes : ByteArray}
    (h : w.tree.fileAt? location = some bytes) :
    w.fitsSettings location = w.stack.settings bytes := by
  rw [FileTree.fileAt?_eq_some] at h
  rw [Workspace.fitsSettings, h]

/-- The stack is of no account where there is no settings file. -/
theorem fitsSettings_eq_false {location : Location} :
    w.fitsSettings location = false ↔
      ∃ bytes, w.tree.fileAt? location = some bytes ∧ w.stack.settings bytes = false := by
  unfold Workspace.fitsSettings FileTree.fileAt?
  cases hentry : w.tree.at? location with
  | none => simp
  | some entry => cases entry <;> simp

/-- The stack is looked at before the settings are. -/
theorem foundSettings_breaksOff {cause : Breakdown} :
    foundSettings w file = .error (.breakdown cause) ↔
      ∃ location, Settings.find? w file = some location ∧
        ((w.tree.HasDirectory location ∧ cause = .file .isADirectory) ∨
          ∃ bytes, w.tree.fileAt? location = some bytes ∧
            ((w.stack.settings bytes = false ∧ cause = .tooDeep) ∨
              w.stack.settings bytes = true ∧ ∃ text document value,
                String.fromUTF8? bytes = some text ∧ Toml.parse text = .ok document ∧
                  NotTable document value ∧ cause = .notTable value)) := by
  rw [foundSettings, except_bind_eq_error, descended_eq_error]
  simp only [descended_eq_ok, exists_const, discover_breaksOff]
  cases hfound : Settings.find? w file with
  | none => simp
  | some location =>
    simp only [Option.all_some, Option.some.injEq, exists_eq_left', Failure.breakdown.injEq]
    constructor
    · rintro (⟨hdeep, rfl⟩ | ⟨hfits, ⟨hdirectory, rfl⟩ |
        ⟨bytes, text, document, value, hbytes, htext, hdocument, htable, rfl⟩⟩)
      · obtain ⟨bytes, hbytes, hdeep⟩ := fitsSettings_eq_false.mp hdeep
        exact .inr ⟨bytes, hbytes, .inl ⟨hdeep, rfl⟩⟩
      · exact .inl ⟨hdirectory, rfl⟩
      · rw [fitsSettings_of_fileAt? hbytes] at hfits
        exact .inr ⟨bytes, hbytes, .inr ⟨hfits, text, document, value, htext, hdocument, htable,
          rfl⟩⟩
    · rintro (⟨hdirectory, rfl⟩ | ⟨bytes, hbytes, ⟨hdeep, rfl⟩ |
        ⟨hfits, text, document, value, htext, hdocument, htable, rfl⟩⟩)
      · obtain ⟨entries, hentry⟩ := hdirectory
        have hfits : w.fitsSettings location = true := by rw [Workspace.fitsSettings, hentry]
        exact .inr ⟨hfits, .inl ⟨⟨entries, hentry⟩, rfl⟩⟩
      · exact .inl ⟨fitsSettings_eq_false.mpr ⟨bytes, hbytes, hdeep⟩, rfl⟩
      · rw [← fitsSettings_of_fileAt? hbytes] at hfits
        exact .inr ⟨hfits, .inr ⟨bytes, text, document, value, hbytes, htext, hdocument, htable,
          rfl⟩⟩

/-! ## Sources -/

theorem sourceText_eq_error (hfile : w.isFile (opened file) = true) {failure : Failure} :
    sourceText w file = .error failure ↔ ∃ bytes, w.readFile (opened file) = .ok bytes ∧
      ((w.stack.source bytes = false ∧ failure = .breakdown .tooDeep) ∨
        w.stack.source bytes = true ∧ String.fromUTF8? bytes = none ∧
          failure = .breakdown .notUtf8) := by
  obtain ⟨bytes, hentry⟩ := Workspace.isFile_iff.mp hfile
  have hbytes := Workspace.readFile_eq_ok.mpr hentry
  have hread : (w.readFile (opened file)).mapError (fun fault => Failure.breakdown (.file fault)) =
      .ok bytes := mapError_eq_ok.mpr hbytes
  rw [sourceText, hread]
  simp only [bind, Except.bind, Text.ofFile?, hbytes, Except.ok.injEq, exists_eq_left']
  cases hstack : w.stack.source bytes with
  | false => simp [descended, eq_comm]
  | true =>
    cases htext : String.fromUTF8? bytes with
    | none => simp [descended, eq_comm]
    | some text => simp [descended]

theorem sourceFailure_eq_breakdown {fault : SourceFault} {cause : Breakdown} :
    sourceFailure fault = .breakdown cause ↔
      ∃ count, fault = .oversized count ∧ cause = .oversized count := by
  cases fault <;> simp [sourceFailure, eq_comm]

theorem ofSource_breaksOff {text : String} {cause : Breakdown} :
    (Expr.ofSource text).mapError sourceFailure = .error (.breakdown cause) ↔
      ∃ count, Json.parse text = .error (.oversized count) ∧ cause = .oversized count := by
  rw [mapError_eq_error]
  simp only [sourceFailure_eq_breakdown, ofSource_eq_error]
  constructor
  · rintro ⟨fault, ⟨_, -, rfl⟩ | ⟨count, hparse, rfl⟩ | ⟨_, -, _, -, rfl⟩, other, h, rfl⟩
    · cases h
    · cases h
      exact ⟨_, hparse, rfl⟩
    · cases h
  · rintro ⟨count, hparse, rfl⟩
    exact ⟨_, .inr (.inl ⟨count, hparse, rfl⟩), count, rfl, rfl⟩

/-! ## Loading -/

/-- Why loading a source file ends without a report. -/
inductive BreaksOff (w : Workspace) (file : String) : Breakdown → Prop
  | settingsDirectory {location : Location} (found : Settings.find? w file = some location)
    (directory : w.tree.HasDirectory location) : BreaksOff w file (.file .isADirectory)
  | settingsTooDeep {location : Location} {bytes : ByteArray}
    (found : Settings.find? w file = some location)
    (stands : w.tree.fileAt? location = some bytes) (tooDeep : w.stack.settings bytes = false) :
    BreaksOff w file .tooDeep
  | notTable {location : Location} {bytes : ByteArray} {text : String} {document : Toml.Entries}
    {value : Toml.Value} (found : Settings.find? w file = some location)
    (stands : w.tree.fileAt? location = some bytes) (fits : w.stack.settings bytes = true)
    (utf8 : String.fromUTF8? bytes = some text) (toml : Toml.parse text = .ok document)
    (notTable : NotTable document value) : BreaksOff w file (.notTable value)
  | sourceTooDeep {settings : Settings} {bytes : ByteArray}
    (found : foundSettings w file = .ok settings)
    (stands : w.readFile (opened file) = .ok bytes) (tooDeep : w.stack.source bytes = false) :
    BreaksOff w file .tooDeep
  | notUtf8 {settings : Settings} {bytes : ByteArray}
    (found : foundSettings w file = .ok settings)
    (stands : w.readFile (opened file) = .ok bytes) (fits : w.stack.source bytes = true)
    (notUtf8 : String.fromUTF8? bytes = none) : BreaksOff w file .notUtf8
  | oversized {settings : Settings} {text : String} {count : Nat}
    (found : foundSettings w file = .ok settings) (source : sourceText w file = .ok text)
    (numeral : Json.parse text = .error (.oversized count)) : BreaksOff w file (.oversized count)

/-- Loading a file ends without a report for these reasons alone. -/
theorem loaded_eq_breakdown (hfile : w.isFile (opened file) = true) {cause : Breakdown} :
    loaded w file = .error (.breakdown cause) ↔ BreaksOff w file cause := by
  rw [loaded, except_bind_eq_error, foundSettings_breaksOff]
  simp only [except_bind_eq_error, sourceText_eq_error hfile, ofSource_breaksOff]
  constructor
  · rintro (⟨location, hfound, ⟨hdirectory, rfl⟩ | ⟨bytes, hbytes, ⟨hdeep, rfl⟩ |
      ⟨hfits, text, document, value, htext, hdocument, htable, rfl⟩⟩⟩ |
      ⟨settings, hsettings, ⟨bytes, hbytes, ⟨hdeep, hcause⟩ | ⟨hfits, hutf8, hcause⟩⟩ |
        ⟨text, htext, ⟨count, hparse, rfl⟩ | ⟨e, -, h⟩⟩⟩)
    · exact .settingsDirectory hfound hdirectory
    · exact .settingsTooDeep hfound hbytes hdeep
    · exact .notTable hfound hbytes hfits htext hdocument htable
    · obtain rfl := Failure.breakdown.inj hcause
      exact .sourceTooDeep hsettings hbytes hdeep
    · obtain rfl := Failure.breakdown.inj hcause
      exact .notUtf8 hsettings hbytes hfits hutf8
    · exact .oversized hsettings htext hparse
    · cases h
  · rintro (⟨hfound, hdirectory⟩ | ⟨hfound, hbytes, hdeep⟩ |
      ⟨hfound, hbytes, hfits, htext, hdocument, htable⟩ | ⟨hsettings, hbytes, hdeep⟩ |
      ⟨hsettings, hbytes, hfits, hutf8⟩ | ⟨hsettings, htext, hparse⟩)
    · exact .inl ⟨_, hfound, .inl ⟨hdirectory, rfl⟩⟩
    · exact .inl ⟨_, hfound, .inr ⟨_, hbytes, .inl ⟨hdeep, rfl⟩⟩⟩
    · exact .inl ⟨_, hfound, .inr ⟨_, hbytes, .inr ⟨hfits, _, _, _, htext, hdocument, htable, rfl⟩⟩⟩
    · exact .inr ⟨_, hsettings, .inl ⟨_, hbytes, .inl ⟨hdeep, rfl⟩⟩⟩
    · exact .inr ⟨_, hsettings, .inl ⟨_, hbytes, .inr ⟨hfits, hutf8, rfl⟩⟩⟩
    · exact .inr ⟨_, hsettings, .inr ⟨_, htext, .inl ⟨_, hparse, rfl⟩⟩⟩

/-- The invocation has been read before anything is loaded. -/
theorem loaded_ne_usage (w : Workspace) (file : String) : loaded w file ≠ .error .usage := by
  simp only [ne_eq, loaded, foundSettings, sourceText, except_bind_eq_error, mapError_eq_error,
    descended_eq_error]
  rintro ((⟨-, h⟩ | ⟨_, -, fault, -, h⟩) |
    ⟨settings, -, (⟨fault, -, h⟩ | ⟨bytes, -, ⟨-, h⟩ | ⟨_, -, h⟩⟩) |
      ⟨text, -, ⟨fault, -, h⟩ | ⟨e, -, h⟩⟩⟩)
  · cases h
  · rcases fault with _ | _ | _ | _ | _ | _ <;> cases h
  · cases h
  · cases h
  · split at h <;> cases h
  · cases fault <;> cases h
  · cases h

/-- Is a failure reported unless one of some causes breaks the run off? -/
structure ReportedUnless (causes : Breakdown → Prop) (terminal : Terminal)
    (failure? : Option Failure) (printed : String) : Prop where
  brokenOff : ∀ cause, failure? = some (.breakdown cause) ↔ causes cause
  reported : failure? = none ∨ (∃ cause, causes cause) ∨
    failure? = some .reported ∧ EndsInComplaint terminal printed

section

variable {α : Type} {action : Action α} {result : Workspace → Except Failure α}
  {causes : Breakdown → Prop}

theorem Action.Reads.exists_reportedUnless (h : Reads false action result) (terminal : Terminal)
    (session : Session)
    (hcauses : ∀ cause, result session.workspace = .error (.breakdown cause) ↔ causes cause)
    (husage : result session.workspace ≠ .error .usage) :
    ∃ out err, (action terminal).run session =
        (result session.workspace,
          { session with out := session.out ++ out, err := session.err ++ err }) ∧
      ReportedUnless causes terminal (failureOf (result session.workspace)) err := by
  obtain ⟨out, err, hrun, -, hcomplaint⟩ := h terminal session
  refine ⟨out, err, hrun, ?_, ?_⟩
  · intro cause
    rw [← hcauses]
    cases result session.workspace <;> simp [failureOf]
  · cases hresult : result session.workspace with
    | ok a => exact .inl rfl
    | error failure =>
      cases failure with
      | usage => exact absurd hresult husage
      | reported => exact .inr (.inr ⟨rfl, hcomplaint hresult⟩)
      | breakdown cause => exact .inr (.inl ⟨cause, (hcauses cause).mp hresult⟩)

end

/-- A check of a file and a view of it load it first; what they do next fails with a report only. -/
theorem exists_reads_perform {request : Request}
    (h : request = .check file ∨ request = .view file) :
    ∃ next : Expr × Settings → Except Failure Unit,
      Reads false request.perform (fun w => loaded w file >>= next) ∧
        ∀ found failure, next found = .error failure → failure = .reported := by
  rcases h with rfl | rfl
  · refine ⟨_, reads_check file, ?_⟩
    rintro ⟨e, settings⟩ failure h
    rcases except_bind_eq_error.mp h with h | ⟨code, -, h⟩
    · obtain ⟨fault, -, rfl⟩ := mapError_eq_error.mp h
      rfl
    · cases h
  · exact ⟨_, reads_view file, nofun⟩

theorem fits_of_isFile (hfile : w.isFile file = true) {request : Request}
    (h : request = .check file ∨ request = .view file) : request.fits w = true := by
  obtain ⟨bytes, hentry⟩ := Workspace.isFile_iff.mp hfile
  have hexists : w.exists? file = true := Workspace.exists?_iff.mpr ⟨_, hentry⟩
  have hdirectory : ¬ w.isDirectory file = true := by
    rw [Workspace.isDirectory_iff, hentry]
    rintro ⟨entries, h⟩
    cases h
  rcases h with rfl | rfl <;> simp [Request.fits, hexists, hdirectory]

/-- A load of a regular file succeeds with the tree and the settings that are there, or it says what
is wrong, unless the settings file is a directory, one of its sections is not a table, the source is
not UTF-8, a numeral in the source has too many digits, or the stack does not suffice. The same
holds of a whole run that checks the file or prints its outline. Only a source that is longer than
that has a numeral with too many digits. -/
theorem reported_unless_broken_off (w : Workspace) (file : String) (hfile : w.isFile file = true) :
    (∀ (terminal : Terminal) (session : Session), session.workspace = w →
      ∃ found out err, (load file terminal).run session =
          (found, { session with out := session.out ++ out, err := session.err ++ err }) ∧
        (∀ e settings, found = .ok (e, settings) ↔ Loads w file e settings) ∧
        ReportedUnless (BreaksOff w file) terminal (failureOf found) err) ∧
      (∀ (color verbose : Bool) (args : List String) (request : Request),
        Invocation.ofArgs? args = some (.run verbose request) →
        request = .check file ∨ request = .view file →
          ReportedUnless (BreaksOff w file) ⟨color, verbose⟩ (run color args w).failure?
            (run color args w).session.err) ∧
      ∀ count, BreaksOff w file (.oversized count) →
        mostDigits < count ∧
          ∃ text, sourceText w file = .ok text ∧ count ≤ text.toList.length := by
  have hopened : w.isFile (opened file) = true := by
    obtain ⟨bytes, hentry⟩ := Workspace.isFile_iff.mp hfile
    exact Workspace.isFile_iff.mpr ⟨bytes, Workspace.entry_written_ofString hentry⟩
  refine ⟨?_, ?_, ?_⟩
  · rintro terminal session rfl
    obtain ⟨out, err, hrun, hreported⟩ := (reads_load file).exists_reportedUnless terminal session
      (fun _ => loaded_eq_breakdown hopened) (loaded_ne_usage _ file)
    exact ⟨_, out, err, hrun, fun _ _ => loaded_eq_ok, hreported⟩
  · intro color verbose args request hargs hrequest
    obtain ⟨next, hreads, hnext⟩ := exists_reads_perform hrequest
    have hcauses : ∀ cause, (loaded w file >>= next) = .error (.breakdown cause) ↔
        BreaksOff w file cause := by
      intro cause
      rw [← loaded_eq_breakdown hopened, except_bind_eq_error, or_iff_left]
      rintro ⟨found, -, h⟩
      cases hnext found _ h
    have husage : (loaded w file >>= next) ≠ .error .usage := by
      intro h
      rcases except_bind_eq_error.mp h with h | ⟨found, -, h⟩
      · exact loaded_ne_usage w file h
      · cases hnext found _ h
    obtain ⟨out, err, hrun, hreported⟩ :=
      hreads.exists_reportedUnless ⟨color, verbose⟩ { workspace := w } hcauses husage
    rw [run_eq hargs (fits_of_isFile hfile hrequest), outcome_eq hrun, String.empty_append]
    exact hreported
  · intro count hbreaks
    cases hbreaks with
    | oversized found source numeral =>
      obtain ⟨hmany, hroom⟩ := Json.hasRoomFor_of_parse numeral
      exact ⟨hmany, _, source, hroom⟩

/-- A source whose settings file gives a width in the place of a section. -/
def badSection : Workspace where
  tree :=
    .directory [("f.json", .file "\x7b\"type\": \"int\", \"value\": 1\x7d".toUTF8),
      (Settings.fileName, .file "format = 80\n".toUTF8)]
  directory := []

theorem reported_unless_broken_off_badSection :
    badSection.isFile "f.json" = true ∧ ∃ value, BreaksOff badSection "f.json" (.notTable value) ∧
      (run false ["check", "f.json"] badSection).failure? =
        some (.breakdown (.notTable value)) := by
  have hfile : badSection.isFile "f.json" = true := by decide +kernel
  have hargs : Invocation.ofArgs? ["check", "f.json"] = some (.run false (.check "f.json")) := by
    decide +kernel
  have hfound : Settings.find? badSection "f.json" = some [Settings.fileName] := by decide +kernel
  have hutf8 : String.fromUTF8? "format = 80\n".toUTF8 = some "format = 80\n" := by decide +kernel
  have hsection : ((Toml.parse "format = 80\n").toOption.bind (·.lookup "format")).any
      (·.entries?.isNone) = true := by decide +kernel
  rw [Option.any_eq_true] at hsection
  obtain ⟨value, hvalue, htable⟩ := hsection
  obtain ⟨document, hparse, hlookup⟩ : ∃ document, Toml.parse "format = 80\n" = .ok document ∧
      document.lookup "format" = some value := by
    cases hparse : Toml.parse "format = 80\n" with
    | error fault => simp [hparse, Except.toOption] at hvalue
    | ok document => exact ⟨document, rfl, by simpa [hparse, Except.toOption] using hvalue⟩
  have hbreaks : BreaksOff badSection "f.json" (.notTable value) :=
    .notTable hfound rfl rfl hutf8 hparse (.format hlookup (Option.isNone_iff_eq_none.mp htable))
  obtain ⟨-, hruns, -⟩ := reported_unless_broken_off badSection "f.json" hfile
  have hrun := hruns false false ["check", "f.json"] (.check "f.json") hargs (.inl rfl)
  exact ⟨hfile, value, hbreaks, (hrun.brokenOff _).mpr hbreaks⟩

end Command
end CaseScript
