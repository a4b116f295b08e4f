import ProxyConsole.Console.SettingsCommand
import ProxyConsole.Proofs.Settings.RoundTrip

/-!
# Rejected settings

Setting a value in a file that is there either writes a document that gives settings or
leaves all files as they were.  Where no file is, the default settings are written
before the value is looked at, with the directories above them: a value that is rejected
then leaves them behind.  What was found before is lost by that only if the path steps
up out of a directory that was missing.
-/

set_option autoImplicit false

namespace ProxyConsole

open Console

/-! ## The defaults -/

namespace Settings

theorem toText?_default : ∃ text, toText? {} = some text := by
  refine Option.ne_none_iff_exists'.mp fun none => ?_
  obtain ⟨n, member, large⟩ := toText?_eq_none.mp none
  revert n
  decide

/-- Saving makes directories and then writes the document into a place that is no directory,
or it fails and has made nothing but directories. -/
theorem saveInto_cases (files : FileTree) (path : String) (s : Settings) :
    (∃ e, (saveInto files path s).2 = .error e ∧ files.GainsDirectories (saveInto files path s).1) ∨
    ∃ text made place, s.toText? = some text ∧ files.GainsDirectories made ∧
      made.follow [] (pathNames path) = .ok place ∧ made.isDirectory place = false ∧
      saveInto files path s = (made.put place (.file (Utf8.encode text)), .ok ()) := by
  rw [saveInto]
  cases written : s.toText? with
  | none => exact .inl ⟨_, rfl, .refl files⟩
  | some text =>
    have gains := FileTree.GainsDirectories.makeAll files (pathNames path).dropLast.reverse
    rcases makes : files.makeAll (pathNames path).dropLast.reverse with ⟨made, e | _⟩
    · rw [makes] at gains
      exact .inl ⟨_, rfl, gains⟩
    · rw [makes] at gains
      dsimp only
      rw [FileTree.write]
      cases followed : made.follow [] (pathNames path) with
      | error e => exact .inl ⟨_, rfl, gains⟩
      | ok place =>
        dsimp only
        cases directory : made.isDirectory place with
        | true => exact .inl ⟨_, rfl, gains⟩
        | false => exact .inr ⟨text, made, place, rfl, gains, followed, directory, rfl⟩

end Settings

/-! ## One value -/

namespace Console

variable {files : FileTree} {path key value : String} {causes : Causes}

/-- A file could not be written. -/
def CannotWrite (path : String) (causes : Causes) : Prop :=
  causes.head? = some ("Cannot write " ++ quotedPath path)

/-- Why a value is rejected when the document that it is set in can be read. -/
inductive Rejects (key : String) : Causes → Prop where
  | noTable (name : String) : Rejects key ["'" ++ name ++ "' in '" ++ key ++ "' is not a table"]
  | noSettings : Rejects key ["invalid value for " ++ key]

theorem Rejects.written (rejects : Rejects key causes) : ¬CannotWrite path causes := by
  intro failed
  cases rejects with
  | noTable name =>
    have first := congrArg (fun s => s.map fun s => s.toList.head?) failed
    simp [quotedPath] at first
  | noSettings =>
    have first := congrArg (fun s => s.map fun s => s.toList.head?) failed
    simp [quotedPath] at first

theorem setInFile_cases (files : FileTree) (path key value : String) :
    ((setInFile files path key value).files = files ∧
      ∃ causes, (setInFile files path key value).outcome = .error causes) ∨
    ∃ before entries edited s, files.readText path = .ok before ∧
      (Toml.ofText? before).bind Toml.entries? = some entries ∧
      setAt (scalarOfText value) (keyNames key) entries = .ok edited ∧
      Settings.ofText? (Toml.documentText (Toml.rankedEntries edited)) = some s ∧
      files.write path (Utf8.encode (Toml.documentText (Toml.rankedEntries edited))) =
        .ok (setInFile files path key value).files ∧
      (setInFile files path key value).outcome = .ok () := by
  rw [setInFile, readSettings]
  cases files.readText path with
  | error e => exact .inl ⟨rfl, _, rfl⟩
  | ok before =>
    dsimp only
    cases parsed : (Toml.ofText? before).bind Toml.entries? with
    | none => exact .inl ⟨rfl, _, rfl⟩
    | some entries =>
      dsimp only
      cases edits : setAt (scalarOfText value) (keyNames key) entries with
      | error name => exact .inl ⟨rfl, _, rfl⟩
      | ok edited =>
        dsimp only
        cases given : Settings.ofText? (Toml.documentText (Toml.rankedEntries edited)) with
        | none => exact .inl ⟨rfl, _, rfl⟩
        | some s =>
          dsimp only
          cases written : files.write path
              (Utf8.encode (Toml.documentText (Toml.rankedEntries edited))) with
          | error e => exact .inl ⟨rfl, _, rfl⟩
          | ok after =>
            exact .inr ⟨before, entries, edited, s, rfl, parsed, edits, given, written, rfl⟩

/-- A file that is read as a table and can be written is only left alone for the sake of the
value. -/
theorem setInFile_rejects {text : String} {entries : List (String × Toml)}
    (read : files.readText path = .ok text)
    (parsed : (Toml.ofText? text).bind Toml.entries? = some entries)
    (writable : ∀ bytes, ∃ after, files.write path bytes = .ok after)
    (failed : (setInFile files path key value).outcome = .error causes) : Rejects key causes := by
  rw [setInFile, readSettings, read] at failed
  dsimp only at failed
  rw [parsed] at failed
  dsimp only at failed
  cases edits : setAt (scalarOfText value) (keyNames key) entries with
  | error name =>
    rw [edits] at failed
    cases failed
    exact .noTable name
  | ok edited =>
    rw [edits] at failed
    dsimp only at failed
    cases given : Settings.ofText? (Toml.documentText (Toml.rankedEntries edited)) with
    | none =>
      rw [given] at failed
      cases failed
      exact .noSettings
    | some s =>
      obtain ⟨after, written⟩ :=
        writable (Utf8.encode (Toml.documentText (Toml.rankedEntries edited)))
      rw [given] at failed
      dsimp only at failed
      rw [written] at failed
      cases failed

theorem setInFile_noSettings {text : String} {entries edited : List (String × Toml)}
    (read : files.readText path = .ok text)
    (parsed : (Toml.ofText? text).bind Toml.entries? = some entries)
    (edits : setAt (scalarOfText value) (keyNames key) entries = .ok edited)
    (refused : Settings.ofText? (Toml.documentText (Toml.rankedEntries edited)) = none) :
    (setInFile files path key value).outcome = .error ["invalid value for " ++ key] := by
  rw [setInFile, readSettings, read]
  dsimp only
  rw [parsed]
  dsimp only
  rw [edits]
  dsimp only
  rw [refused]
  rfl

/-! ## Files that are not there -/

/-- The default settings were put into a file, some directories being made for it. -/
def Defaulted (files : FileTree) (path : String) (after : FileTree) : Prop :=
  ∃ text made place, ({} : Settings).toText? = some text ∧ files.GainsDirectories made ∧
    made.follow [] (pathNames path) = .ok place ∧ made.isDirectory place = false ∧
    after = made.put place (.file (Utf8.encode text))

namespace Defaulted

variable {after : FileTree}

theorem loads (defaulted : Defaulted files path after) : Settings.load after path = .ok {} := by
  obtain ⟨text, made, place, written, -, followed, free, rfl⟩ := defaulted
  exact Settings.load_write written (FileTree.write_of_follow _ followed free)

theorem hasPath (defaulted : Defaulted files path after) : after.hasPath path = true := by
  obtain ⟨text, made, place, -, -, followed, free, rfl⟩ := defaulted
  exact FileTree.hasPath_write (FileTree.write_of_follow _ followed free)

theorem rejects (defaulted : Defaulted files path after)
    (failed : (setInFile after path key value).outcome = .error causes) : Rejects key causes := by
  obtain ⟨text, made, place, written, -, followed, free, rfl⟩ := defaulted
  obtain ⟨entries, parsed⟩ := Settings.entries_of_ofText? (Settings.ofText?_toText? written)
  exact setInFile_rejects (FileTree.readText_write (FileTree.write_of_follow _ followed free))
    parsed (fun bytes => FileTree.write_put _ bytes followed free) failed

theorem find (defaulted : Defaulted files path after) (plain : ".." ∉ pathNames path)
    (missing : files.hasPath path = false) {names : List String} {e : Entry}
    (found : files.find names = .ok e) : after.find names = .ok e := by
  obtain ⟨text, made, place, -, gains, followed, free, rfl⟩ := defaulted
  exact FileTree.find_put gains plain followed free missing found

end Defaulted

theorem writeDefaults_cases (files : FileTree) (path : String) :
    (∃ causes, (writeDefaults files path).2 = .error causes ∧ CannotWrite path causes ∧
      files.GainsDirectories (writeDefaults files path).1) ∨
    (writeDefaults files path).2 = .ok () ∧ Defaulted files path (writeDefaults files path).1 := by
  rw [writeDefaults]
  obtain ⟨e, failed, gains⟩ | ⟨text, made, place, written, gains, followed, free, saved⟩ :=
    Settings.saveInto_cases files path {}
  · rcases saved : Settings.saveInto files path {} with ⟨made, result⟩
    rw [saved] at failed gains
    cases failed
    exact .inl ⟨_, rfl, rfl, gains⟩
  · rw [saved]
    exact .inr ⟨rfl, text, made, place, written, gains, followed, free, rfl⟩

theorem setSetting_found (there : files.hasPath path = true) :
    setSetting files path key value = setInFile files path key value := by
  rw [setSetting, if_pos there]

theorem setSetting_missing (missing : files.hasPath path = false) :
    (∃ causes, (setSetting files path key value).outcome = .error causes ∧ CannotWrite path causes ∧
      files.GainsDirectories (setSetting files path key value).files) ∨
    ∃ after, Defaulted files path after ∧
      (setSetting files path key value).outcome = (setInFile after path key value).outcome ∧
      (setSetting files path key value).files = (setInFile after path key value).files := by
  rw [setSetting, if_neg (by rw [missing]; exact Bool.false_ne_true)]
  obtain ⟨causes, failed, unwritten, gains⟩ | ⟨done, defaulted⟩ := writeDefaults_cases files path
  · rcases written : writeDefaults files path with ⟨made, result⟩
    rw [written] at failed gains
    cases failed
    exact .inl ⟨causes, rfl, unwritten, gains⟩
  · rcases written : writeDefaults files path with ⟨after, result⟩
    rw [written] at done defaulted
    cases done
    exact .inr ⟨after, defaulted, rfl, rfl⟩

/-! ## The command -/

/-- What becomes of the files when a value is set in them. -/
structure SetsOrRejects (files : FileTree) (path key value : String) (o : FileOutcome) : Prop where
  set : o.outcome = .ok () → ∃ s, Settings.load o.files path = .ok s
  /-- Where a file was, a value that is rejected changes nothing, whatever the reason. -/
  kept : ∀ causes, files.hasPath path = true → o.outcome = .error causes → o.files = files
  unwritten : ∀ causes, files.hasPath path = false → o.outcome = .error causes →
    CannotWrite path causes → files.GainsDirectories o.files
  /-- Where no file was but one can be written, a rejection leaves the default settings behind. -/
  defaulted : ∀ causes, files.hasPath path = false → o.outcome = .error causes →
    ¬CannotWrite path causes →
    Rejects key causes ∧ Defaulted files path o.files ∧ Settings.load o.files path = .ok {}
  standing : ∀ causes, ".." ∉ pathNames path → o.outcome = .error causes →
    ∀ names e, files.find names = .ok e → o.files.find names = .ok e

theorem setInFile_done (done : (setInFile files path key value).outcome = .ok ()) :
    ∃ before entries edited s, files.readText path = .ok before ∧
      (Toml.ofText? before).bind Toml.entries? = some entries ∧
      setAt (scalarOfText value) (keyNames key) entries = .ok edited ∧
      Settings.ofText? (Toml.documentText (Toml.rankedEntries edited)) = some s ∧
      Settings.load (setInFile files path key value).files path = .ok s := by
  obtain ⟨-, causes, failed⟩ |
      ⟨before, entries, edited, s, read, parsed, edits, given, written, -⟩ :=
    setInFile_cases files path key value
  · rw [failed] at done
    cases done
  · refine ⟨before, entries, edited, s, read, parsed, edits, given, ?_⟩
    simp [Settings.load, FileTree.hasPath_write written, FileTree.readText_write written, given]

theorem setInFile_ok (done : (setInFile files path key value).outcome = .ok ()) :
    ∃ s, Settings.load (setInFile files path key value).files path = .ok s := by
  obtain ⟨_, _, _, s, _, _, _, _, loaded⟩ := setInFile_done done
  exact ⟨s, loaded⟩

theorem setInFile_error (failed : (setInFile files path key value).outcome = .error causes) :
    (setInFile files path key value).files = files := by
  obtain ⟨same, -⟩ | ⟨-, -, -, -, -, -, -, -, -, done⟩ := setInFile_cases files path key value
  · exact same
  · rw [done] at failed
    cases failed

/-- After a rejection where no file was, the tree has gained directories or the defaults. -/
theorem setSetting_left (missing : files.hasPath path = false)
    (failed : (setSetting files path key value).outcome = .error causes) :
    CannotWrite path causes ∧ files.GainsDirectories (setSetting files path key value).files ∨
    Rejects key causes ∧ Defaulted files path (setSetting files path key value).files := by
  obtain ⟨causes', failed', unwritten, gains⟩ | ⟨after, defaulted, outcome, left⟩ :=
    setSetting_missing missing
  · rw [failed'] at failed
    cases failed
    exact .inl ⟨unwritten, gains⟩
  · rw [outcome] at failed
    rw [left, setInFile_error failed]
    exact .inr ⟨defaulted.rejects failed, defaulted⟩

theorem setting_kept_or_defaulted (files : FileTree) (path key value : String) :
    SetsOrRejects files path key value ((SettingsCommand.set key value).run files path) where
  set done := by
    rw [SettingsCommand.run] at done ⊢
    cases there : files.hasPath path with
    | true =>
      rw [setSetting_found there] at done ⊢
      exact setInFile_ok done
    | false =>
      obtain ⟨causes, failed, -⟩ | ⟨after, -, outcome, left⟩ := setSetting_missing there
      · rw [failed] at done
        cases done
      · rw [outcome] at done
        rw [left]
        exact setInFile_ok done
  kept causes there failed := by
    rw [SettingsCommand.run] at failed ⊢
    rw [setSetting_found there] at failed ⊢
    exact setInFile_error failed
  unwritten causes missing failed cannot := by
    obtain ⟨-, gains⟩ | ⟨rejects, -⟩ := setSetting_left missing failed
    · exact gains
    · exact absurd cannot rejects.written
  defaulted causes missing failed can := by
    obtain ⟨cannot, -⟩ | ⟨rejects, defaulted⟩ := setSetting_left missing failed
    · exact absurd cannot can
    · exact ⟨rejects, defaulted, defaulted.loads⟩
  standing causes plain failed names e found := by
    cases there : files.hasPath path with
    | true =>
      rw [SettingsCommand.run] at failed ⊢
      rw [setSetting_found there] at failed ⊢
      rwa [setInFile_error failed]
    | false =>
      obtain ⟨-, gains⟩ | ⟨-, defaulted⟩ := setSetting_left there failed
      · obtain ⟨place, followed, stands⟩ := FileTree.find_eq_ok.mp found
        exact FileTree.find_eq_ok.mpr ⟨place, gains.follow followed, gains.at?_eq stands⟩
      · exact defaulted.find plain there found

/-! ## A file that a rejection leaves behind -/

/-- Nothing is changed by a value that is rejected. -/
def RejectionsKeepFiles : Prop :=
  ∀ (files : FileTree) (path key value : String) (causes : Causes),
    ((SettingsCommand.set key value).run files path).outcome = .error causes →
    ¬CannotWrite path causes →
    ∀ names, ((SettingsCommand.set key value).run files path).files.find names = files.find names

def defaultEntries : List (String × Toml) :=
  [ ("endpoint", .string "127.0.0.1:9090"), ("max_frame_length", .integer 16777216),
    ("timeouts", .table
      [("quick_ms", .integer 8000), ("normal_ms", .integer 15000), ("long_ms", .integer 30000)]),
    ("retry", .table [("max_attempts", .integer 3), ("backoff_ms", .integer 1000)]),
    ("cache", .table [("config_ttl_ms", .integer 1000), ("proxies_ttl_ms", .integer 500)]),
    ("readiness", .table
      [("interval_ms", .integer 500), ("probe_timeout_ms", .integer 2000),
        ("max_wait_ms", .integer 30000)]) ]

def defaultScalars : List (String × Toml) :=
  [("endpoint", .string "127.0.0.1:9090"), ("max_frame_length", .integer 16777216)]

/-- The sections in the order of their keys, with a word for a number among them. -/
def wordySections : List (String × List (String × Toml)) :=
  [ ("cache", [("config_ttl_ms", .integer 1000), ("proxies_ttl_ms", .integer 500)]),
    ("readiness",
      [("interval_ms", .integer 500), ("max_wait_ms", .integer 30000),
        ("probe_timeout_ms", .integer 2000)]),
    ("retry", [("backoff_ms", .integer 1000), ("max_attempts", .string "lots")]),
    ("timeouts",
      [("long_ms", .integer 30000), ("normal_ms", .integer 15000), ("quick_ms", .integer 8000)]) ]

theorem wordy_paged : Toml.Paged (.table (defaultScalars ++ wordySections.map Toml.sectionEntry)) :=
  .table (by decide) (by decide) (by decide) (by decide)

theorem wordy_refused :
    Settings.ofToml?
      (Toml.sorted (.table (defaultScalars ++ wordySections.map Toml.sectionEntry))) = none := by
  decide +kernel

/-- The entries of the document that is refused. -/
def wordyEntries : List (String × Toml) :=
  [ ("cache", .table [("config_ttl_ms", .integer 1000), ("proxies_ttl_ms", .integer 500)]),
    ("endpoint", .string "127.0.0.1:9090"), ("max_frame_length", .integer 16777216),
    ("readiness", .table
      [("interval_ms", .integer 500), ("max_wait_ms", .integer 30000),
        ("probe_timeout_ms", .integer 2000)]),
    ("retry", .table [("backoff_ms", .integer 1000), ("max_attempts", .string "lots")]),
    ("timeouts", .table
      [("long_ms", .integer 30000), ("normal_ms", .integer 15000), ("quick_ms", .integer 8000)]) ]

theorem setAt_wordy :
    setAt (scalarOfText "lots") (keyNames "retry.max_attempts")
      (Toml.sortedEntries defaultEntries) = .ok wordyEntries := by
  rfl

theorem documentText_wordy :
    Toml.documentText (Toml.rankedEntries wordyEntries) =
      Toml.documentText (defaultScalars ++ wordySections.map Toml.sectionEntry) :=
  Toml.documentText_congr rfl rfl

theorem toToml?_default : ({} : Settings).toToml? = some (.table defaultEntries) := by
  rfl

theorem ofText?_wordy :
    Settings.ofText? (Toml.documentText (Toml.rankedEntries wordyEntries)) = none := by
  rw [documentText_wordy, Settings.ofText?, wordy_paged.ofText?_documentText, Option.bind_some,
    wordy_refused]

theorem entries_default {text : String} (written : ({} : Settings).toText? = some text) :
    (Toml.ofText? text).bind Toml.entries? = some (Toml.sortedEntries defaultEntries) := by
  rw [Settings.toText?, toToml?_default, Option.bind_some, Toml.entries?, Option.map_some,
    Option.some.injEq] at written
  rw [← written, (Settings.toToml?_paged toToml?_default).ofText?_documentText, Option.bind_some,
    Toml.sorted, Toml.entries?]

/-- The default settings stay in a file that was not there. -/
theorem rejection_leaves_defaults : ¬RejectionsKeepFiles := by
  intro keep
  obtain ⟨text, written⟩ := Settings.toText?_default
  have missing : FileTree.hasPath {} "config.toml" = false := by decide
  have names : pathNames "config.toml" = ["config.toml"] := by decide
  have followed : FileTree.follow {} [] (pathNames "config.toml") = .ok ["config.toml"] := by
    rw [names]
    rfl
  have free : FileTree.isDirectory {} ["config.toml"] = false := by decide
  have stored := FileTree.write_of_follow (Utf8.encode text) followed free
  have defaults : writeDefaults {} "config.toml" =
      (FileTree.put {} ["config.toml"] (.file (Utf8.encode text)), .ok ()) := by
    simp [writeDefaults, Settings.saveInto, written, names, FileTree.makeAll, stored]
  have failed : ((SettingsCommand.set "retry.max_attempts" "lots").run {} "config.toml").outcome =
      .error ["invalid value for " ++ "retry.max_attempts"] := by
    rw [SettingsCommand.run, setSetting, if_neg (by rw [missing]; exact Bool.false_ne_true),
      defaults]
    dsimp only [FileOutcome.after]
    exact setInFile_noSettings (FileTree.readText_write stored) (entries_default written)
      setAt_wordy ofText?_wordy
  have refused : ¬CannotWrite "config.toml" ["invalid value for " ++ "retry.max_attempts"] :=
    Rejects.noSettings.written
  obtain ⟨-, defaulted⟩ := (setSetting_left missing failed).resolve_left fun cannot =>
    refused cannot.1
  have same := keep {} "config.toml" "retry.max_attempts" "lots" _ failed refused
    (pathNames "config.toml")
  have there := defaulted.hasPath
  rw [FileTree.hasPath] at there missing
  rw [SettingsCommand.run] at same
  rw [same, missing] at there
  cases there

end Console

end ProxyConsole
