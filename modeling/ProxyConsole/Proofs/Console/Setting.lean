import ProxyConsole.Proofs.Console.Keys
import ProxyConsole.Proofs.Console.Rejection
import ProxyConsole.Proofs.Toml.Reread

/-!
# Setting one value

A value that is set in a file of settings changes the setting that its key names and no
other, whatever else stands in the file: the file is written anew from its entries and
read again, and what is shown under the key afterwards is the value.  Under a key that
names no setting nothing changes.
-/

set_option autoImplicit false

namespace ProxyConsole

open Toml

namespace Console

variable {files : FileTree} {path key value : String}

/-! ## Keys -/

theorem keyNames_ne_nil (key : String) : keyNames key ≠ [] :=
  mt List.map_eq_nil_iff.mp (Text.splitWhere_ne_nil _ _)

theorem keyNames_inj {key key' : String} (same : keyNames key = keyNames key') : key = key' := by
  have pieces : Text.splitWhere (· = '.') key.toList = Text.splitWhere (· = '.') key'.toList :=
    List.map_injective_iff.mpr (fun _ _ => String.ofList_inj.mp) same
  have texts := Text.intercalate_splitWhere '.' key.toList
  rw [pieces, Text.intercalate_splitWhere] at texts
  exact (String.toList_inj.mp texts).symm

theorem keyNames_endpoint : keyNames "endpoint" = ["endpoint"] :=
  rfl

theorem not_named (endpoint : key ≠ "endpoint") (numbers : ∀ n ∈ numberSettings, n.key ≠ key) :
    keyNames key ∉ Settings.names := by
  intro named
  rcases List.mem_cons.mp named with same | named
  · exact endpoint (keyNames_inj (same.trans keyNames_endpoint.symm))
  · obtain ⟨n, member, same⟩ := List.mem_map.mp named
    exact numbers n member (keyNames_inj same)

/-! ## Values -/

theorem scalarOfText_cases (s : String) :
    (∃ b, scalarOfText s = .bool b) ∨
    (∃ i, Decimal.intOfText? s = some i ∧ fitsInteger i = true ∧ scalarOfText s = .integer i) ∨
    scalarOfText s = .string s := by
  rw [scalarOfText]
  split
  · exact .inl ⟨true, rfl⟩
  split
  · exact .inl ⟨false, rfl⟩
  split
  · rename_i i number
    split
    · rename_i fits
      exact .inr (.inl ⟨i, number, fits, rfl⟩)
    · exact .inr (.inr rfl)
  · exact .inr (.inr rfl)

theorem scalar_scalarOfText (s : String) : Scalar (scalarOfText s) := by
  obtain ⟨b, same⟩ | ⟨i, _, fits, same⟩ | same := scalarOfText_cases s
  all_goals rw [same]
  · exact .bool b
  · exact .integer i fits
  · exact .string s

theorem integer_of_scalarOfText {s : String} {i : Int} (same : scalarOfText s = .integer i) :
    Decimal.intOfText? s = some i := by
  obtain ⟨b, other⟩ | ⟨i', number, _, other⟩ | other := scalarOfText_cases s
  all_goals
    rw [other] at same
    cases same
  exact number

theorem string_of_scalarOfText {s text : String} (same : scalarOfText s = .string text) :
    text = s := by
  obtain ⟨b, other⟩ | ⟨i', _, _, other⟩ | other := scalarOfText_cases s
  all_goals
    rw [other] at same
    cases same
  rfl

/-! ## Files -/

theorem load_ok {c : Settings} : Settings.load files path = .ok c ↔
    files.hasPath path = true ∧ ∃ text, files.readText path = .ok text ∧
      Settings.ofText? text = some c := by
  rw [Settings.load]
  cases files.hasPath path with
  | false => simp
  | true =>
    cases files.readText path with
    | error e => simp
    | ok text =>
      cases given : Settings.ofText? text <;> simp [given]

theorem effectiveSettings_of_load {c : Settings} (loaded : Settings.load files path = .ok c) :
    effectiveSettings files path = .ok c := by
  obtain ⟨there, text, read, given⟩ := load_ok.mp loaded
  simp [effectiveSettings, there, readSettings, read, given, bind, Except.bind]

/-! ## Entries as they are read -/

theorem cutSection_scalar {v : Toml} (scalar : Scalar v) (key : String) :
    Settings.cutSection key v = v := by
  cases scalar <;> rfl

/-- Cutting sections that are arrays does not touch what a value can be set in. -/
theorem setAt_cutEntries {v : Toml} (scalar : Scalar v) {names : List String}
    {entries entries' : List (String × Toml)} (edits : setAt v names entries = .ok entries') :
    setAt v names (Settings.cutEntries entries) = .ok (Settings.cutEntries entries') := by
  have insert : ∀ name w entries, insertSorted name (Settings.cutSection name w)
      (Settings.cutEntries entries) = Settings.cutEntries (insertSorted name w entries) :=
    fun name w entries => insertSorted_map Settings.cutSection name w entries
  have find : ∀ name, (Settings.cutEntries entries).lookup name =
      (entries.lookup name).map (Settings.cutSection name) :=
    fun name => lookup_map Settings.cutSection name entries
  cases names with
  | nil =>
    cases edits
    rfl
  | cons name names =>
    cases names with
    | nil =>
      cases edits
      have inserted := insert name v entries
      rw [cutSection_scalar scalar] at inserted
      rw [setAt, inserted]
    | cons next names =>
      rw [setAt] at edits ⊢
      · rw [find]
        cases found : entries.lookup name with
        | none =>
          rw [found] at edits
          obtain ⟨inner, inside, rfl⟩ := Except.map_eq_ok edits
          dsimp only [Option.map_none]
          rw [inside, ← insert]
          rfl
        | some w =>
          rw [found] at edits
          cases w with
          | table before =>
            obtain ⟨inner, inside, rfl⟩ := Except.map_eq_ok edits
            dsimp only [Option.map_some, Settings.cutSection]
            rw [inside, ← insert]
            rfl
          | _ => cases edits
      all_goals simp

/-! ## The command -/

/-- The settings before and after a value is set in a file, and what is shown of it. -/
structure SetsAlone (key value : String) (before after : Settings) (shown : String → Prop) :
    Prop where
  /-- Under the key of a number the integer that the value denotes is set. -/
  number : ∀ n ∈ numberSettings, n.key = key → ∃ k : Nat, Decimal.intOfText? value =
    some (k : Int) ∧ n.get after = k ∧ after = n.set before k ∧ shown (Decimal.intText k)
  endpoint : key = "endpoint" → after = { before with endpoint := value } ∧ shown value
  other : key ≠ "endpoint" → (∀ n ∈ numberSettings, n.key ≠ key) → after = before

theorem setInFile_entries {c : Settings} (loaded : Settings.load files path = .ok c)
    (done : (setInFile files path key value).outcome = .ok ()) :
    ∃ entries edited c', Writable Rising (.table entries) ∧
      setAt (scalarOfText value) (keyNames key) entries = .ok edited ∧
      Settings.ofToml? (.table entries) = some c ∧ Settings.ofToml? (.table edited) = some c' ∧
      Settings.load (setInFile files path key value).files path = .ok c' := by
  obtain ⟨-, text, read, given⟩ := load_ok.mp loaded
  obtain ⟨before, entries, edited, c', read', parsed, edits, given', loaded'⟩ := setInFile_done done
  obtain rfl : before = text := Except.ok.inj (read'.symm.trans read)
  obtain ⟨t, scanned, taken⟩ := Option.bind_eq_some_iff.mp parsed
  obtain rfl : t = .table entries := by
    cases t <;> cases taken
    rfl
  have writable := ofText?_writable scanned
  have writable' := writable.setAt (scalar_scalarOfText value).writable edits
  obtain ⟨t', scanned', taken'⟩ := Option.bind_eq_some_iff.mp given'
  rw [Settings.ofText?, scanned, Option.bind_some] at given
  rw [← Settings.ofToml?_outline, writable'.outline_of_reread scanned',
    Settings.ofToml?_outline] at taken'
  exact ⟨entries, edited, c', writable, edits, given, taken', loaded'⟩

theorem getSetting_of_load {c : Settings} {t v : Toml} (loaded : Settings.load files path = .ok c)
    (taken : c.toToml? = some t) (found : valueAt? t.sorted (keyNames key) = some v) :
    getSetting files path key = concludeWith (valueScreen v) files := by
  simp [getSetting, effectiveSettings_of_load loaded, taken, found]

theorem valueScreen_integer (i : Int) : valueScreen (.integer i) = .line (Decimal.intText i) := by
  simp [valueScreen, valueText]

theorem string_of_decode {v : Toml} {text : String}
    (decoded : Codec.string.decode v.node = .ok text) : v = .string text := by
  cases v with
  | string s =>
    cases decoded
    rfl
  | _ => cases decoded

/-- Where a file gives settings, a value that is set in it goes to the setting that the key
names and nowhere else, and is shown under the key. -/
theorem setting_alone {c : Settings} (loaded : Settings.load files path = .ok c)
    (done : ((SettingsCommand.set key value).run files path).outcome = .ok ()) :
    ∃ c', Settings.load ((SettingsCommand.set key value).run files path).files path = .ok c' ∧
      SetsAlone key value c c' fun text =>
        (SettingsCommand.get key).run ((SettingsCommand.set key value).run files path).files path =
          concludeWith (.line text) ((SettingsCommand.set key value).run files path).files := by
  obtain ⟨there, -⟩ := load_ok.mp loaded
  simp only [SettingsCommand.run, setSetting_found there] at done ⊢
  obtain ⟨entries, edited, c', writable, edits, given, given', loaded'⟩ :=
    setInFile_entries loaded done
  have scalar := scalar_scalarOfText value
  have writable' := writable.setAt scalar.writable edits
  obtain ⟨t, taken⟩ := Settings.toToml?_of_read writable' given'
  have cutEdits := setAt_cutEntries scalar edits
  have cutWritable := Settings.writable_cutEntries writable
  have before := Settings.ofToml?_table.mp given
  have after := Settings.ofToml?_table.mp given'
  refine ⟨c', loaded', ?_, ?_, ?_⟩
  · rintro n member rfl
    have addressed := Settings.numbers_addressed n member
    obtain ⟨k, integer, got, set⟩ := addressed.edited cutWritable cutEdits before after
    have found := addressed.shown taken
    rw [got] at found
    refine ⟨k, integer_of_scalarOfText integer, got, set, ?_⟩
    rw [getSetting_of_load loaded' taken found, valueScreen_integer]
  · rintro rfl
    obtain ⟨text, decoded, set⟩ := Settings.addresses_endpoint.edited cutWritable cutEdits before
      after
    obtain ⟨u, shown, found⟩ := Settings.addresses_endpoint.shown taken
    obtain rfl := string_of_scalarOfText (string_of_decode decoded)
    cases shown
    rw [set, ← keyNames_endpoint] at found
    exact ⟨set, getSetting_of_load loaded' taken found⟩
  · intro endpoint numbers
    have overlooks := Settings.overlooks (keyNames_ne_nil key) (not_named endpoint numbers)
    exact overlooks scalar cutWritable cutEdits before after

/-- A file in which nothing but foreign entries stands. -/
def themedFiles : FileTree :=
  FileTree.put {} ["config.toml"]
    (.file (Utf8.encode "theme = 'dark'\n[retry.ui]\nsince = 1979-05-27"))

theorem setting_alone_themed :
    Settings.load themedFiles "config.toml" = .ok {} ∧
    ((SettingsCommand.set "retry.max_attempts" "+5").run themedFiles "config.toml").outcome =
    .ok () ∧
    Settings.load ((SettingsCommand.set "retry.max_attempts" "+5").run themedFiles
      "config.toml").files "config.toml" = .ok { retry := { maxAttempts := 5 } } := by
  have loaded : Settings.load themedFiles "config.toml" = .ok {} := by decide +kernel
  have done :
      ((SettingsCommand.set "retry.max_attempts" "+5").run themedFiles "config.toml").outcome =
      .ok () := by decide +kernel
  obtain ⟨c', loaded', sets⟩ := setting_alone loaded done
  obtain ⟨k, denotes, -, rfl, -⟩ := sets.number
    (.narrow "retry.max_attempts" (·.retry.maxAttempts)
      (fun s n => { s with retry := { s.retry with maxAttempts := n } })) (by simp [numberSettings])
      rfl
  have five : Decimal.intOfText? "+5" = some (5 : Nat) := by decide
  obtain rfl : k = 5 := Int.ofNat.inj (Option.some.inj (denotes.symm.trans five))
  exact ⟨loaded, done, loaded'⟩

end Console

end ProxyConsole
