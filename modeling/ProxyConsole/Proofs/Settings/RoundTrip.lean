import ProxyConsole.Proofs.Files
import ProxyConsole.Proofs.Toml.Document
import ProxyConsole.Proofs.Toml.Tree
import ProxyConsole.Settings.File

/-!
# Settings from file to file

Settings that are saved under a path are loaded from it unchanged, whatever the endpoint
is.  Numbers that have no place among the integers of a document are refused before
anything is made or written.
-/

set_option autoImplicit false

namespace ProxyConsole

open Json

/-! ## The codec -/

theorem Timeouts.faithful : Timeouts.record.codec.Faithful :=
  Record.faithful (by decide) fun _ =>
    .cons (Field.restores_of Codec.faithful_uint64 ..) <|
    .cons (Field.restores_of Codec.faithful_uint64 ..) <|
    .cons (Field.restores_of Codec.faithful_uint64 ..) .nil

theorem Retry.faithful : Retry.record.codec.Faithful :=
  Record.faithful (by decide) fun _ =>
    .cons (Field.restores_of Codec.faithful_uint32 ..) <|
    .cons (Field.restores_of Codec.faithful_uint64 ..) .nil

theorem Lifetimes.faithful : Lifetimes.record.codec.Faithful :=
  Record.faithful (by decide) fun _ =>
    .cons (Field.restores_of Codec.faithful_uint64 ..) <|
    .cons (Field.restores_of Codec.faithful_uint64 ..) .nil

theorem Polling.faithful : Polling.record.codec.Faithful :=
  Record.faithful (by decide) fun _ =>
    .cons (Field.restores_of Codec.faithful_uint64 ..) <|
    .cons (Field.restores_of Codec.faithful_uint64 ..) <|
    .cons (Field.restores_of Codec.faithful_uint64 ..) .nil

theorem Settings.faithful : Settings.codec.Faithful :=
  Record.faithful (by decide) fun _ =>
    .cons (Field.restores_of Codec.faithful_string ..) <|
    .cons (Field.restores_of Codec.faithful_uint64 ..) <|
    .cons (Field.restores_of Timeouts.faithful ..) <|
    .cons (Field.restores_of Retry.faithful ..) <|
    .cons (Field.restores_of Lifetimes.faithful ..) <|
    .cons (Field.restores_of Polling.faithful ..) .nil

theorem Timeouts.orderless : Timeouts.record.codec.Orderless :=
  Record.orderless (Record.independent_of_pairwise (by simp [Timeouts.record, Field.commutes_of]))
    (by simp [Timeouts.record, Field.orderless_of, Codec.orderless_uint64])

theorem Retry.orderless : Retry.record.codec.Orderless :=
  Record.orderless (Record.independent_of_pairwise (by simp [Retry.record, Field.commutes_of]))
    (by simp [Retry.record, Field.orderless_of, Codec.orderless_uint64, Codec.orderless_uint32])

theorem Lifetimes.orderless : Lifetimes.record.codec.Orderless :=
  Record.orderless (Record.independent_of_pairwise (by simp [Lifetimes.record, Field.commutes_of]))
    (by simp [Lifetimes.record, Field.orderless_of, Codec.orderless_uint64])

theorem Polling.orderless : Polling.record.codec.Orderless :=
  Record.orderless (Record.independent_of_pairwise (by simp [Polling.record, Field.commutes_of]))
    (by simp [Polling.record, Field.orderless_of, Codec.orderless_uint64])

theorem Settings.orderless : Settings.codec.Orderless :=
  Record.orderless (Record.independent_of_pairwise (by simp [Settings.record, Field.commutes_of]))
    (by simp [Settings.record, Field.orderless_of, Codec.orderless_uint64, Codec.orderless_string,
      Timeouts.orderless, Retry.orderless, Lifetimes.orderless, Polling.orderless])

/-! ## The document -/

namespace Settings

/-- All numbers of the settings. -/
def numbers (s : Settings) : List Nat :=
  [s.maxFrameLength.toNat, s.timeouts.quick.toNat, s.timeouts.normal.toNat, s.timeouts.long.toNat,
    s.retry.maxAttempts.toNat, s.retry.backoff.toNat, s.cache.config.toNat, s.cache.proxies.toNat,
    s.readiness.interval.toNat, s.readiness.probeTimeout.toNat, s.readiness.maxWait.toNat]

end Settings

theorem Toml.ofJson?_nat_eq_none (n : Nat) :
    ofJson? (.nat n) = none ↔ 9223372036854775807 < n := by
  rw [Json.nat, ofJson?, fitsInteger]
  split
  · rename_i fits
    simp only [Bool.and_eq_true, decide_eq_true_eq] at fits
    simp only [reduceCtorEq, false_iff]
    omega
  · rename_i large
    simp only [Bool.and_eq_true, decide_eq_true_eq] at large
    simp only [true_iff]
    omega

theorem Toml.ofJson?_string (s : String) : ofJson? (.string s) = some (.string s) := by
  rw [ofJson?]

theorem Toml.ofJsonMembers?_eq_none (members : List (String × Json)) :
    ofJsonMembers? members = none ↔ ∃ m ∈ members, ofJson? m.2 = none := by
  induction members with
  | nil => simp [ofJsonMembers?]
  | cons m members ih =>
    simp only [ofJsonMembers?, List.mem_cons, exists_eq_or_imp, ← ih]
    cases ofJson? m.2 <;> cases ofJsonMembers? members <;> simp

theorem Toml.ofJson?_object_eq_none (members : List (String × Json)) :
    ofJson? (.object members) = none ↔ ∃ m ∈ members, ofJson? m.2 = none := by
  rw [ofJson?, Option.map_eq_none_iff, ofJsonMembers?_eq_none]

namespace Settings

/-- Settings cannot be written exactly if one of their numbers is too large. -/
theorem toToml?_eq_none (s : Settings) :
    s.toToml? = none ↔ ∃ n ∈ s.numbers, 9223372036854775807 < n := by
  simp only [toToml?, codec, Record.codec, Record.encode, record, Timeouts.record, Retry.record,
    Lifetimes.record, Polling.record, Field.of, Codec.string, Codec.uint64, Codec.uint32,
    List.filterMap_cons, List.filterMap_nil, Option.map_some, Toml.ofJson?_object_eq_none,
    List.mem_cons, exists_eq_or_imp, exists_eq_left, List.not_mem_nil, or_false,
    Toml.ofJson?_nat_eq_none, Toml.ofJson?_string, reduceCtorEq, false_or, numbers, or_assoc]

end Settings

/-- All that can be written is written as scalars. -/
def Codec.WritesScalars {α : Type} (c : Codec α) : Prop :=
  ∀ a t, Toml.ofJson? (c.encode a) = some t → Toml.Scalar t

def Field.WritesScalars {σ : Type} (f : Field σ) : Prop :=
  ∀ s j t, f.render s = some j → Toml.ofJson? j = some t → Toml.Scalar t

theorem Toml.scalar_of_nat {n : Nat} {t : Toml} (taken : ofJson? (.nat n) = some t) : Scalar t := by
  rw [Json.nat, ofJson?] at taken
  split at taken
  · cases taken
    exact .integer _ ‹_›
  · cases taken

theorem Codec.uint64_writesScalars : Codec.uint64.WritesScalars :=
  fun _ _ taken => Toml.scalar_of_nat taken

theorem Codec.uint32_writesScalars : Codec.uint32.WritesScalars :=
  fun _ _ taken => Toml.scalar_of_nat taken

theorem Field.writesScalars_of {σ α : Type} {c : Codec α} {name : String} {get : σ → α}
    {set : σ → α → σ} {required : Bool} (writes : c.WritesScalars) :
    (Field.of name c get set required).WritesScalars := by
  intro s j t rendered taken
  cases rendered
  exact writes (get s) t taken

theorem Toml.ofJsonMembers?_spec {members : List (String × Json)} {entries : List (String × Toml)}
    (taken : ofJsonMembers? members = some entries) :
    entries.map Prod.fst = members.map Prod.fst ∧
      ∀ e ∈ entries, ∃ m ∈ members, ofJson? m.2 = some e.2 := by
  induction members generalizing entries with
  | nil =>
    cases taken
    exact ⟨rfl, nofun⟩
  | cons m members ih =>
    simp only [ofJsonMembers?, Option.bind_eq_bind, Option.pure_def,
      Option.bind_eq_some_iff] at taken
    obtain ⟨value, taken, more, others, same⟩ := taken
    cases same
    obtain ⟨keys, each⟩ := ih others
    refine ⟨by rw [List.map_cons, List.map_cons, keys], List.forall_mem_cons.mpr ⟨?_, ?_⟩⟩
    · exact ⟨m, List.mem_cons_self, taken⟩
    · intro e member
      obtain ⟨m', inside, value'⟩ := each e member
      exact ⟨m', List.mem_cons_of_mem m inside, value'⟩

theorem Record.writes_section {σ : Type} {r : Record σ} (distinct : (r.fields.map Field.name).Nodup)
    (plain : ∀ f ∈ r.fields, f.WritesScalars) {s : σ} {t : Toml}
    (taken : Toml.ofJson? (r.codec.encode s) = some t) :
    ∃ entries, t = .table entries ∧ (∀ e ∈ entries, Toml.Scalar e.2) ∧
      (entries.map Prod.fst).Nodup := by
  have taken' : Toml.ofJson? (.object (membersOf s r.fields)) = some t := taken
  rw [Toml.ofJson?] at taken'
  obtain ⟨entries, members, rfl⟩ := Option.map_eq_some_iff.mp taken'
  obtain ⟨keys, each⟩ := Toml.ofJsonMembers?_spec members
  refine ⟨entries, rfl, ?_, keys ▸ (membersOf_names s r.fields).nodup distinct⟩
  intro e member
  obtain ⟨m, inside, value⟩ := each e member
  obtain ⟨f, field, rendered⟩ := List.mem_filterMap.mp inside
  obtain ⟨j, shown, rfl⟩ := Option.map_eq_some_iff.mp rendered
  exact plain f field s j e.2 shown value

namespace Settings

theorem toToml?_paged {s : Settings} {t : Toml} (taken : s.toToml? = some t) : Toml.Paged t := by
  have whole : Toml.ofJson? (.object [("endpoint", .string s.endpoint),
      ("max_frame_length", .nat s.maxFrameLength.toNat),
      ("timeouts", Timeouts.record.codec.encode s.timeouts),
      ("retry", Retry.record.codec.encode s.retry),
      ("cache", Lifetimes.record.codec.encode s.cache),
      ("readiness", Polling.record.codec.encode s.readiness)]) = some t := taken
  rw [Toml.ofJson?] at whole
  obtain ⟨entries, members, rfl⟩ := Option.map_eq_some_iff.mp whole
  simp only [Toml.ofJsonMembers?, Option.bind_eq_bind, Option.pure_def, Option.bind_eq_some_iff,
    Option.some.injEq] at members
  obtain ⟨endpoint, text, _, ⟨limit, number, _, ⟨_, first, _, ⟨_, second, _,
    ⟨_, third, _, ⟨_, fourth, _, rfl, rfl⟩, rfl⟩, rfl⟩, rfl⟩, rfl⟩, rfl⟩ := members
  obtain ⟨timeouts, rfl, plain₁, distinct₁⟩ := Record.writes_section (by decide)
    (by simp [Timeouts.record, Field.writesScalars_of, Codec.uint64_writesScalars]) first
  obtain ⟨retry, rfl, plain₂, distinct₂⟩ := Record.writes_section (by decide)
    (by simp [Retry.record, Field.writesScalars_of, Codec.uint64_writesScalars,
      Codec.uint32_writesScalars]) second
  obtain ⟨cache, rfl, plain₃, distinct₃⟩ := Record.writes_section (by decide)
    (by simp [Lifetimes.record, Field.writesScalars_of, Codec.uint64_writesScalars]) third
  obtain ⟨readiness, rfl, plain₄, distinct₄⟩ := Record.writes_section (by decide)
    (by simp [Polling.record, Field.writesScalars_of, Codec.uint64_writesScalars]) fourth
  have scalar : Toml.Scalar endpoint := by
    cases text
    exact .string _
  exact @Toml.Paged.table [("endpoint", endpoint), ("max_frame_length", limit)]
    [("timeouts", timeouts), ("retry", retry), ("cache", cache), ("readiness", readiness)]
    (by simp [scalar, Toml.scalar_of_nat number])
    (by simp only [List.forall_mem_cons]; exact ⟨plain₁, plain₂, plain₃, plain₄,
    List.forall_mem_nil _⟩)
    (by simp [Toml.sectionEntry])
    (by simp only [List.forall_mem_cons]; exact ⟨distinct₁, distinct₂, distinct₃, distinct₄,
    List.forall_mem_nil _⟩)

end Settings

/-! ## The file -/

theorem Toml.Scalar.tidy {v : Toml} (scalar : Scalar v) : Tidy v := by
  cases scalar with
  | string s => exact .string s
  | integer i _ => exact .integer i
  | bool b => exact .bool b

theorem Toml.Paged.tidy {t : Toml} (paged : Paged t) : Tidy t := by
  cases paged with
  | table plain inner distinct innerDistinct =>
    refine .table distinct (List.forall_mem_append.mpr ⟨fun e member => (plain e member).tidy, ?_⟩)
    rw [List.forall_mem_map]
    exact fun s member => .table (innerDistinct s member) fun e inside =>
      (inner s member e inside).tidy

namespace Settings

theorem cutSection_sorted {v : Toml} (tidy : Toml.Tidy v) (key : String) :
    cutSection key (Toml.sorted v) = Toml.sorted v := by
  cases tidy <;> rfl

theorem ofToml?_sorted {entries : List (String × Toml)} (tidy : Toml.Tidy (.table entries))
    {s : Settings} (decoded : codec.decode (Toml.sorted (.table entries)).node = .ok s) :
    ofToml? (Toml.sorted (.table entries)) = some s := by
  have uncut : (Toml.sortedEntries entries).map (fun e => (e.1, cutSection e.1 e.2)) =
      Toml.sortedEntries entries := by
    cases tidy with
    | table distinct each =>
      refine (List.map_congr_left fun e member => ?_).trans (List.map_id _)
      obtain ⟨e', inside, rfl⟩ :=
        List.mem_map.mp ((Toml.sortedEntries_perm distinct).mem_iff.mp member)
      exact congrArg (Prod.mk e'.1) (cutSection_sorted (each e' inside) e'.1)
  rw [Toml.sorted] at decoded ⊢
  simp only [ofToml?, uncut, decoded]

/-- The document that settings are written as is read to the same settings. -/
theorem ofText?_toText? {s : Settings} {text : String} (written : s.toText? = some text) :
    ofText? text = some s := by
  obtain ⟨entries, tables, rfl⟩ := Option.map_eq_some_iff.mp written
  obtain ⟨t, taken, table⟩ := Option.bind_eq_some_iff.mp tables
  have paged := toToml?_paged taken
  have tidy := paged.tidy
  have shape : t = .table entries := by
    cases paged with
    | table => exact congrArg Toml.table (Option.some.inj table)
  subst shape
  obtain ⟨node, written, decoded⟩ := Settings.faithful s
  rw [← written.node_eq taken] at decoded
  have sorted := Settings.orderless _ _ s tidy.reordered decoded
  rw [ofText?, paged.ofText?_documentText, Option.bind_some, ofToml?_sorted tidy sorted]

theorem toText?_eq_none {s : Settings} :
    s.toText? = none ↔ ∃ n ∈ s.numbers, 9223372036854775807 < n := by
  rw [← toToml?_eq_none, toText?, Option.map_eq_none_iff]
  constructor
  · intro tables
    cases taken : s.toToml? with
    | none => rfl
    | some t =>
      rw [taken] at tables
      cases toToml?_paged taken
      cases tables
  · intro refused
    rw [refused]
    rfl

theorem entries_of_ofText? {text : String} {s : Settings} (given : ofText? text = some s) :
    ∃ entries, (Toml.ofText? text).bind Toml.entries? = some entries := by
  obtain ⟨t, parsed, taken⟩ := Option.bind_eq_some_iff.mp given
  rw [parsed, Option.bind_some]
  cases t with
  | table entries => exact ⟨entries, rfl⟩
  | _ => cases taken

theorem load_write {files files' : FileTree} {path text : String} {s : Settings}
    (written : s.toText? = some text) (stored : files.write path (Utf8.encode text) = .ok files') :
    load files' path = .ok s := by
  simp [load, FileTree.hasPath_write stored, FileTree.readText_write stored,
    ofText?_toText? written]

/-- Settings whose numbers fit a document are saved under any path that can be written and
loaded from it as they were; all others are refused and leave the tree as it was. -/
theorem saved_or_refused (files : FileTree) (path : String) (s : Settings)
    (writable : files.Writable path) :
    ((∀ n ∈ s.numbers, n ≤ 9223372036854775807) →
      ∃ files', saveInto files path s = (files', .ok ()) ∧ save files path s = .ok files' ∧
        load files' path = .ok s) ∧
    ((∃ n ∈ s.numbers, 9223372036854775807 < n) →
      saveInto files path s = (files, .error .unwritable) ∧
        save files path s = .error .unwritable) := by
  constructor
  · intro fits
    cases written : s.toText? with
    | none =>
      obtain ⟨n, member, large⟩ := toText?_eq_none.mp written
      exact absurd (fits n member) (Nat.not_le.mpr large)
    | some text =>
      obtain ⟨made, place, makes, followed, free⟩ := writable
      have stored := FileTree.write_of_follow (Utf8.encode text) followed free
      have saved : saveInto files path s = (made.put place (.file (Utf8.encode text)), .ok ()) := by
        simp [saveInto, written, makes, stored]
      exact ⟨_, saved, by rw [save, saved], load_write written stored⟩
  · intro large
    have refused : saveInto files path s = (files, .error .unwritable) := by
      rw [saveInto, toText?_eq_none.mpr large]
    exact ⟨refused, by rw [save, refused]⟩

theorem saved_or_refused_quotes :
    FileTree.Writable {} "etc/proxy console.toml" ∧
    (∃ files', saveInto {} "etc/proxy console.toml" { endpoint := "a \"b\" \\ '''\n\t\x7f ü" } =
        (files', .ok ()) ∧
      load files' "etc/proxy console.toml" = .ok { endpoint := "a \"b\" \\ '''\n\t\x7f ü" }) ∧
    saveInto {} "etc/proxy console.toml" { maxFrameLength := 9223372036854775808 } =
      ({}, .error .unwritable) := by
  have writable : FileTree.Writable {} "etc/proxy console.toml" :=
    FileTree.writable_of_clear (by decide) (fun _ _ _ _ => by simp [FileTree.at?]) (by decide)
  obtain ⟨files', saved, -, loaded⟩ := (saved_or_refused {} "etc/proxy console.toml"
    { endpoint := "a \"b\" \\ '''\n\t\x7f ü" } writable).1 (by decide)
  have refused := (saved_or_refused {} "etc/proxy console.toml"
    { maxFrameLength := 9223372036854775808 } writable).2 ⟨9223372036854775808, by decide,
      by decide⟩
  exact ⟨writable, ⟨files', saved, loaded⟩, refused.1⟩

end Settings

end ProxyConsole
