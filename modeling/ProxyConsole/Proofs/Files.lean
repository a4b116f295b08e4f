import Mathlib.Data.List.Infix
import ProxyConsole.FileTree

/-!
# Files that were written

What is written under a path is read under the same path: the directories on the way are
where they were, as no file was put in the place of one.  A path can be written unless a
file is in the way of its directories or a directory in its own place.
-/

set_option autoImplicit false

namespace ProxyConsole.FileTree

variable {t : FileTree}

theorem at?_put (t : FileTree) {place : List String} (e : Entry) (below : place ≠ []) :
    (t.put place e).at? place = some e := by
  have marked : place.isEmpty = false := by simpa using below
  simp [at?, marked, put]

theorem lookup_filter_ne {place other : List String} (differ : other ≠ place)
    (entries : List (List String × Entry)) :
    (entries.filter fun x => x.1 ≠ place).lookup other = entries.lookup other := by
  induction entries with
  | nil => rfl
  | cons x entries ih =>
    by_cases removed : x.1 = place
    · have passed : (other == x.1) = false := by simpa [removed] using differ
      rw [List.filter_cons_of_neg (by simpa using removed), ih, List.lookup_cons, passed]
    · rw [List.filter_cons_of_pos (by simpa using removed), List.lookup_cons, List.lookup_cons, ih]

theorem at?_put_other (t : FileTree) {place other : List String} (e : Entry)
    (differ : other ≠ place) : (t.put place e).at? other = t.at? other := by
  have passed : (other == place) = false := by simpa using differ
  unfold at? put
  split
  · rfl
  · rw [List.lookup_cons, passed, lookup_filter_ne differ]

theorem follow_put {place : List String} (e : Entry) (free : t.isDirectory place = false)
    {start names last : List String} (followed : t.follow start names = .ok last) :
    (t.put place e).follow start names = .ok last := by
  induction names generalizing start with
  | nil => exact followed
  | cons name names ih =>
    rw [follow] at followed ⊢
    cases found : t.at? start with
    | none =>
      rw [found] at followed
      cases followed
    | some entry =>
      cases entry with
      | file bytes =>
        rw [found] at followed
        cases followed
      | directory =>
        have differ : start ≠ place := by
          rintro rfl
          simp [isDirectory, found] at free
        rw [found] at followed
        rw [at?_put_other t e differ, found]
        exact ih followed

theorem isDirectory_nil (t : FileTree) : t.isDirectory [] = true := by
  simp [isDirectory, at?]

theorem write_of_follow {path : String} {place : List String} (bytes : List UInt8)
    (followed : t.follow [] (pathNames path) = .ok place) (free : t.isDirectory place = false) :
    t.write path bytes = .ok (t.put place (.file bytes)) := by
  simp [write, followed, free]

theorem write_put {path : String} {place : List String} (bytes bytes' : List UInt8)
    (followed : t.follow [] (pathNames path) = .ok place) (free : t.isDirectory place = false) :
    ∃ after, (t.put place (.file bytes)).write path bytes' = .ok after := by
  have below : place ≠ [] := by
    rintro rfl
    rw [isDirectory_nil] at free
    cases free
  exact ⟨_, write_of_follow bytes' (follow_put _ free followed)
    (by simp [isDirectory, at?_put t _ below])⟩

theorem find_write {path : String} {bytes : List UInt8} {t' : FileTree}
    (written : t.write path bytes = .ok t') : t'.find (pathNames path) = .ok (.file bytes) := by
  unfold write at written
  cases followed : t.follow [] (pathNames path) with
  | error e =>
    rw [followed] at written
    cases written
  | ok place =>
    rw [followed] at written
    dsimp only at written
    split at written
    · cases written
    · rename_i free
      cases written
      rw [Bool.not_eq_true] at free
      have below : place ≠ [] := by
        rintro rfl
        rw [isDirectory_nil] at free
        cases free
      have follows := follow_put (.file bytes) free followed
      simp only [find, follows, bind, Except.bind, at?_put t _ below]

theorem hasPath_write {path : String} {bytes : List UInt8} {t' : FileTree}
    (written : t.write path bytes = .ok t') : t'.hasPath path = true := by
  rw [hasPath, find_write written]
  rfl

theorem readText_write {path text : String} {t' : FileTree}
    (written : t.write path (Utf8.encode text) = .ok t') : t'.readText path = .ok text := by
  rw [readText, find_write written]
  simp only [Utf8.decode_encode]

/-! ## Paths that can be written -/

/-- A path under which a file can be written: the directories above it are there or can be
made, and no directory stands in its place. -/
def Writable (t : FileTree) (path : String) : Prop :=
  ∃ made place, t.makeAll (pathNames path).dropLast.reverse = (made, .ok ()) ∧
    made.follow [] (pathNames path) = .ok place ∧ made.isDirectory place = false

def NoFile (t : FileTree) (place : List String) : Prop :=
  ∀ bytes, t.at? place ≠ some (.file bytes)

theorem isDirectory_iff {place : List String} :
    t.isDirectory place = true ↔ t.at? place = some .directory := by
  simp [isDirectory]

theorem follow_directories {start names : List String} (plain : ".." ∉ names)
    (there : ∀ above, above <+: names → above ≠ names → t.isDirectory (start ++ above) = true) :
    t.follow start names = .ok (start ++ names) := by
  induction names generalizing start with
  | nil => rw [follow, List.append_nil]
  | cons name names ih =>
    rw [List.mem_cons, not_or] at plain
    have here := isDirectory_iff.mp (there [] List.nil_prefix (List.cons_ne_nil _ _).symm)
    rw [List.append_nil] at here
    have later := @ih (start ++ [name]) plain.2 fun above leads proper => by
      have deeper := there (name :: above) (List.cons_prefix_cons.mpr ⟨rfl, leads⟩)
        (by simpa using proper)
      rwa [List.append_assoc, List.singleton_append]
    rw [follow, here]
    dsimp only
    rw [if_neg (Ne.symm plain.1), later, List.append_assoc, List.singleton_append]

/-- With no file in its way a path leads somewhere or a directory on it is missing. -/
theorem follow_cases {start names : List String} (plain : ".." ∉ names)
    (clear : ∀ above, above <+: names → above ≠ names → t.NoFile (start ++ above)) :
    (∀ above, above <+: names → above ≠ names → t.isDirectory (start ++ above) = true) ∨
      t.follow start names = .error .notFound := by
  induction names generalizing start with
  | nil => exact .inl fun above leads proper => absurd (List.prefix_nil.mp leads) proper
  | cons name names ih =>
    rw [List.mem_cons, not_or] at plain
    have here := clear [] List.nil_prefix (List.cons_ne_nil _ _).symm
    rw [List.append_nil] at here
    rw [follow]
    cases found : t.at? start with
    | none => exact .inr rfl
    | some entry =>
      cases entry with
      | file bytes => exact absurd found (here bytes)
      | directory =>
        have later := @ih (start ++ [name]) plain.2 fun above leads proper => by
          have deeper := clear (name :: above) (List.cons_prefix_cons.mpr ⟨rfl, leads⟩)
            (by simpa using proper)
          rwa [List.append_assoc, List.singleton_append]
        dsimp only
        rw [if_neg (Ne.symm plain.1)]
        refine later.imp_left fun there above leads proper => ?_
        cases above with
        | nil => rw [List.append_nil, isDirectory_iff, found]
        | cons first above =>
          obtain ⟨rfl, leads'⟩ := List.cons_prefix_cons.mp leads
          have deeper := there above leads' (by simpa using proper)
          rwa [List.append_assoc, List.singleton_append] at deeper

theorem settle_makeDirectory {names : List String} (followed : t.follow [] names = .ok names)
    (clear : t.NoFile names) :
    ∃ made, t.settle names (t.makeDirectory names) = (made, .ok ()) ∧
      made.isDirectory names = true ∧ ∀ place, place ≠ names → made.at? place = t.at? place := by
  rw [makeDirectory, followed]
  dsimp only
  cases found : t.at? names with
  | none =>
    have below : names ≠ [] := by
      rintro rfl
      rw [← Option.not_isSome_iff_eq_none] at found
      exact found rfl
    refine ⟨t.put names .directory, rfl, ?_, fun place differ => at?_put_other t .directory differ⟩
    rw [isDirectory_iff, at?_put t .directory below]
  | some entry =>
    cases entry with
    | file bytes => exact absurd found (clear bytes)
    | directory =>
      have leads : t.leadsToDirectory names = true := by
        simp [leadsToDirectory, find, followed, bind, Except.bind, found]
      refine ⟨t, ?_, isDirectory_iff.mpr found, fun _ _ => rfl⟩
      rw [Option.isSome_some, if_pos rfl, settle, if_pos leads]

theorem makeAll_settle {names : List String} {name : String}
    (tried : t.makeDirectory (names ++ [name]) ≠ .error .notFound) :
    t.makeAll (names ++ [name]).reverse =
      t.settle (names ++ [name]) (t.makeDirectory (names ++ [name])) := by
  rw [List.reverse_append, List.reverse_singleton, List.singleton_append, makeAll,
    List.reverse_cons, List.reverse_reverse]
  split
  · exact absurd ‹_› tried
  · rfl

theorem makeAll_after {names : List String} {name : String} {made : FileTree}
    (missing : t.makeDirectory (names ++ [name]) = .error .notFound)
    (above : t.makeAll names.reverse = (made, .ok ())) :
    t.makeAll (names ++ [name]).reverse =
      made.settle (names ++ [name]) (made.makeDirectory (names ++ [name])) := by
  rw [List.reverse_append, List.reverse_singleton, List.singleton_append, makeAll,
    List.reverse_cons, List.reverse_reverse]
  rw [missing, above]

theorem concat_outside (names : List String) (name : String) : ¬names ++ [name] <+: names := by
  intro leads
  have long := leads.length_le
  rw [List.length_append, List.length_singleton] at long
  omega

theorem makeAll_reverse {names : List String} (plain : ".." ∉ names)
    (clear : ∀ above, above <+: names → t.NoFile above) :
    ∃ made, t.makeAll names.reverse = (made, .ok ()) ∧
      (∀ above, above <+: names → made.isDirectory above = true) ∧
      ∀ place, ¬place <+: names → made.at? place = t.at? place := by
  induction names using List.reverseRecOn with
  | nil =>
    refine ⟨t, rfl, fun above leads => ?_, fun _ _ => rfl⟩
    rw [List.prefix_nil.mp leads, isDirectory_nil]
  | append_singleton names name ih =>
    -- the tree in which the last directory is made, those above it being there
    obtain ⟨before, settles, directories, kept⟩ : ∃ before : FileTree,
        t.makeAll (names ++ [name]).reverse =
          before.settle (names ++ [name]) (before.makeDirectory (names ++ [name])) ∧
        (∀ above, above <+: names ++ [name] → above ≠ names ++ [name] →
          before.isDirectory above = true) ∧
        ∀ place, ¬place <+: names → before.at? place = t.at? place := by
      obtain there | missing := @follow_cases t [] (names ++ [name]) plain
        fun above leads _ => clear above leads
      · refine ⟨t, makeAll_settle ?_, there, fun _ _ => rfl⟩
        rw [makeDirectory, follow_directories plain there]
        dsimp only
        split <;> simp
      · obtain ⟨before, above, directories, kept⟩ :=
          ih (fun up => plain (List.mem_append_left _ up))
          fun above leads => clear above (leads.trans (List.prefix_append _ _))
        refine ⟨before, makeAll_after ?_ above, fun above leads proper => ?_, kept⟩
        · rw [makeDirectory, missing]
        · exact directories above ((List.prefix_concat_iff.mp leads).resolve_left proper)
    obtain ⟨made, settled, directory, others⟩ :=
      settle_makeDirectory (follow_directories plain directories) fun bytes => by
        rw [kept _ (concat_outside names name)]
        exact clear _ (List.prefix_refl _) bytes
    refine ⟨made, settles.trans settled, fun above leads => ?_, fun place apart => ?_⟩
    · by_cases same : above = names ++ [name]
      · rw [same]
        exact directory
      · rw [isDirectory_iff, others above same, ← isDirectory_iff]
        exact directories above leads same
    · rw [others place fun same => apart (same ▸ List.prefix_refl _)]
      exact kept place fun leads => apart (leads.trans (List.prefix_append _ _))

/-- Without steps up, a path can be written unless a file or a directory is in its way. -/
theorem writable_of_clear {path : String} (plain : ".." ∉ pathNames path)
    (clear : ∀ above, above <+: pathNames path → above ≠ pathNames path → t.NoFile above)
    (free : t.isDirectory (pathNames path) = false) : t.Writable path := by
  rw [Writable]
  generalize pathNames path = names at plain clear free
  obtain rfl | ⟨above, name, rfl⟩ := List.eq_nil_or_concat' names
  · rw [isDirectory_nil] at free
    cases free
  · have outside := concat_outside above name
    obtain ⟨made, makes, directories, kept⟩ :=
      @makeAll_reverse t above (fun up => plain (List.mem_append_left _ up)) fun higher leads =>
        clear higher (leads.trans (List.prefix_append _ _)) fun same => outside (same ▸ leads)
    have followed := @follow_directories made [] (above ++ [name]) plain fun higher leads proper =>
      directories higher ((List.prefix_concat_iff.mp leads).resolve_left proper)
    refine ⟨made, above ++ [name], ?_, followed, ?_⟩
    · rw [List.dropLast_concat, makes]
    · rw [isDirectory, kept _ outside]
      exact free

/-! ## What stays where it is -/

theorem find_eq_ok {names : List String} {e : Entry} :
    t.find names = .ok e ↔ ∃ place, t.follow [] names = .ok place ∧ t.at? place = some e := by
  unfold find
  cases followed : t.follow [] names with
  | error cause => simp [bind, Except.bind]
  | ok place => cases found : t.at? place <;> simp [bind, Except.bind, found]

/-- Some directories came to be in places where nothing was. -/
def GainsDirectories (t t' : FileTree) : Prop :=
  ∀ place, t'.at? place = t.at? place ∨ t.at? place = none ∧ t'.at? place = some .directory

namespace GainsDirectories

variable {t' t'' : FileTree}

theorem refl (t : FileTree) : t.GainsDirectories t :=
  fun _ => .inl rfl

theorem at?_eq (gains : t.GainsDirectories t') {place : List String} {e : Entry}
    (found : t.at? place = some e) : t'.at? place = some e := by
  obtain same | ⟨free, _⟩ := gains place
  · exact same.trans found
  · rw [found] at free
    cases free

theorem trans (first : t.GainsDirectories t') (second : t'.GainsDirectories t'') :
    t.GainsDirectories t'' := by
  intro place
  obtain same | ⟨free, made⟩ := first place
  · rw [← same]
    exact second place
  · exact .inr ⟨free, second.at?_eq made⟩

theorem follow (gains : t.GainsDirectories t') {start names last : List String}
    (followed : t.follow start names = .ok last) : t'.follow start names = .ok last := by
  induction names generalizing start with
  | nil => exact followed
  | cons name names ih =>
    rw [FileTree.follow] at followed ⊢
    cases found : t.at? start with
    | none =>
      rw [found] at followed
      cases followed
    | some entry =>
      rw [found] at followed
      rw [gains.at?_eq found]
      cases entry with
      | file bytes => cases followed
      | directory => exact ih followed

theorem put {place : List String} (free : t.at? place = none) :
    t.GainsDirectories (t.put place .directory) := by
  have below : place ≠ [] := by
    rintro rfl
    cases free
  intro other
  by_cases same : other = place
  · subst same
    exact .inr ⟨free, at?_put t .directory below⟩
  · exact .inl (at?_put_other t .directory same)

theorem makeDirectory {names : List String} (made : t.makeDirectory names = .ok t') :
    t.GainsDirectories t' := by
  unfold FileTree.makeDirectory at made
  cases followed : t.follow [] names with
  | error e =>
    rw [followed] at made
    cases made
  | ok place =>
    rw [followed] at made
    dsimp only at made
    split at made
    · cases made
    · rename_i free
      cases made
      exact put (Option.not_isSome_iff_eq_none.mp free)

theorem settle {names : List String} {result : Except FileFault FileTree}
    (made : ∀ t', result = .ok t' → t.GainsDirectories t') :
    t.GainsDirectories (t.settle names result).1 := by
  cases result with
  | error e => exact refl t
  | ok t' => exact made t' rfl

theorem makeAll (t : FileTree) (names : List String) : t.GainsDirectories (t.makeAll names).1 := by
  induction names with
  | nil => exact refl t
  | cons name above ih =>
    rw [FileTree.makeAll]
    split
    · rcases higher : t.makeAll above with ⟨made, e | _⟩
      · rw [higher] at ih
        exact ih
      · rw [higher] at ih
        exact ih.trans (settle fun t' done => makeDirectory done)
    · exact settle fun t' done => makeDirectory done

end GainsDirectories

/-- A place that is reached from the root: the places above it are directories. -/
def Reached (t : FileTree) (place : List String) : Prop :=
  ".." ∉ place ∧ ∀ above, above <+: place → above ≠ place → t.isDirectory above = true

theorem reached_follow {start names last : List String} (reached : t.Reached start)
    (followed : t.follow start names = .ok last) : t.Reached last := by
  induction names generalizing start with
  | nil =>
    cases followed
    exact reached
  | cons name names ih =>
    rw [follow] at followed
    cases found : t.at? start with
    | none =>
      rw [found] at followed
      cases followed
    | some entry =>
      rw [found] at followed
      cases entry with
      | file bytes => cases followed
      | directory =>
        refine ih ?_ followed
        have all : ∀ above, above <+: start → t.isDirectory above = true := by
          intro above leads
          by_cases whole : above = start
          · rw [whole, isDirectory_iff, found]
          · exact reached.2 above leads whole
        split
        · exact ⟨fun up => reached.1 (List.dropLast_subset _ up),
            fun above leads _ => all above (leads.trans (List.dropLast_prefix _))⟩
        · rename_i proper
          refine ⟨?_, fun above leads differ => ?_⟩
          · rw [List.mem_append, List.mem_singleton, not_or]
            exact ⟨reached.1, Ne.symm proper⟩
          · exact all above ((List.prefix_concat_iff.mp leads).resolve_left differ)

/-- What is found at all is found under the names of its place. -/
theorem find_place {names : List String} {e : Entry} {place : List String}
    (followed : t.follow [] names = .ok place) (found : t.at? place = some e) :
    t.find place = .ok e := by
  have root : t.Reached [] := ⟨List.not_mem_nil, fun above leads proper =>
    absurd (List.prefix_nil.mp leads) proper⟩
  have reached := reached_follow root followed
  exact find_eq_ok.mpr ⟨place, follow_directories reached.1 reached.2, found⟩

theorem follow_plain {start names last : List String} (plain : ".." ∉ names)
    (followed : t.follow start names = .ok last) : last = start ++ names := by
  induction names generalizing start with
  | nil =>
    cases followed
    rw [List.append_nil]
  | cons name names ih =>
    rw [List.mem_cons, not_or] at plain
    rw [follow] at followed
    split at followed
    · cases followed
    · cases followed
    · rw [if_neg (Ne.symm plain.1)] at followed
      rw [ih plain.2 followed, List.append_assoc, List.singleton_append]

theorem find_put {made : FileTree} {names place : List String} {bytes : List UInt8}
    (gains : t.GainsDirectories made) (plain : ".." ∉ names)
    (followed : made.follow [] names = .ok place) (free : made.isDirectory place = false)
    (missing : (t.find names).isOk = false) {others : List String} {e : Entry}
    (found : t.find others = .ok e) : (made.put place (.file bytes)).find others = .ok e := by
  obtain ⟨last, leads, stands⟩ := find_eq_ok.mp found
  have here : place = names := follow_plain plain followed
  have differ : last ≠ place := by
    intro same
    rw [← here, ← same, find_place leads stands] at missing
    cases missing
  refine find_eq_ok.mpr ⟨last, follow_put _ free (gains.follow leads), ?_⟩
  rw [at?_put_other made _ differ]
  exact gains.at?_eq stands

end ProxyConsole.FileTree
