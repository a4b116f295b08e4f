import Mathlib.Data.List.Forall2
import ProxyConsole.Proofs.Toml.Numeral
import ProxyConsole.Proofs.Toml.Quoted
import ProxyConsole.Toml.Document
import ProxyConsole.Toml.Printer

/-!
# Written lines

A key is scanned back from its spelling and a scalar from its text, so the line of a
pair is scanned as that pair and the line of a header as that header.  A text of such
lines, with or without blank ones between them, is scanned as the list of its
statements.
-/

set_option autoImplicit false

namespace ProxyConsole.Toml

/-! ## Keys -/

/-- What the spelling of a key begins with. -/
def opensKey (c : Char) : Bool :=
  isBare c || c = '"' || c = '\''

theorem spellKey_head (key : String) :
    ∃ first more, spellKey key = first :: more ∧ opensKey first = true := by
  unfold spellKey
  dsimp only
  split
  · rename_i bare
    rw [Bool.and_eq_true, Bool.not_eq_true', List.isEmpty_eq_false_iff] at bare
    obtain ⟨first, more, shape⟩ := List.exists_cons_of_ne_nil bare.1
    have each := List.all_eq_true.mp bare.2 first (shape ▸ List.mem_cons_self)
    exact ⟨first, more, shape, by simp [opensKey, each]⟩
  split
  · exact ⟨'"', _, rfl, by decide⟩
  split
  · exact ⟨'\'', _, rfl, by decide⟩
  · exact ⟨'"', _, rfl, by decide⟩

theorem ne_of_opens {p : Char → Bool} {c d : Char} (opens : p c = true) (other : p d = false) :
    c ≠ d := by
  rintro rfl
  rw [opens] at other
  cases other

theorem skipBlanks_cons {c : Char} {cs : List Char} (shown : isBlank c = false) :
    skipBlanks (c :: cs) = c :: cs :=
  List.dropWhile_cons_of_neg (by simp [shown])

theorem not_isBlank {c : Char} (opens : opensKey c = true) : isBlank c = false := by
  rw [isBlank, Bool.or_eq_false_iff, decide_eq_false_iff_not, decide_eq_false_iff_not]
  exact ⟨ne_of_opens opens (by decide), ne_of_opens opens (by decide)⟩

theorem scanKey_bare {cs rest : List Char} (marked : cs ≠ []) (bare : cs.all isBare = true)
    (ends : ∀ c ∈ rest.head?, isBare c = false) :
    scanKey (cs ++ rest) = some (String.ofList cs, rest) := by
  obtain ⟨first, more, rfl⟩ := List.exists_cons_of_ne_nil marked
  have each := List.all_eq_true.mp bare
  have noQuote : ¬ (first = '"' ∨ first = '\'') := by
    have opens := each first List.mem_cons_self
    rintro (rfl | rfl) <;> cases opens
  have stops : rest.takeWhile isBare = [] ∧ rest.dropWhile isBare = rest := by
    cases rest with
    | nil => exact ⟨rfl, rfl⟩
    | cons c rest =>
      have other := ends c rfl
      simp [other]
  have taken : (first :: more ++ rest).takeWhile isBare = first :: more := by
    rw [List.takeWhile_append_of_pos each, stops.1, List.append_nil]
  have left : (first :: more ++ rest).dropWhile isBare = rest := by
    rw [List.dropWhile_append_of_pos each, stops.2]
  rw [List.cons_append] at taken left ⊢
  simp only [scanKey, if_neg noQuote, taken, left, List.isEmpty_cons, Bool.false_eq_true, if_false]

theorem scanKey_spellKey (key : String) {rest : List Char}
    (ends : ∀ c ∈ rest.head?, isBare c = false) :
    scanKey (spellKey key ++ rest) = some (key, rest) := by
  have basic : scanKey (enclose ['"'] (spellBasic key.toList) ++ rest) = some (key, rest) := by
    have scanned := scanShort_basic key.toList rest
    have shape : ∃ more, enclose ['"'] (spellBasic key.toList) ++ rest = '"' :: more := ⟨_, rfl⟩
    obtain ⟨more, shape⟩ := shape
    rw [shape] at scanned ⊢
    simp only [scanKey, true_or, if_true, scanned, Option.map_some, String.ofList_toList]
  unfold spellKey
  dsimp only
  split
  · rename_i bare
    rw [Bool.and_eq_true, Bool.not_eq_true', List.isEmpty_eq_false_iff] at bare
    rw [scanKey_bare bare.1 bare.2 ends, String.ofList_toList]
  split
  · exact basic
  split
  · rename_i suits
    have scanned := scanShort_literal suits rest
    have shape : ∃ more, enclose ['\''] key.toList ++ rest = '\'' :: more := ⟨_, rfl⟩
    obtain ⟨more, shape⟩ := shape
    rw [shape] at scanned ⊢
    simp only [scanKey, or_true, if_true, scanned, Option.map_some, String.ofList_toList]
  · exact basic

theorem spellPath_cons (key next : String) (path : List String) :
    spellPath (key :: next :: path) = spellKey key ++ '.' :: spellPath (next :: path) := by
  simp [spellPath, List.intercalate]

theorem spellPath_single (key : String) : spellPath [key] = spellKey key := by
  simp [spellPath, List.intercalate]

theorem spellPath_head (key : String) (path : List String) :
    ∃ first more, spellPath (key :: path) = first :: more ∧ opensKey first = true := by
  obtain ⟨first, more, shape, opens⟩ := spellKey_head key
  cases path with
  | nil => exact ⟨first, more, by rw [spellPath_single, shape], opens⟩
  | cons next path => exact ⟨first, _, by rw [spellPath_cons, shape]; rfl, opens⟩

theorem skipBlanks_spellPath (key : String) (path : List String) (rest : List Char) :
    skipBlanks (spellPath (key :: path) ++ rest) = spellPath (key :: path) ++ rest := by
  obtain ⟨first, more, shape, opens⟩ := spellPath_head key path
  rw [shape, List.cons_append, skipBlanks_cons (not_isBlank opens)]

theorem scanKeys_spellPath (key : String) (path : List String) {rest : List Char}
    (ends : ∀ c ∈ rest.head?, isBare c = false) (last : ∀ c ∈ (skipBlanks rest).head?, c ≠ '.')
    (fuel : Nat) (enough : path.length < fuel) :
    scanKeys fuel (spellPath (key :: path) ++ rest) = some (key :: path, skipBlanks rest) := by
  induction path generalizing key fuel with
  | nil =>
    cases fuel with
    | zero => exact absurd enough (Nat.not_lt_zero _)
    | succ fuel =>
      rw [scanKeys, skipBlanks_spellPath, spellPath_single, scanKey_spellKey key ends]
      dsimp only
      split
      · rename_i same
        exact absurd rfl (last '.' (same ▸ rfl))
      · rfl
  | cons next path ih =>
    cases fuel with
    | zero => exact absurd enough (Nat.not_lt_zero _)
    | succ fuel =>
      have point : skipBlanks ('.' :: (spellPath (next :: path) ++ rest)) =
          '.' :: (spellPath (next :: path) ++ rest) := skipBlanks_cons (by decide)
      rw [scanKeys, skipBlanks_spellPath, spellPath_cons, List.append_assoc, List.cons_append,
        scanKey_spellKey key (by intro c member; cases member; decide)]
      simp only [point, ih next fuel (Nat.lt_of_succ_lt_succ enough), Option.map_some]

theorem ofKeys?_concat (parents : List String) (key : String) :
    KeyPath.ofKeys? (parents ++ [key]) = some ⟨parents, key⟩ := by
  induction parents with
  | nil => rfl
  | cons parent parents ih =>
    cases parents with
    | nil => rfl
    | cons next parents =>
      rw [List.cons_append, List.cons_append, KeyPath.ofKeys?, ← List.cons_append, ih]
      · rfl
      · simp

theorem length_spellPath (path : List String) : path.length ≤ (spellPath path).length + 1 := by
  induction path with
  | nil => exact Nat.zero_le _
  | cons key path ih =>
    cases path with
    | nil => exact Nat.le_add_left 1 _
    | cons next path =>
      obtain ⟨first, more, shape, _⟩ := spellKey_head key
      rw [List.length_cons] at ih
      simp only [spellPath_cons, shape, List.length_append, List.length_cons]
      omega

theorem scanPath_eq (parents : List String) (key : String) (rest : List Char)
    (ends : ∀ c ∈ rest.head?, isBare c = false) (last : ∀ c ∈ (skipBlanks rest).head?, c ≠ '.') :
    scanPath (spellPath (parents ++ [key]) ++ rest) =
      if parents.length < pathLimit then some (⟨parents, key⟩, skipBlanks rest) else none := by
  obtain ⟨first, path, shape⟩ := List.exists_cons_of_ne_nil
    (List.append_ne_nil_of_right_ne_nil parents (List.cons_ne_nil key []))
  have length := length_spellPath (parents ++ [key])
  have count : path.length = parents.length := by
    have lengths := congrArg List.length shape
    simpa using lengths.symm
  have path' := ofKeys?_concat parents key
  rw [shape] at length path' ⊢
  rw [scanPath, scanKeys_spellPath first path ends last _ (by
    rw [List.length_append]
    rw [List.length_cons] at length
    omega)]
  simp only [Option.bind_eq_bind, Option.bind_some, List.length_cons, count, path', Option.pure_def]
  by_cases few : parents.length < pathLimit
  · rw [if_pos few, if_neg (by omega)]
  · rw [if_neg few, if_pos (by omega)]

theorem scanPath_spellPath (parents : List String) (key : String) (rest : List Char)
    (few : parents.length < pathLimit) (ends : ∀ c ∈ rest.head?, isBare c = false)
    (last : ∀ c ∈ (skipBlanks rest).head?, c ≠ '.') :
    scanPath (spellPath (parents ++ [key]) ++ rest) = some (⟨parents, key⟩, skipBlanks rest) := by
  rw [scanPath_eq parents key rest ends last, if_pos few]

/-! ## Values -/

/-- The values that stand on one line whatever they are. -/
inductive Scalar : Toml → Prop where
  | string (s : String) : Scalar (.string s)
  | integer (i : Int) (fits : fitsInteger i = true) : Scalar (.integer i)
  | bool (b : Bool) : Scalar (.bool b)

instance Scalar.decidable : DecidablePred Scalar
  | .string s => isTrue (.string s)
  | .integer i => if fits : fitsInteger i = true then isTrue (.integer i fits) else isFalse fun
      | .integer _ fits' => fits fits'
  | .bool b => isTrue (.bool b)
  | .float _ | .moment _ | .array _ | .table _ => isFalse nofun

theorem EndsValue.endsText {rest : List Char} (ends : EndsValue rest) : EndsText rest := by
  have other := ends.not (p := fun c => c = '"' || c = '\'') (by decide)
  simpa [EndsText] using other

/-- What the text of a scalar begins with. -/
def opensScalar (c : Char) : Bool :=
  c = '"' || c = '\'' || c.isDigit || c = '-' || c = 't' || c = 'f'

theorem Scalar.head {v : Toml} (scalar : Scalar v) :
    ∃ first more, valueText v = first :: more ∧ opensScalar first = true := by
  cases scalar with
  | string s =>
    obtain ⟨first, more, shape, quote⟩ := spellText_head s.toList
    exact ⟨first, more, by rw [valueText, shape], by rcases quote with rfl | rfl <;> rfl⟩
  | integer i fits =>
    obtain ⟨first, more, shape, numeral⟩ := intText_head i
    exact ⟨first, more, by rw [valueText, shape],
      by rcases numeral with digit | rfl <;> simp [opensScalar, *]⟩
  | bool b => cases b <;> exact ⟨_, _, rfl, by decide⟩

theorem Scalar.scan {v : Toml} (scalar : Scalar v) {rest : List Char} (ends : EndsValue rest) :
    scanScalar (valueText v ++ rest) = some (v, rest) := by
  cases scalar with
  | string s =>
    obtain ⟨first, more, shape, quote⟩ := spellText_head s.toList
    have scanned := scanQuoted_spellText s.toList ends.endsText
    rw [valueText, shape] at *
    rw [List.cons_append] at scanned ⊢
    simp only [scanScalar, if_pos quote, scanned, Option.map_some, String.ofList_toList]
  | integer i fits =>
    rw [valueText]
    exact scanScalar_intText fits ends
  | bool b => cases b <;> rfl

theorem Scalar.scanValue {v : Toml} (scalar : Scalar v) {rest : List Char} (ends : EndsValue rest)
    (fuel room : Nat) : scanValue (fuel + 1) room (valueText v ++ rest) = some (v, rest) := by
  obtain ⟨first, more, shape, opens⟩ := scalar.head
  have scanned := scalar.scan ends
  have noBracket : first ≠ '[' := ne_of_opens opens (by decide)
  have noBrace : first ≠ '\x7b' := ne_of_opens opens (by decide)
  rw [shape, List.cons_append] at scanned ⊢
  rw [Toml.scanValue, if_neg noBracket, if_neg noBrace, scanned]

/-! ## Lines -/

/-- A line begins with a key or with a bracket. -/
def OpensLine (line : List Char) : Prop :=
  ∃ first more, line = first :: more ∧ (opensKey first = true ∨ first = '[')

/-- A line that is scanned as a statement. -/
structure Line (line : List Char) (statement : Statement) : Prop where
  head : OpensLine line
  scan : ∀ rest, scanStatement (line ++ '\n' :: rest) = some (statement, '\n' :: rest)

theorem opensLine_pair (key : String) (text : List Char) : OpensLine (pairText key text) := by
  obtain ⟨first, more, shape, opens⟩ := spellKey_head key
  exact ⟨first, _, by rw [pairText, shape]; rfl, .inl opens⟩

theorem line_pair (key : String) {v : Toml} (scalar : Scalar v) :
    Line (pairText key (valueText v)) (.pair ⟨⟨[], key⟩, v⟩) := by
  obtain ⟨first, more, shape, opens⟩ := spellKey_head key
  refine ⟨opensLine_pair key _, ?_⟩
  intro rest
  have assign : skipBlanks (' ' :: '=' :: ' ' :: (valueText v ++ '\n' :: rest)) =
      '=' :: ' ' :: (valueText v ++ '\n' :: rest) := rfl
  have path := scanPath_spellPath [] key (' ' :: '=' :: ' ' :: (valueText v ++ '\n' :: rest))
    (by decide) (by intro c member; cases member; decide) (by
      rw [assign]
      intro c member
      cases member
      decide)
  rw [List.nil_append, spellPath_single, assign] at path
  have text : pairText key (valueText v) ++ '\n' :: rest =
      spellKey key ++ ' ' :: '=' :: ' ' :: (valueText v ++ '\n' :: rest) := by
    simp [pairText]
  obtain ⟨start, others, shape', opens'⟩ := scalar.head
  have blank : skipBlanks (' ' :: (valueText v ++ '\n' :: rest)) = valueText v ++ '\n' :: rest := by
    have shown : isBlank start = false := by
      rw [isBlank, Bool.or_eq_false_iff, decide_eq_false_iff_not, decide_eq_false_iff_not]
      exact ⟨ne_of_opens opens' (by decide), ne_of_opens opens' (by decide)⟩
    rw [shape']
    exact skipBlanks_cons shown
  have ends : EndsValue ('\n' :: rest) := by
    intro c member
    cases member
    exact Or.inl rfl
  have value := scalar.scanValue ends
  have pair : scanPair (spellKey key ++ ' ' :: '=' :: ' ' :: (valueText v ++ '\n' :: rest)) =
      some (⟨⟨[], key⟩, v⟩, '\n' :: rest) := by
    rw [scanPair, path]
    simp only [blank, value, Option.map_some]
  rw [text, scanStatement, pair]
  · rfl
  · intro cs same
    rw [shape, List.cons_append] at same
    exact ne_of_opens opens (by decide) (List.cons.inj same).1

theorem line_header (parents : List String) (key : String) (few : parents.length < pathLimit) :
    Line ('[' :: (spellPath (parents ++ [key]) ++ [']'])) (.header (.table ⟨parents, key⟩)) := by
  constructor
  · exact ⟨'[', _, rfl, Or.inr rfl⟩
  intro rest
  have path := scanPath_spellPath parents key (']' :: '\n' :: rest) few
    (by intro c member; cases member; decide) (by intro c member; cases member; decide)
  have text : '[' :: (spellPath (parents ++ [key]) ++ [']']) ++ '\n' :: rest =
      '[' :: (spellPath (parents ++ [key]) ++ ']' :: '\n' :: rest) := by simp
  have stop : skipBlanks (']' :: '\n' :: rest) = ']' :: '\n' :: rest := rfl
  rw [stop] at path
  have header : scanHeader (spellPath (parents ++ [key]) ++ ']' :: '\n' :: rest) =
      some (.table ⟨parents, key⟩, '\n' :: rest) := by
    unfold scanHeader
    split
    · rename_i same
      obtain ⟨root, path, whole⟩ := List.exists_cons_of_ne_nil
        (List.append_ne_nil_of_right_ne_nil parents (List.cons_ne_nil key []))
      obtain ⟨first, more, shape, opens⟩ := spellPath_head root path
      rw [whole, shape, List.cons_append] at same
      exact absurd (List.cons.inj same).1 (ne_of_opens opens (by decide))
    · simp only [path]
  rw [text, scanStatement, header]
  rfl

/-! ## Texts of lines -/

theorem OpensLine.shown {line : List Char} (opens : OpensLine line) :
    ∃ first more, line = first :: more ∧ isBlank first = false ∧ first ≠ '\n' ∧ first ≠ '\r' ∧
      first ≠ '#' ∧ first ≠ '\ufeff' := by
  obtain ⟨first, more, whole, opens | rfl⟩ := opens
  · exact ⟨first, more, whole, not_isBlank opens, ne_of_opens opens (by decide),
      ne_of_opens opens (by decide), ne_of_opens opens (by decide), ne_of_opens opens (by decide)⟩
  · exact ⟨'[', more, whole, by decide⟩

section Skipping

variable {c : Char} {cs rest : List Char}

theorem skipSpace_cons (shown : isBlank c = false) (noBreak : c ≠ '\n') (noReturn : c ≠ '\r') :
    skipSpace (c :: cs) = c :: cs := by
  unfold skipSpace
  split
  · rename_i same
    cases same
  · rename_i same
    exact absurd (List.cons.inj same).1 noReturn
  · rename_i same
    cases same
    simp [shown, noBreak]

theorem skipFiller_eq (skipped : skipSpace cs = rest) (noComment : ∀ c ∈ rest.head?, c ≠ '#') :
    skipFiller cs = rest := by
  cases cs with
  | nil =>
    rw [← skipped]
    rfl
  | cons c cs =>
    rw [skipFiller, List.length_cons, skipLines, skipped]
    split
    · exact absurd rfl (noComment '#' rfl)
    · rfl

end Skipping

section Lines

-- how a line may be read as a statement
variable {reads : List Char → Statement → Prop} {text : List Char} {statements : List Statement}

/-- A text of lines, blank ones among them, and its statements. -/
inductive Laid (reads : List Char → Statement → Prop) : List Char → List Statement → Prop where
  | done : Laid reads [] []
  | blank {text : List Char} {statements : List Statement} (later : Laid reads text statements) :
      Laid reads ('\n' :: text) statements
  | line {line text : List Char} {statement : Statement} {statements : List Statement}
      (opens : OpensLine line) (first : reads line statement) (later : Laid reads text statements) :
      Laid reads (line ++ '\n' :: text) (statement :: statements)

/-- After its blank lines a text is at its end, or at a line. -/
inductive Laid.Skipped (reads : List Char → Statement → Prop) (statements : List Statement)
    (length : Nat) : List Char → Prop where
  | done (none : statements = []) : Skipped reads statements length []
  | line {line text : List Char} {statement : Statement} {more : List Statement}
      (next : statements = statement :: more) (opens : OpensLine line)
      (first : reads line statement)
      (later : Laid reads text more) (shorter : text.length < length) :
      Skipped reads statements length (line ++ '\n' :: text)

theorem Laid.skipSpace (laid : Laid reads text statements) :
    Skipped reads statements text.length (skipSpace text) := by
  induction laid with
  | done => exact .done rfl
  | @blank text statements later ih =>
    have skipped : Toml.skipSpace ('\n' :: text) = Toml.skipSpace text := by simp [Toml.skipSpace]
    rw [skipped]
    generalize Toml.skipSpace text = reached at ih
    cases ih with
    | done none => exact .done none
    | line next opens first later shorter =>
      exact .line next opens first later (Nat.lt_succ_of_lt shorter)
  | @line line text statement statements opens first later ih =>
    obtain ⟨c, more, whole, shown, noBreak, noReturn, _⟩ := opens.shown
    have stays : Toml.skipSpace (line ++ '\n' :: text) = line ++ '\n' :: text := by
      rw [whole, List.cons_append]
      exact skipSpace_cons shown noBreak noReturn
    rw [stays]
    exact .line rfl opens first later (by rw [List.length_append, List.length_cons]; omega)

theorem Laid.skipFiller (laid : Laid reads text statements) :
    Skipped reads statements text.length (skipFiller text) := by
  have skipped := laid.skipSpace
  rw [skipFiller_eq rfl]
  · exact skipped
  · intro c member
    generalize Toml.skipSpace text = reached at skipped member
    cases skipped with
    | done => cases member
    | line next opens first later shorter =>
      obtain ⟨d, more, shape, _, _, _, other, _⟩ := opens.shown
      rw [shape] at member
      cases member
      exact other

theorem Laid.withoutMark (laid : Laid reads text statements) : withoutMark text = text := by
  cases laid with
  | done => rfl
  | blank => rfl
  | line opens first later =>
    obtain ⟨c, more, shape, _, _, _, _, other⟩ := opens.shown
    rw [shape, List.cons_append]
    unfold Toml.withoutMark
    split
    · rename_i same
      exact absurd (List.cons.inj same).1 other
    · rfl

/-- What is put in front of a text of lines to make it one of more statements. -/
def Lays (reads : List Char → Statement → Prop) (text : List Char) (statements : List Statement) :
    Prop :=
  ∀ text' more, Laid reads text' more → Laid reads (text ++ text') (statements ++ more)

theorem lays_nil : Lays reads [] [] :=
  fun _ _ later => later

theorem Lays.append {text' : List Char} {more : List Statement} (first : Lays reads text statements)
    (second : Lays reads text' more) : Lays reads (text ++ text') (statements ++ more) := by
  intro text'' others later
  rw [List.append_assoc, List.append_assoc]
  exact first _ _ (second _ _ later)

theorem lays_line {line : List Char} {statement : Statement} (opens : OpensLine line)
    (first : reads line statement) : Lays reads (line ++ ['\n']) [statement] := by
  intro text' more later
  rw [List.append_assoc]
  exact .line opens first later

theorem Lays.blank (lays : Lays reads text statements) : Lays reads ('\n' :: text) statements :=
  fun text' more later => .blank (lays text' more later)

theorem Lays.laid (lays : Lays reads text statements) : Laid reads text statements := by
  have whole := lays [] [] .done
  rwa [List.append_nil, List.append_nil] at whole

theorem lays_intercalate {texts : List (List Char)} {groups : List (List Statement)}
    (each : List.Forall₂ (Lays reads) texts groups) :
    Lays reads (List.intercalate ['\n'] texts) groups.flatten := by
  induction each with
  | nil => exact lays_nil
  | @cons text group texts groups first others ih =>
    cases others with
    | nil => simpa [List.intercalate] using first
    | @cons text' group' texts groups _ _ =>
      have joined := first.append ih.blank
      simpa [List.intercalate] using joined

end Lines

theorem Laid.scan {text : List Char} {statements : List Statement}
    (laid : Laid Line text statements)
    (fuel : Nat) (enough : text.length < fuel) : scanStatements fuel text = some statements := by
  induction fuel generalizing text statements with
  | zero => exact absurd enough (Nat.not_lt_zero _)
  | succ fuel ih =>
    have skipped := laid.skipFiller
    rw [scanStatements]
    generalize Toml.skipFiller text = reached at skipped
    cases skipped with
    | done none => rw [none]
    | @line line text' statement more next opens first later shorter =>
      obtain ⟨c, others, shape, _⟩ := opens.shown
      have scanned := first.scan text'
      have ended : scanLineEnd ('\n' :: text') = some text' := rfl
      rw [shape, List.cons_append] at scanned ⊢
      simp only [scanned, ended, ih later (by omega), Option.map_some, next]

/-- A text of lines is scanned as its statements. -/
theorem Laid.ofText? {text : List Char} {statements : List Statement}
    (laid : Laid Line text statements) :
    ofText? (String.ofList text) = ofStatements? statements := by
  rw [Toml.ofText?, String.toList_ofList, laid.withoutMark]
  simp only [laid.scan (text.length + 1) (Nat.lt_succ_self _), Option.bind_some]

end ProxyConsole.Toml
