import ProxyConsole.Toml.Spelling

/-!
# Spelled texts

A text is scanned back to itself from each of the ways in which it can be spelled,
unless a quote follows.  In three quotes the quotes of the text itself matter: they are
read in runs, and the last run goes on into the quotes that end the text.
-/

set_option autoImplicit false

namespace ProxyConsole.Toml

/-- What follows does not belong to a text that ends here. -/
def EndsText (rest : List Char) : Prop :=
  ∀ c ∈ rest.head?, c ≠ '"' ∧ c ≠ '\''

/-! ## Escapes -/

theorem hexDigit?_capitalDigit (n : Nat) : hexDigit? (capitalDigit n) = some (n % 16) := by
  have all : ∀ d < 16, hexDigit? (capitalDigit d) = some d := by decide
  have same : capitalDigit (n % 16) = capitalDigit n := by
    rw [capitalDigit, capitalDigit, Nat.mod_mod]
  rw [← same]
  exact all _ (Nat.mod_lt n (by decide))

theorem toNat_of_isControl {c : Char} (control : isControl c = true) : c.toNat < 128 := by
  simp only [isControl, Bool.or_eq_true, Bool.and_eq_true, decide_eq_true_eq] at control
  omega

theorem scanEscape_control {c : Char} (control : isControl c = true) (tail : List Char) :
    scanEscape ('u' :: '0' :: '0' :: capitalDigit (c.toNat / 16) :: capitalDigit c.toNat :: tail) =
      some (c, tail) := by
  have small := toNat_of_isControl control
  have value : hexValue? 0 ['0', '0', capitalDigit (c.toNat / 16), capitalDigit c.toNat] =
      some c.toNat := by
    have zero : hexDigit? '0' = some 0 := by decide
    have whole : 16 * (16 * (16 * (16 * 0 + 0) + 0) + c.toNat / 16 % 16) + c.toNat % 16 =
        c.toNat := by omega
    simp only [hexValue?, zero, hexDigit?_capitalDigit, whole]
  have valid : c.toNat.isValidChar := c.valid
  simp only [scanEscape, scanCodePoint, List.length_cons, List.take_succ_cons, List.take_zero,
    List.drop_succ_cons, List.drop_zero, value, if_pos valid, Char.ofNat_toNat]
  rw [if_neg (by omega)]

theorem scanEscape_head {e c : Char} {cs tail : List Char}
    (escape : scanEscape (e :: cs) = some (c, tail)) :
    isBlank e = false ∧ e ≠ '\n' ∧ e ≠ '\r' := by
  unfold scanEscape at escape
  split at escape
  all_goals first
    | (rename_i same; cases same; decide)
    | cases escape

/-- A scanner of texts that takes plain characters as they are and reads escapes. -/
structure ReadsEscapes (scan : Nat → Scanner (List Char)) : Prop where
  plain : ∀ fuel c tail, c ≠ '"' → c ≠ '\\' → c ≠ '\n' → isControl c = false →
    scan (fuel + 1) (c :: tail) = prepend c (scan fuel tail)
  escape : ∀ fuel e cs c tail, scanEscape (e :: cs) = some (c, tail) →
    scan (fuel + 1) ('\\' :: e :: cs) = prepend c (scan fuel tail)

theorem scanBasic_readsEscapes : ReadsEscapes scanBasic where
  plain fuel c tail noQuote noBackslash noBreak noControl := by
    have plain : isPlain c = true := by simp [isPlain, noBreak, noControl]
    rw [scanBasic, if_neg noQuote, if_neg noBackslash, if_pos plain]
  escape fuel e cs c tail escape := by
    rw [scanBasic, if_neg (by decide), if_pos rfl, escape]

theorem afterBreak?_eq_none {c : Char} {tail : List Char} (noBreak : c ≠ '\n')
    (noReturn : c ≠ '\r') : afterBreak? (c :: tail) = none := by
  unfold afterBreak?
  split
  · rename_i same
    exact absurd (List.cons.inj same).1 noBreak
  · rename_i same
    exact absurd (List.cons.inj same).1 noReturn
  · rfl

theorem scanLongBasic_readsEscapes : ReadsEscapes scanLongBasic where
  plain fuel c tail noQuote noBackslash noBreak noControl := by
    have plain : isPlain c = true := by simp [isPlain, noBreak, noControl]
    have noReturn : c ≠ '\r' := by
      rintro rfl
      exact absurd noControl (by decide)
    rw [scanLongBasic, if_neg noQuote, if_neg noBackslash,
      afterBreak?_eq_none noBreak noReturn]
    exact if_pos plain
  escape fuel e cs c tail escape := by
    obtain ⟨shown, noBreak, noReturn⟩ := scanEscape_head escape
    have opened : skipBlanks (e :: cs) = e :: cs :=
      List.dropWhile_cons_of_neg (by simp [shown])
    rw [scanLongBasic, if_neg (by decide), if_pos rfl, opened,
      afterBreak?_eq_none noBreak noReturn]
    simp only [escape]

theorem ReadsEscapes.escaped {scan : Nat → Scanner (List Char)} (reads : ReadsEscapes scan)
    {c : Char} (noQuote : c ≠ '"') (fuel : Nat) (tail : List Char) :
    scan (fuel + 1) (escaped c ++ tail) = prepend c (scan fuel tail) := by
  unfold Toml.escaped
  split
  · subst c
    exact reads.escape fuel _ _ _ _ rfl
  split
  · subst c
    exact reads.escape fuel _ _ _ _ rfl
  split
  · subst c
    exact reads.escape fuel _ _ _ _ rfl
  split
  · subst c
    exact reads.escape fuel _ _ _ _ rfl
  split
  · subst c
    exact reads.escape fuel _ _ _ _ rfl
  split
  · subst c
    exact reads.escape fuel _ _ _ _ rfl
  split
  · rename_i control
    exact reads.escape fuel _ _ _ _ (scanEscape_control control tail)
  · rename_i _ _ noBreak _ _ noBackslash noControl
    exact reads.plain fuel c tail noQuote noBackslash noBreak (by simpa using noControl)

theorem escaped_head {c : Char} (noQuote : c ≠ '"') :
    ∃ first more, escaped c = first :: more ∧ first ≠ '"' ∧ first ≠ '\n' ∧ first ≠ '\r' := by
  by_cases special : c = '\n' ∨ c = '\r'
  · rcases special with rfl | rfl <;> exact ⟨'\\', _, rfl, by decide⟩
  · have noBreak := not_or.mp special
    unfold escaped
    repeat' split
    all_goals first
      | exact ⟨'\\', _, rfl, by decide⟩
      | exact ⟨c, [], rfl, noQuote, noBreak⟩

/-! ## One line -/

theorem spellBasic_cons (c : Char) (cs : List Char) :
    spellBasic (c :: cs) = (if c = '"' then ['\\', '"'] else escaped c) ++ spellBasic cs :=
  List.flatMap_cons

theorem spellBasic_head {cs : List Char} (marked : cs ≠ []) :
    ∃ first more, spellBasic cs = first :: more ∧ first ≠ '"' := by
  cases cs with
  | nil => exact absurd rfl marked
  | cons c cs =>
    rw [spellBasic_cons]
    by_cases quote : c = '"'
    · rw [if_pos quote]
      exact ⟨'\\', _, rfl, by decide⟩
    · obtain ⟨first, more, shape, other, _⟩ := escaped_head quote
      rw [if_neg quote, shape]
      exact ⟨first, _, rfl, other⟩

theorem scanBasic_spellBasic (cs rest : List Char) (fuel : Nat)
    (enough : (spellBasic cs).length < fuel) :
    scanBasic fuel (spellBasic cs ++ '"' :: rest) = some (cs, rest) := by
  induction cs generalizing fuel with
  | nil =>
    cases fuel with
    | zero => exact absurd enough (Nat.not_lt_zero _)
    | succ fuel => rfl
  | cons c cs ih =>
    rw [spellBasic_cons] at enough ⊢
    cases fuel with
    | zero => exact absurd enough (Nat.not_lt_zero _)
    | succ fuel =>
      have later : (spellBasic cs).length < fuel →
          prepend c (scanBasic fuel (spellBasic cs ++ '"' :: rest)) = some (c :: cs, rest) := by
        intro left
        rw [ih fuel left]
        rfl
      rw [List.append_assoc]
      rw [List.length_append] at enough
      by_cases quote : c = '"'
      · subst quote
        rw [if_pos rfl] at enough ⊢
        rw [List.cons_append, List.cons_append, List.nil_append]
        rw [scanBasic_readsEscapes.escape fuel '"' (spellBasic cs ++ '"' :: rest) '"' _ rfl]
        exact later (by rw [List.length_cons] at enough; omega)
      · obtain ⟨first, more, shape, _⟩ := escaped_head quote
        rw [if_neg quote] at enough ⊢
        rw [scanBasic_readsEscapes.escaped quote]
        refine later ?_
        rw [shape, List.length_cons] at enough
        omega

theorem scanLiteral_suits {cs : List Char} (suits : suitsLiteral cs = true) (rest : List Char) :
    scanLiteral (cs ++ '\'' :: rest) = some (cs, rest) := by
  induction cs with
  | nil => rfl
  | cons c cs ih =>
    simp only [suitsLiteral, List.all_cons, Bool.and_eq_true, ne_eq, decide_not, Bool.not_eq_true',
      decide_eq_false_iff_not] at suits
    obtain ⟨⟨other, plain⟩, others⟩ := suits
    rw [List.cons_append, scanLiteral, if_neg other, if_pos plain,
      ih (by simpa [suitsLiteral] using others)]
    rfl

/-! ## Several lines -/

/-- A scanner that reads quotes in runs, up to the run that ends the text. -/
def ReadsQuotes (quote : Char) (scan : Nat → Scanner (List Char)) : Prop :=
  ∀ fuel cs, scan (fuel + 1) (quote :: cs) =
    match scanQuotes quote (quote :: cs) with
    | (quotes, true, rest) => some (quotes, rest)
    | (quotes, false, rest) =>
      (scan fuel rest).map fun (text, rest) => (quotes ++ text, rest)

theorem scanLongBasic_readsQuotes : ReadsQuotes '"' scanLongBasic := by
  intro fuel cs
  exact if_pos rfl

theorem scanLongLiteral_readsQuotes : ReadsQuotes '\'' scanLongLiteral := by
  intro fuel cs
  exact if_pos rfl

section Quotes

variable {quote : Char} {scanner : Nat → Scanner (List Char)}

theorem takeWhile_quotes (q : Nat) {rest : List Char} (ends : ∀ c ∈ rest.head?, c ≠ quote) :
    ((List.replicate q quote ++ rest).takeWhile (· = quote)).length = q := by
  induction q with
  | zero =>
    cases rest with
    | nil => rfl
    | cons c rest =>
      have other := ends c rfl
      simp [other]
  | succ q ih => simpa [List.replicate_succ] using ih

/-- A run of fewer than three quotes belongs to the text. -/
theorem ReadsQuotes.run (reads : ReadsQuotes quote scanner) {q : Nat} (few : q < 2) (fuel : Nat)
    {rest : List Char} (ends : ∀ c ∈ rest.head?, c ≠ quote) :
    scanner (fuel + 1) (List.replicate (q + 1) quote ++ rest) =
      (scanner fuel rest).map fun (text, rest) => (List.replicate (q + 1) quote ++ text, rest) := by
  have length := takeWhile_quotes (q + 1) ends
  rw [List.replicate_succ, List.cons_append] at length ⊢
  rw [reads, scanQuotes]
  simp only [length, if_pos (show q + 1 < 3 by omega)]
  have left : (quote :: (List.replicate q quote ++ rest)).drop (q + 1) = rest := by simp
  rw [left, List.replicate_succ]

/-- A run of three to five quotes ends the text, and all but three of them belong to it. -/
theorem ReadsQuotes.close (reads : ReadsQuotes quote scanner) {q : Nat} (few : q ≤ 2) (fuel : Nat)
    {rest : List Char} (ends : ∀ c ∈ rest.head?, c ≠ quote) :
    scanner (fuel + 1) (List.replicate (q + 3) quote ++ rest) =
      some (List.replicate q quote, rest) := by
  have length := takeWhile_quotes (q + 3) ends
  rw [List.replicate_succ, List.cons_append] at length ⊢
  rw [reads, scanQuotes]
  simp only [length, if_neg (show ¬ q + 3 < 3 by omega), Nat.min_eq_left (show q + 3 ≤ 5 by omega)]
  have left : (quote :: (List.replicate (q + 2) quote ++ rest)).drop (q + 3) = rest := by simp
  rw [left, Nat.add_sub_cancel]

/-- A text of several lines as it is written, after so many quotes, with the text that it stands
for. -/
inductive Spells (quote : Char) (scanner : Nat → Scanner (List Char)) :
    Nat → List Char → List Char → Prop where
  | done (q : Nat) (few : q ≤ 2) : Spells quote scanner q [] []
  | quote {q : Nat} {written read : List Char} (few : q < 2)
      (others : Spells quote scanner (q + 1) written read) :
      Spells quote scanner q (quote :: written) (quote :: read)
  | piece {q : Nat} {first c : Char} (more : List Char) {written read : List Char} (few : q ≤ 2)
      (other : first ≠ quote)
      (reads : ∀ fuel tail,
        scanner (fuel + 1) (first :: more ++ tail) = prepend c (scanner fuel tail))
      (others : Spells quote scanner 0 written read) :
      Spells quote scanner q (first :: more ++ written) (c :: read)

theorem Spells.scan {q : Nat} {written read rest : List Char}
    (spells : Spells quote scanner q written read) (reads : ReadsQuotes quote scanner)
    (ends : ∀ c ∈ rest.head?, c ≠ quote) (fuel : Nat) (enough : q + written.length < fuel) :
    scanner fuel (List.replicate q quote ++ (written ++ (List.replicate 3 quote ++ rest))) =
      some (List.replicate q quote ++ read, rest) := by
  induction spells generalizing fuel with
  | done q few =>
    cases fuel with
    | zero => exact absurd enough (Nat.not_lt_zero _)
    | succ fuel =>
      rw [List.nil_append, ← List.append_assoc, List.replicate_append_replicate, List.append_nil]
      exact reads.close few fuel ends
  | @quote q written read few others ih =>
    have shift : ∀ cs : List Char,
        List.replicate q quote ++ quote :: cs = List.replicate (q + 1) quote ++ cs := by
      intro cs
      rw [List.replicate_succ', List.append_assoc]
      rfl
    rw [List.cons_append, shift, shift]
    exact ih fuel (by rw [List.length_cons] at enough; omega)
  | @piece q first c more written read few other piece others ih =>
    have goes : ∀ fuel, written.length < fuel →
        scanner (fuel + 1) (first :: more ++ written ++ (List.replicate 3 quote ++ rest)) =
          some (c :: read, rest) := by
      intro fuel left
      have scanned := ih fuel (by omega)
      rw [List.replicate_zero, List.nil_append, List.nil_append] at scanned
      rw [List.append_assoc, piece, scanned]
      rfl
    have room : q + written.length + 1 < fuel := by
      rw [List.length_append, List.length_cons] at enough
      omega
    cases q with
    | zero =>
      match fuel, room with
      | fuel + 1, room => exact goes fuel (by omega)
    | succ q =>
      match fuel, room with
      | fuel + 2, room =>
        rw [reads.run (by omega) (fuel + 1) (by simpa using other), goes fuel (by omega)]
        rfl

end Quotes

theorem spellLong_spells (cs : List Char) {q : Nat} (few : q ≤ 2) :
    Spells '"' scanLongBasic q (spellLong q cs) cs := by
  have reads := scanLongBasic_readsEscapes
  induction cs generalizing q with
  | nil => exact .done q few
  | cons c cs ih =>
    have later := ih (q := 0) (Nat.zero_le 2)
    unfold spellLong
    split
    · subst c
      split
      · exact .piece ['"'] few (by decide) (fun fuel tail =>
          reads.escape fuel '"' tail '"' tail rfl) later
      · exact .quote (by omega) (ih (by omega))
    · rename_i noQuote
      split
      · subst c
        refine .piece [] few (by decide) ?_ later
        intro fuel tail
        rw [List.singleton_append, scanLongBasic, if_neg (by decide), if_neg (by decide)]
        rfl
      · obtain ⟨first, more, shape, other, _⟩ := escaped_head noQuote
        have escapes := fun fuel tail => reads.escaped noQuote fuel tail
        rw [shape] at escapes ⊢
        exact .piece more few other escapes later

theorem le_longestRun (p : Char → Bool) (run : Nat) (cs : List Char) :
    run ≤ longestRun p run cs := by
  induction cs generalizing run with
  | nil => exact Nat.le_refl _
  | cons c cs ih =>
    unfold longestRun
    split
    · exact Nat.le_trans (Nat.le_succ run) (ih (run + 1))
    · exact Nat.le_max_left _ _

theorem scanLongLiteral_plain {c : Char} (other : c ≠ '\'') (noControl : isControl c = false)
    (fuel : Nat) (tail : List Char) :
    scanLongLiteral (fuel + 1) (c :: tail) = prepend c (scanLongLiteral fuel tail) := by
  rw [scanLongLiteral, if_neg other]
  by_cases atBreak : c = '\n'
  · subst c
    rfl
  · have plain : isPlain c = true := by simp [isPlain, atBreak, noControl]
    have noReturn : c ≠ '\r' := by
      rintro rfl
      exact absurd noControl (by decide)
    rw [afterBreak?_eq_none atBreak noReturn]
    exact if_pos plain

theorem literal_spells (cs : List Char) {q : Nat} (calm : hasControl cs = false)
    (few : longestRun (· = '\'') q cs ≤ 2) : Spells '\'' scanLongLiteral q cs cs := by
  have short := Nat.le_trans (le_longestRun _ q cs) few
  induction cs generalizing q with
  | nil => exact .done q short
  | cons c cs ih =>
    simp only [hasControl, List.any_cons, Bool.or_eq_false_iff] at calm
    obtain ⟨noControl, calm⟩ := calm
    unfold longestRun at few
    by_cases quote : c = '\''
    · subst quote
      rw [if_pos (by decide)] at few
      have next := Nat.le_trans (le_longestRun _ (q + 1) cs) few
      exact .quote next (ih calm few next)
    · rw [if_neg (by simpa using quote)] at few
      have later := Nat.le_trans (Nat.le_max_right _ _) few
      exact .piece [] short quote (scanLongLiteral_plain quote noControl)
        (ih calm later (Nat.zero_le 2))

/-! ## Whole texts -/

theorem scanQuoted_short {cs : List Char} (basic : ∀ more, cs ≠ '"' :: '"' :: '"' :: more)
    (literal : ∀ more, cs ≠ '\'' :: '\'' :: '\'' :: more) : scanQuoted cs = scanShort cs := by
  unfold scanQuoted
  split
  · exact absurd rfl (basic _)
  · exact absurd rfl (literal _)
  · rfl

theorem scanShort_basic (cs rest : List Char) :
    scanShort (enclose ['"'] (spellBasic cs) ++ rest) = some (cs, rest) := by
  have shape : enclose ['"'] (spellBasic cs) ++ rest = '"' :: (spellBasic cs ++ '"' :: rest) := by
    simp [enclose]
  rw [shape]
  exact scanBasic_spellBasic cs rest _ (by rw [List.length_append]; omega)

theorem scanShort_literal {cs : List Char} (suits : suitsLiteral cs = true) (rest : List Char) :
    scanShort (enclose ['\''] cs ++ rest) = some (cs, rest) := by
  have shape : enclose ['\''] cs ++ rest = '\'' :: (cs ++ '\'' :: rest) := by
    simp [enclose]
  rw [shape]
  exact scanLiteral_suits suits rest

/-- A text in single quotes that is not empty and does not begin with the quote does not
open a text of several lines; the empty one does not either unless a quote follows. -/
theorem enclose_ne {quote : Char} {text rest : List Char} (inside : ∀ c ∈ text.head?, c ≠ quote)
    (ends : ∀ c ∈ rest.head?, c ≠ quote) (more : List Char) :
    enclose [quote] text ++ rest ≠ quote :: quote :: quote :: more := by
  intro same
  cases text with
  | nil =>
    have after : rest = quote :: more := by simpa [enclose] using same
    exact ends quote (by rw [after]; rfl) rfl
  | cons c text =>
    have shape : enclose [quote] (c :: text) ++ rest = quote :: c :: (text ++ quote :: rest) := by
      simp [enclose]
    rw [shape] at same
    exact inside c rfl (List.cons.inj (List.cons.inj same).2).1

theorem scanQuoted_basic (cs : List Char) {rest : List Char} (ends : EndsText rest) :
    scanQuoted (enclose ['"'] (spellBasic cs) ++ rest) = some (cs, rest) := by
  have inside : ∀ c ∈ (spellBasic cs).head?, c ≠ '"' := by
    by_cases empty : cs = []
    · subst empty
      nofun
    · obtain ⟨first, more, shape, other⟩ := spellBasic_head empty
      simpa [shape] using other
  rw [scanQuoted_short (enclose_ne inside fun c member => (ends c member).1), scanShort_basic]
  intro more same
  cases same

theorem scanQuoted_literal {cs : List Char} (suits : suitsLiteral cs = true) {rest : List Char}
    (ends : EndsText rest) : scanQuoted (enclose ['\''] cs ++ rest) = some (cs, rest) := by
  have inside : ∀ c ∈ cs.head?, c ≠ '\'' := by
    intro c member
    have each := List.all_eq_true.mp suits c (List.mem_of_mem_head? member)
    simp only [Bool.and_eq_true, decide_eq_true_eq] at each
    exact each.1
  rw [scanQuoted_short ?_ (enclose_ne inside fun c member => (ends c member).2),
    scanShort_literal suits]
  intro more same
  cases same

theorem dropBreak_longStart {cs text : List Char}
    (start : '\n' ∉ cs → ∀ c ∈ text.head?, c ≠ '\n' ∧ c ≠ '\r') :
    dropBreak ((if '\n' ∈ cs then ['\n'] else []) ++ text) = text := by
  by_cases breaks : '\n' ∈ cs
  · rw [if_pos breaks]
    rfl
  · rw [if_neg breaks, List.nil_append, dropBreak]
    cases text with
    | nil => rfl
    | cons c text =>
      obtain ⟨noBreak, noReturn⟩ := start breaks c rfl
      rw [afterBreak?_eq_none noBreak noReturn, Option.getD_none]

theorem scanQuoted_longBasic (cs : List Char) {rest : List Char} (ends : EndsText rest) :
    scanQuoted (spellLongBasic cs ++ rest) = some (cs, rest) := by
  have shape : spellLongBasic cs ++ rest = '"' :: '"' :: '"' ::
      ((if '\n' ∈ cs then ['\n'] else []) ++
        (spellLong 0 cs ++ (List.replicate 3 '"' ++ rest))) := by
    simp [spellLongBasic, longStart, List.replicate]
  have start : '\n' ∉ cs →
      ∀ c ∈ (spellLong 0 cs ++ (List.replicate 3 '"' ++ rest)).head?, c ≠ '\n' ∧ c ≠ '\r' := by
    intro calm c member
    cases cs with
    | nil =>
      cases member
      decide
    | cons d cs =>
      have noBreak : d ≠ '\n' := fun same => calm (same ▸ List.mem_cons_self)
      unfold spellLong at member
      split at member
      · cases member
        decide
      · rename_i noQuote
        obtain ⟨first, more, shape, _, other⟩ := escaped_head noQuote
        rw [shape] at member
        cases member
        exact other
  rw [shape, scanQuoted]
  simp only [dropBreak_longStart start]
  exact (spellLong_spells cs (Nat.zero_le 2)).scan scanLongBasic_readsQuotes
    (fun c member => (ends c member).1) _ (by rw [List.length_append]; omega)

theorem scanQuoted_longLiteral {cs : List Char} (calm : hasControl cs = false)
    (few : longestRun (· = '\'') 0 cs ≤ 2) {rest : List Char} (ends : EndsText rest) :
    scanQuoted (spellLongLiteral cs ++ rest) = some (cs, rest) := by
  have shape : spellLongLiteral cs ++ rest = '\'' :: '\'' :: '\'' ::
      ((if '\n' ∈ cs then ['\n'] else []) ++ (cs ++ (List.replicate 3 '\'' ++ rest))) := by
    simp [spellLongLiteral, longStart, List.replicate]
  have start : '\n' ∉ cs →
      ∀ c ∈ (cs ++ (List.replicate 3 '\'' ++ rest)).head?, c ≠ '\n' ∧ c ≠ '\r' := by
    intro noBreak c member
    cases cs with
    | nil =>
      cases member
      decide
    | cons d cs =>
      cases member
      refine ⟨fun same => noBreak (same ▸ List.mem_cons_self), ?_⟩
      rintro rfl
      simp [hasControl, isControl] at calm
  rw [shape, scanQuoted]
  simp only [dropBreak_longStart start]
  exact (literal_spells cs calm few).scan scanLongLiteral_readsQuotes
    (fun c member => (ends c member).2) _ (by rw [List.length_append]; omega)

/-- Every text is scanned back from its spelling. -/
theorem scanQuoted_spellText (cs : List Char) {rest : List Char} (ends : EndsText rest) :
    scanQuoted (spellText cs ++ rest) = some (cs, rest) := by
  unfold spellText
  split
  · exact scanQuoted_basic cs ends
  split
  · exact scanQuoted_literal ‹_› ends
  split
  · exact scanQuoted_longBasic cs ends
  split
  · rename_i suits
    simp only [Bool.and_eq_true, Bool.not_eq_true', decide_eq_true_eq] at suits
    exact scanQuoted_longLiteral suits.1 suits.2 ends
  split
  · exact scanQuoted_longBasic cs ends
  · exact scanQuoted_basic cs ends

theorem spellText_head (cs : List Char) :
    ∃ quote more, spellText cs = quote :: more ∧ (quote = '"' ∨ quote = '\'') := by
  unfold spellText
  repeat' split
  all_goals first
    | exact ⟨'"', _, rfl, Or.inl rfl⟩
    | exact ⟨'\'', _, rfl, Or.inr rfl⟩

end ProxyConsole.Toml
