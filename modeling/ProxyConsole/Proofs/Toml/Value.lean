import ProxyConsole.Proofs.Toml.Arranged
import ProxyConsole.Proofs.Toml.Float
import ProxyConsole.Proofs.Toml.Line
import ProxyConsole.Proofs.Toml.Outline

/-!
# Written values

Where the text of a value can be read, all of it is read, and as that value with its
tables sorted; only of moments and floating point numbers is it left open which ones
they are read as.
-/

set_option autoImplicit false

namespace ProxyConsole.Toml

/-- What the text of a value begins with. -/
def opensValue (c : Char) : Bool :=
  opensScalar c || opensNumber c || c = '[' || c = '\x7b'

/-- If anything is read of a text, it is all of the text, and a value up to its outline. -/
structure ReadsAs (text : List Char) (u : Toml) : Prop where
  head : ∃ first more, text = first :: more ∧ opensValue first = true
  scan : ∀ {rest : List Char}, EndsMoment rest → ∀ {fuel room : Nat} {v : Toml} {left : List Char},
    scanValue fuel room (text ++ rest) = some (v, left) → left = rest ∧ v.outline = u.outline

section Skipping

variable {c : Char} {cs : List Char}

theorem skipBlanks_value (opens : opensValue c = true) : skipBlanks (c :: cs) = c :: cs := by
  refine skipBlanks_cons ?_
  rw [isBlank, Bool.or_eq_false_iff, decide_eq_false_iff_not, decide_eq_false_iff_not]
  exact ⟨ne_of_opens opens (by decide), ne_of_opens opens (by decide)⟩

theorem skipSpace_value (opens : opensValue c = true) : skipSpace (c :: cs) = c :: cs := by
  refine skipSpace_cons ?_ (ne_of_opens opens (by decide)) (ne_of_opens opens (by decide))
  rw [isBlank, Bool.or_eq_false_iff, decide_eq_false_iff_not, decide_eq_false_iff_not]
  exact ⟨ne_of_opens opens (by decide), ne_of_opens opens (by decide)⟩

theorem noComment_value (opens : opensValue c = true) : ∀ d ∈ (c :: cs).head?, d ≠ '#' := by
  intro d member
  cases member
  exact ne_of_opens opens (by decide)

end Skipping

/-! ## What follows a value -/

theorem endsMoment_cons {c : Char} (ends : c = '\n' ∨ c = ',' ∨ c = ']') (rest : List Char) :
    EndsMoment (c :: rest) := by
  constructor
  · intro d member
    cases member
    rcases ends with rfl | rfl | rfl <;> simp
  · intro d e more same mark
    cases same
    rcases ends with rfl | rfl | rfl <;> cases mark

theorem endsMoment_brace (rest : List Char) : EndsMoment (' ' :: '\x7d' :: rest) := by
  constructor
  · intro d member
    cases member
    simp
  · intro d e more same mark
    cases same
    rfl

/-! ## Scalars -/

theorem readsAs_scalar {text : List Char} {u : Toml}
    (head : ∃ first more, text = first :: more ∧ (opensScalar first || opensNumber first) = true)
    (scan : ∀ {rest}, EndsMoment rest → ∀ {v left}, scanScalar (text ++ rest) = some (v, left) →
      left = rest ∧ v.outline = u.outline) : ReadsAs text u := by
  obtain ⟨first, more, rfl, opens⟩ := head
  refine ⟨⟨first, more, rfl, by simp [opensValue, opens]⟩, ?_⟩
  intro rest ends fuel room v left scanned
  refine scan ends ?_
  cases fuel with
  | zero => cases scanned
  | succ fuel =>
    have noBracket : first ≠ '[' := by
      rintro rfl
      cases opens
    have noBrace : first ≠ '\x7b' := by
      rintro rfl
      cases opens
    rwa [List.cons_append, scanValue, if_neg noBracket, if_neg noBrace] at scanned

theorem Scalar.readsAs {v : Toml} (scalar : Scalar v) : ReadsAs (valueText v) v := by
  obtain ⟨first, more, shape, opens⟩ := scalar.head
  refine readsAs_scalar ⟨first, more, shape, by simp [opens]⟩ fun ends v' left scanned => ?_
  rw [scalar.scan ends.ends] at scanned
  cases scanned
  exact ⟨rfl, rfl⟩

theorem readsAs_float (bits : UInt64) : ReadsAs (valueText (.float bits)) (.float bits) := by
  obtain ⟨first, more, shape, opens⟩ := floatText_head bits
  refine readsAs_scalar ⟨first, more, by rw [valueText, shape], by simp [opens]⟩ ?_
  intro rest ends v left scanned
  rw [valueText] at scanned
  obtain ⟨rfl, bits', rfl⟩ := readsFloat_floatText bits rest v left ends.ends scanned
  exact ⟨rfl, rfl⟩

theorem Moment.Fits.readsAs {m : Moment} (fits : m.Fits) :
    ReadsAs (valueText (.moment m)) (.moment m) := by
  obtain ⟨first, more, shape, digit⟩ := fits.opens
  refine readsAs_scalar ⟨first, more, by rw [valueText, shape], by simp [opensNumber, digit]⟩ ?_
  intro rest ends v left scanned
  rw [valueText] at scanned
  obtain ⟨rfl, m', rfl⟩ := ends.scanScalar fits scanned
  exact ⟨rfl, rfl⟩

/-! ## Arrays -/

section Arrays

variable {text rest left : List Char} {u : Toml} {fuel room : Nat} {items : List Toml}

theorem ReadsAs.scanItems (reads : ReadsAs text u) (ends : EndsMoment rest)
    (scanned : scanItems fuel room (text ++ rest) = some (items, left)) :
    ∃ item, item.outline = u.outline ∧
      ((∃ fuel' more items', skipFiller rest = ',' :: more ∧ items = item :: items' ∧
          Toml.scanItems fuel' room (skipFiller more) = some (items', left)) ∨
        skipFiller rest = ']' :: left ∧ items = [item]) := by
  obtain ⟨first, others, shape, opens⟩ := reads.head
  cases fuel with
  | zero => cases scanned
  | succ fuel =>
    have scan := @reads.scan rest ends fuel room
    rw [shape, List.cons_append] at scanned scan
    rw [Toml.scanItems, if_neg (ne_of_opens opens (by decide))] at scanned
    split at scanned
    · cases scanned
    rename_i item after value
    obtain ⟨rfl, same⟩ := scan value
    refine ⟨item, same, ?_⟩
    split at scanned
    · rename_i more comma
      obtain ⟨⟨items', left'⟩, later, same'⟩ := Option.map_eq_some_iff.mp scanned
      cases same'
      exact .inl ⟨fuel, more, items', comma, rfl, later⟩
    · rename_i bracket
      cases scanned
      exact .inr ⟨bracket, rfl⟩
    · cases scanned

theorem skipFiller_itemLines {item : Toml} {u : Toml} (reads : ReadsAs (valueText item) u)
    (items : List Toml) (rest : List Char) :
    skipFiller (itemLines (item :: items) ++ rest) =
      valueText item ++ ',' :: (itemLines items ++ rest) := by
  obtain ⟨first, others, shape, opens⟩ := reads.head
  have text : itemLines (item :: items) ++ rest =
      '\n' :: ' ' :: ' ' :: ' ' :: ' ' :: (valueText item ++ ',' :: (itemLines items ++ rest)) := by
    rw [itemLines, List.append_assoc]
    rfl
  rw [text, shape, List.cons_append]
  exact skipFiller_eq (skipSpace_value opens) (noComment_value opens)

theorem scanItems_itemLines {sources : List Toml}
    (each : ∀ item ∈ sources, ReadsAs (valueText item) (sorted item))
    (scanned : Toml.scanItems fuel room (skipFiller (itemLines sources ++ '\n' :: ']' :: rest)) =
      some (items, left)) :
    left = rest ∧ items.map outline = sources.map fun item => (sorted item).outline := by
  induction sources generalizing fuel items with
  | nil =>
    have bracket : skipFiller (itemLines [] ++ '\n' :: ']' :: rest) = ']' :: rest :=
      skipFiller_eq rfl (by simp)
    rw [bracket] at scanned
    cases fuel with
    | zero => cases scanned
    | succ fuel =>
      cases scanned
      exact ⟨rfl, rfl⟩
  | cons source sources ih =>
    obtain ⟨reads, others⟩ := List.forall_mem_cons.mp each
    rw [skipFiller_itemLines reads] at scanned
    have comma : ∀ more, skipFiller (',' :: more) = ',' :: more := fun more =>
      skipFiller_eq rfl (by simp)
    obtain ⟨item, same, ⟨fuel', more, items', whole, rfl, later⟩ | ⟨whole, _⟩⟩ :=
      reads.scanItems (endsMoment_cons (.inr (.inl rfl)) _) scanned
    · rw [comma] at whole
      cases whole
      obtain ⟨rfl, same'⟩ := ih others later
      exact ⟨rfl, by rw [List.map_cons, List.map_cons, same, same']⟩
    · rw [comma] at whole
      cases whole

end Arrays

/-! ## Pairs -/

/-- The pairs that entries are written as. -/
def pairsOf (entries : List (String × Toml)) : List Pair :=
  entries.map fun e => ⟨⟨[], e.1⟩, e.2⟩

def valueSlot (e : String × Toml) : String × Slot :=
  (e.1, .value e.2)

theorem lookup_eq_none {α : Type} {key : String} {entries : List (String × α)}
    (fresh : key ∉ entries.map Prod.fst) : entries.lookup key = none := by
  rw [List.lookup_eq_none_iff]
  intro e member
  rw [bne_iff_ne]
  rintro rfl
  exact fresh (List.mem_map_of_mem member)

theorem putSlot_fresh {key : String} (slot : Slot) {slots : Slots}
    (fresh : key ∉ slots.map Prod.fst) : putSlot key slot slots = slots ++ [(key, slot)] := by
  induction slots with
  | nil => rfl
  | cons s slots ih =>
    rw [List.map_cons, List.mem_cons, not_or] at fresh
    rw [putSlot, if_neg (Ne.symm fresh.1), ih fresh.2]
    rfl

theorem addPairs_fresh (entries : List (String × Toml)) (slots : Slots)
    (distinct : (slots.map Prod.fst ++ entries.map Prod.fst).Nodup) :
    addPairs slots (pairsOf entries) = some (slots ++ entries.map valueSlot) := by
  induction entries generalizing slots with
  | nil => rw [pairsOf, List.map_nil, addPairs, List.map_nil, List.append_nil]
  | cons e entries ih =>
    have fresh : e.1 ∉ slots.map Prod.fst := fun member =>
      (List.nodup_append.mp distinct).2.2 e.1 member e.1 List.mem_cons_self rfl
    have added : addPair slots ⟨⟨[], e.1⟩, e.2⟩ = some (slots ++ [valueSlot e]) := by
      simp [addPair, changeAt, setKey, lookup_eq_none fresh, valueSlot]
    have later := ih (slots ++ [valueSlot e]) (by
      simpa [valueSlot] using distinct)
    rw [pairsOf, List.map_cons, addPairs, added, Option.bind_some]
    rw [pairsOf] at later
    rw [later, List.append_assoc]
    rfl

/-! ## Tables within braces -/

/-- Entries whose values are sorted. -/
def sortedValues (entries : List (String × Toml)) : List (String × Toml) :=
  entries.map fun e => (e.1, sorted e.2)

section Braces

variable {text rest left : List Char} {u : Toml} {fuel room : Nat} {pairs : List Pair}

theorem scanPath_key (key : String) (more : List Char) {front : List Char}
    (blank : front = [] ∨ front = [' ']) :
    scanPath (front ++ (spellKey key ++ ' ' :: '=' :: ' ' :: more)) =
      some (⟨[], key⟩, '=' :: ' ' :: more) := by
  have assign : skipBlanks (' ' :: '=' :: ' ' :: more) = '=' :: ' ' :: more := rfl
  have keys : ∀ fuel, 0 < fuel → scanKeys fuel (spellKey key ++ ' ' :: '=' :: ' ' :: more) =
      some ([key], '=' :: ' ' :: more) := by
    intro fuel enough
    have scanned := @scanKeys_spellPath key [] (' ' :: '=' :: ' ' :: more)
      (by intro c member; cases member; decide) (by intro c member; cases member; decide) fuel
      enough
    rwa [spellPath_single, assign] at scanned
  have skipped : ∀ fuel cs, scanKeys fuel (front ++ cs) = scanKeys fuel cs := by
    intro fuel cs
    rcases blank with rfl | rfl
    · rfl
    · cases fuel with
      | zero => rfl
      | succ fuel => rfl
  rw [scanPath, skipped, keys _ (Nat.succ_pos _)]
  rfl

theorem ReadsAs.scanPairs (reads : ReadsAs text u) (ends : EndsMoment rest) {key : String}
    {front : List Char} (blank : front = [] ∨ front = [' '])
    (scanned : scanPairs fuel room (front ++ (pairText key text ++ rest)) = some (pairs, left)) :
    ∃ v, v.outline = u.outline ∧
      ((∃ fuel' more pairs', skipBlanks rest = ',' :: more ∧ pairs = ⟨⟨[], key⟩, v⟩ :: pairs' ∧
          Toml.scanPairs fuel' room more = some (pairs', left)) ∨
        skipBlanks rest = '\x7d' :: left ∧ pairs = [⟨⟨[], key⟩, v⟩]) := by
  cases fuel with
  | zero => cases scanned
  | succ fuel =>
    obtain ⟨first, others, shape, opens⟩ := reads.head
    have scan := @reads.scan rest ends fuel room
    have blanks : skipBlanks (' ' :: (text ++ rest)) = text ++ rest := by
      rw [shape]
      exact skipBlanks_value opens
    have whole : pairText key text ++ rest =
      spellKey key ++ ' ' :: '=' :: ' ' :: (text ++ rest) := by
      simp [pairText]
    rw [whole, Toml.scanPairs, scanPath_key key _ blank] at scanned
    simp only [blanks] at scanned
    split at scanned
    · cases scanned
    rename_i v after value
    obtain ⟨rfl, same⟩ := scan value
    refine ⟨v, same, ?_⟩
    split at scanned
    · rename_i more comma
      obtain ⟨⟨pairs', left'⟩, later, same'⟩ := Option.map_eq_some_iff.mp scanned
      cases same'
      exact .inl ⟨fuel, more, pairs', comma, rfl, later⟩
    · rename_i brace
      cases scanned
      exact .inr ⟨brace, rfl⟩
    · cases scanned

theorem scanPairs_entries {entries : List (String × Toml)}
    (each : ∀ e ∈ entries, ReadsAs (valueText e.2) (sorted e.2)) {key : String} {v : Toml}
    (reads : ReadsAs (valueText v) (sorted v)) {front : List Char}
    (blank : front = [] ∨ front = [' '])
    (scanned : Toml.scanPairs fuel room
      (front ++ (pairText key (valueText v) ++ (moreEntries entries ++ rest))) =
      some (pairs, left)) :
    left = rest ∧ pairs.map Pair.outline =
      (pairsOf (sortedValues ((key, v) :: entries))).map Pair.outline := by
  induction entries generalizing key v front fuel pairs with
  | nil =>
    obtain ⟨v', same, ⟨_, more, _, whole, _⟩ | ⟨whole, rfl⟩⟩ :=
      reads.scanPairs (endsMoment_brace rest) blank scanned
    · cases whole
    · cases whole
      exact ⟨rfl, by simp [pairsOf, sortedValues, Pair.outline, same]⟩
  | cons e entries ih =>
    obtain ⟨first, others⟩ := List.forall_mem_cons.mp each
    obtain ⟨key', value⟩ := e
    have more : moreEntries ((key', value) :: entries) ++ rest =
        ',' :: ([' '] ++ (pairText key' (valueText value) ++ (moreEntries entries ++ rest))) := by
      rw [moreEntries, List.cons_append, List.cons_append, List.append_assoc]
      rfl
    rw [more] at scanned
    obtain ⟨v', same, ⟨fuel', more', pairs', whole, rfl, later⟩ | ⟨whole, _⟩⟩ :=
      reads.scanPairs (endsMoment_cons (.inr (.inl rfl)) _) blank scanned
    · cases whole
      obtain ⟨rfl, same'⟩ := ih others first (.inr rfl) later
      refine ⟨rfl, ?_⟩
      rw [List.map_cons, same']
      simp [pairsOf, sortedValues, Pair.outline, same]
    · cases whole

theorem entriesOf_sortedValues (entries : List (String × Toml)) :
    entriesOf ((sortedValues entries).map valueSlot) = sortedEntries entries := by
  induction entries with
  | nil => rfl
  | cons e entries ih =>
    rw [sortedValues, List.map_cons, List.map_cons, valueSlot, entriesOf, ← sortedValues, ih]
    rfl

theorem addPairs_sortedValues {entries : List (String × Toml)}
    (distinct : (entries.map Prod.fst).Nodup) :
    addPairs [] (pairsOf (sortedValues entries)) = some ((sortedValues entries).map valueSlot) := by
  refine addPairs_fresh _ [] ?_
  rw [sortedValues, List.map_map]
  exact distinct

theorem tableOfPairs?_sorted {entries : List (String × Toml)}
    (distinct : (entries.map Prod.fst).Nodup)
    (same : pairs.map Pair.outline = (pairsOf (sortedValues entries)).map Pair.outline) {t : Toml}
    (made : tableOfPairs? pairs = some t) : t.outline = (sorted (.table entries)).outline := by
  have outlines := tableOfPairs?_outline pairs
  rw [same, tableOfPairs?_outline, tableOfPairs?, addPairs_sortedValues distinct, made] at outlines
  simp only [Option.map_some, Option.some.injEq, entriesOf_sortedValues] at outlines
  rw [← outlines, sorted]

end Braces

/-! ## Values -/

theorem readsAs_array {text : List Char} {sources : List Toml}
    (scan : ∀ {rest fuel room items left}, EndsMoment rest →
      scanItems fuel room (skipFiller (text ++ rest)) = some (items, left) →
      left = rest ∧ items.map outline = sources.map fun item => (sorted item).outline) :
    ReadsAs ('[' :: text) (sorted (.array sources)) := by
  refine ⟨⟨'[', text, rfl, rfl⟩, fun {rest} ends {fuel room v left} scanned => ?_⟩
  cases fuel with
  | zero => cases scanned
  | succ fuel =>
    rw [List.cons_append, scanValue, if_pos rfl] at scanned
    split at scanned
    · cases scanned
    · obtain ⟨⟨items, left'⟩, inner, same⟩ := Option.map_eq_some_iff.mp scanned
      cases same
      obtain ⟨rfl, same⟩ := scan ends inner
      refine ⟨rfl, ?_⟩
      rw [sorted, outline, outline, outlineItems_eq_map, outlineItems_eq_map, sortedItems_eq_map,
        List.map_map, same]
      rfl

theorem readsAs_emptyArray : ReadsAs (valueText (.array [])) (sorted (.array [])) := by
  rw [valueText]
  refine readsAs_array fun {rest fuel room items left} _ scanned => ?_
  have bracket : skipFiller (']' :: rest) = ']' :: rest := skipFiller_eq rfl (by simp)
  rw [List.singleton_append, bracket] at scanned
  cases fuel with
  | zero => cases scanned
  | succ fuel =>
    cases scanned
    exact ⟨rfl, rfl⟩

theorem readsAs_singleton {item : Toml} (reads : ReadsAs (valueText item) (sorted item)) :
    ReadsAs (valueText (.array [item])) (sorted (.array [item])) := by
  rw [valueText]
  refine readsAs_array fun {rest fuel room items left} _ scanned => ?_
  obtain ⟨first, others, shape, opens⟩ := reads.head
  have filler : skipFiller (valueText item ++ [']'] ++ rest) = valueText item ++ ']' :: rest := by
    rw [shape]
    exact skipFiller_eq (by simpa using skipSpace_value opens) (noComment_value opens)
  have bracket : skipFiller (']' :: rest) = ']' :: rest := skipFiller_eq rfl (by simp)
  rw [filler] at scanned
  obtain ⟨item', same, ⟨_, _, _, whole, _⟩ | ⟨whole, rfl⟩⟩ :=
    reads.scanItems (endsMoment_cons (.inr (.inr rfl)) rest) scanned
  · rw [bracket] at whole
    cases whole
  · rw [bracket] at whole
    cases whole
    exact ⟨rfl, by rw [List.map_singleton, List.map_singleton, same]⟩

theorem readsAs_items {item item' : Toml} {items : List Toml}
    (each : ∀ i ∈ item :: item' :: items, ReadsAs (valueText i) (sorted i)) :
    ReadsAs (valueText (.array (item :: item' :: items)))
      (sorted (.array (item :: item' :: items))) := by
  rw [valueText]
  · refine readsAs_array fun {rest fuel room items left} _ scanned => ?_
    rw [List.append_assoc] at scanned
    exact scanItems_itemLines each scanned
  all_goals simp

theorem readsAs_table {entries : List (String × Toml)} (distinct : (entries.map Prod.fst).Nodup)
    (each : ∀ e ∈ entries, ReadsAs (valueText e.2) (sorted e.2)) :
    ReadsAs (valueText (.table entries)) (sorted (.table entries)) := by
  cases entries with
  | nil =>
    rw [valueText]
    refine ⟨⟨'\x7b', ['\x7d'], rfl, rfl⟩, fun {rest} ends {fuel room v left} scanned => ?_⟩
    cases fuel with
    | zero => cases scanned
    | succ fuel =>
      rw [List.cons_append, scanValue, if_neg (by decide), if_pos rfl] at scanned
      split at scanned
      · cases scanned
      · cases scanned
        exact ⟨rfl, rfl⟩
  | cons e entries =>
    obtain ⟨key, v⟩ := e
    obtain ⟨first, others⟩ := List.forall_mem_cons.mp each
    rw [valueText]
    refine ⟨⟨'\x7b', _, rfl, rfl⟩, fun {rest} ends {fuel room t left} scanned => ?_⟩
    cases fuel with
    | zero => cases scanned
    | succ fuel =>
      obtain ⟨c, more, shape, opens⟩ := spellKey_head key
      have blanks : skipBlanks (' ' :: (pairText key (valueText v) ++ moreEntries entries) ++
          rest) = [] ++ (pairText key (valueText v) ++ (moreEntries entries ++ rest)) := by
        rw [List.nil_append, ← List.append_assoc, pairText, shape]
        exact skipBlanks_cons (not_isBlank opens)
      rw [List.cons_append, scanValue, if_neg (by decide), if_pos rfl, blanks] at scanned
      split at scanned
      · cases scanned
      split at scanned
      · rename_i same
        rw [pairText, shape] at same
        exact absurd (List.cons.inj same).1 (ne_of_opens opens (by decide))
      · split at scanned
        · cases scanned
        · rename_i pairs after inner
          obtain ⟨t', made, same⟩ := Option.map_eq_some_iff.mp scanned
          cases same
          obtain ⟨rfl, same⟩ := scanPairs_entries others first (.inl rfl) inner
          exact ⟨rfl, tableOfPairs?_sorted distinct same made⟩

/-- A value that can be written is read as that value, sorted. -/
theorem Writable.readsAs {v : Toml} (writable : Writable List.Nodup v) :
    ReadsAs (valueText v) (Toml.sorted v) := by
  induction writable with
  | string s => exact (Scalar.string s).readsAs
  | integer fits => exact (Scalar.integer _ fits).readsAs
  | float bits => exact readsAs_float bits
  | bool b => exact (Scalar.bool b).readsAs
  | moment fits => exact fits.readsAs
  | @array items _ ih =>
    rcases items with _ | ⟨item, _ | ⟨item', items⟩⟩
    · exact readsAs_emptyArray
    · exact readsAs_singleton (ih item List.mem_cons_self)
    · exact readsAs_items ih
  | table keys _ ih => exact readsAs_table keys ih

end ProxyConsole.Toml
