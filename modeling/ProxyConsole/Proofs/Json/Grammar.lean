import ProxyConsole.Proofs.Json.NumeralShape
import ProxyConsole.Proofs.Json.Pieces
import ProxyConsole.Proofs.Json.Pretty

/-!
# The grammar of texts

The texts of a tree are its tokens with blanks in front of any of them.  Every text of a
tree is scanned to that tree, and what is scanned without a fault is a text of the tree
that it is scanned to.  So a reader can tell two texts apart only if they are texts of
different trees.
-/

set_option autoImplicit false

namespace ProxyConsole.Json

/-- A key with its colon. -/
inductive KeyText : Literal → List UInt8 → Prop where
  | space {b : UInt8} {key : Literal} {text : List UInt8} (blank : isSpace b = true)
      (later : KeyText key text) : KeyText key (b :: text)
  | pieces (pieces : List Piece) {gap : List UInt8} (blank : Blank gap) :
      KeyText (.ofPieces pieces) (0x22 :: (piecesBytes pieces ++ 0x22 :: (gap ++ [0x3A])))

mutual

/-- A text of one value, which may begin with blanks. -/
inductive ValueText : Node → List UInt8 → Prop where
  | space {b : UInt8} {node : Node} {text : List UInt8} (blank : isSpace b = true)
      (later : ValueText node text) : ValueText node (b :: text)
  | null : ValueText .null [0x6E, 0x75, 0x6C, 0x6C]
  | yes : ValueText (.bool true) [0x74, 0x72, 0x75, 0x65]
  | no : ValueText (.bool false) [0x66, 0x61, 0x6C, 0x73, 0x65]
  | number {text : List UInt8} (shape : NumeralShape text) :
      ValueText (.number ⟨readNumeral text, none⟩) text
  | string (pieces : List Piece) :
      ValueText (.string (.ofPieces pieces)) (0x22 :: (piecesBytes pieces ++ [0x22]))
  | array {items : List Node} {text : List UInt8} (each : ItemsText true items text) :
      ValueText (.array items none) (0x5B :: text)
  | object {members : List (Literal × Node)} {text : List UInt8}
      (each : MembersText true members text) : ValueText (.object members none) (0x7B :: text)

/-- A text of items up to the closing bracket, the first of which has a comma in front of it
unless the array begins with it. -/
inductive ItemsText : Bool → List Node → List UInt8 → Prop where
  | space {b : UInt8} {first : Bool} {items : List Node} {text : List UInt8}
      (blank : isSpace b = true) (later : ItemsText first items text) :
      ItemsText first items (b :: text)
  | close (first : Bool) : ItemsText first [] [0x5D]
  | first {item : Node} {items : List Node} {text more : List UInt8} (value : ValueText item text)
      (others : ItemsText false items more) : ItemsText true (item :: items) (text ++ more)
  | next {item : Node} {items : List Node} {text more : List UInt8} (value : ValueText item text)
      (others : ItemsText false items more) :
      ItemsText false (item :: items) (0x2C :: (text ++ more))

/-- A text of members up to the closing brace. -/
inductive MembersText : Bool → List (Literal × Node) → List UInt8 → Prop where
  | space {b : UInt8} {first : Bool} {members : List (Literal × Node)} {text : List UInt8}
      (blank : isSpace b = true) (later : MembersText first members text) :
      MembersText first members (b :: text)
  | close (first : Bool) : MembersText first [] [0x7D]
  | first {key : Literal} {value : Node} {members : List (Literal × Node)}
      {label text more : List UInt8} (name : KeyText key label) (content : ValueText value text)
      (others : MembersText false members more) :
      MembersText true ((key, value) :: members) (label ++ (text ++ more))
  | next {key : Literal} {value : Node} {members : List (Literal × Node)}
      {label text more : List UInt8} (name : KeyText key label) (content : ValueText value text)
      (others : MembersText false members more) :
      MembersText false ((key, value) :: members) (0x2C :: (label ++ (text ++ more)))

end

/-! ## Blanks and first bytes -/

theorem skipSpace_space {b : UInt8} (blank : isSpace b = true) (rest : List UInt8) :
    skipSpace (b :: rest) = skipSpace rest :=
  List.dropWhile_cons_of_pos blank

theorem skipSpace_other {b : UInt8} (other : isSpace b = false) (rest : List UInt8) :
    skipSpace (b :: rest) = b :: rest :=
  List.dropWhile_cons_of_neg (by simp [other])

theorem skipSpace_front (bytes : List UInt8) : ∃ gap, Blank gap ∧ bytes = gap ++ skipSpace bytes :=
  ⟨bytes.takeWhile isSpace, fun _ member => List.mem_takeWhile_imp member,
    List.takeWhile_append_dropWhile.symm⟩

theorem scanValue_skipSpace (fuel : Nat) (bytes : List UInt8) :
    scanValue fuel (skipSpace bytes) = scanValue fuel bytes := by
  obtain ⟨gap, blank, whole⟩ := skipSpace_front bytes
  conv => rhs; rw [whole, blank.scanValue]

theorem skipSpace_shown {text : List UInt8} {b : UInt8} {tail : List UInt8}
    (whole : text = b :: tail) (other : isSpace b = false) (rest : List UInt8) :
    skipSpace (text ++ rest) = b :: (tail ++ rest) := by
  rw [whole, List.cons_append, skipSpace_other other]

theorem isSpace_of_isSignOrDigit {b : UInt8} (numeral : isSignOrDigit b = true) :
    isSpace b = false := by
  have shown : skipSpace [b] = [b] := skipSpace_cons (printable_of_isSignOrDigit numeral)
  cases blank : isSpace b with
  | false => rfl
  | true =>
    rw [skipSpace_space blank] at shown
    cases shown

theorem NumeralShape.head {text : List UInt8} (shape : NumeralShape text) :
    ∃ b tail, text = b :: tail ∧ isSignOrDigit b = true := by
  have marked : ∀ b tail, isDigit b = true → ∃ b' tail', b :: tail = b' :: tail' ∧
    isSignOrDigit b' = true :=
    fun b tail digit => ⟨b, tail, rfl, by rw [isSignOrDigit, digit, Bool.or_true]⟩
  cases shape with
  | parts signed before =>
    rcases signed with rfl | rfl
    · cases before with
      | zero => exact marked _ _ rfl
      | positive digit => exact marked _ _ digit
    · exact ⟨0x2D, _, rfl, rfl⟩

/-- After its blanks a text of a value begins with some byte other than a closing bracket. -/
theorem ValueText.head {node : Node} {text : List UInt8} (stands : ValueText node text) :
    ∃ b tail, (∀ rest, skipSpace (text ++ rest) = b :: (tail ++ rest)) ∧ b ≠ 0x5D := by
  have shown : ∀ b tail, isSpace b = false → b ≠ 0x5D → ∃ b' tail',
      (∀ rest, skipSpace (b :: tail ++ rest) = b' :: (tail' ++ rest)) ∧ b' ≠ 0x5D :=
    fun b tail other unclosed => ⟨b, tail, skipSpace_shown rfl other, unclosed⟩
  match stands with
  | .space blank later =>
    obtain ⟨b, tail, found, unclosed⟩ := later.head
    exact ⟨b, tail, fun rest => (skipSpace_space blank _).trans (found rest), unclosed⟩
  | .null | .yes | .no | .string _ | .array _ | .object _ =>
    exact shown _ _ (by decide) (by decide)
  | .number shape =>
    obtain ⟨b, tail, rfl, numeral⟩ := shape.head
    refine shown b tail (isSpace_of_isSignOrDigit numeral) ?_
    rintro rfl
    cases numeral

theorem KeyText.head {key : Literal} {text : List UInt8} (stands : KeyText key text) :
    ∃ tail, ∀ rest, skipSpace (text ++ rest) = 0x22 :: (tail ++ rest) := by
  induction stands with
  | space blank _ ih =>
    obtain ⟨tail, found⟩ := ih
    exact ⟨tail, fun rest => (skipSpace_space blank _).trans (found rest)⟩
  | pieces => exact ⟨_, skipSpace_shown rfl (by decide)⟩

theorem ends_of_space {b : UInt8} (blank : isSpace b = true) (rest : List UInt8) :
    EndsNumeral (b :: rest) := by
  intro b' same
  cases same
  simp only [isSpace, Bool.or_eq_true, beq_iff_eq] at blank
  rcases blank with ((rfl | rfl) | rfl) | rfl <;> decide

theorem ItemsText.ends {items : List Node} {text : List UInt8} (stands : ItemsText false items text)
    (rest : List UInt8) : EndsNumeral (text ++ rest) := by
  cases stands with
  | space blank => exact ends_of_space blank _
  | close =>
    intro b same
    cases same
    decide
  | next => exact ends_comma _

theorem MembersText.ends {members : List (Literal × Node)} {text : List UInt8}
    (stands : MembersText false members text) (rest : List UInt8) : EndsNumeral (text ++ rest) := by
  cases stands with
  | space blank => exact ends_of_space blank _
  | close =>
    intro b same
    cases same
    decide
  | next => exact ends_comma _

theorem ItemsText.marked {first : Bool} {items : List Node} {text : List UInt8}
    (stands : ItemsText first items text) : 0 < text.length := by
  match stands with
  | .space .. | .close _ | .next .. => exact Nat.zero_lt_succ _
  | .first _ others =>
    have later := others.marked
    rw [List.length_append]
    omega

theorem MembersText.marked {first : Bool} {members : List (Literal × Node)} {text : List UInt8}
    (stands : MembersText first members text) : 0 < text.length := by
  match stands with
  | .space .. | .close _ | .next .. => exact Nat.zero_lt_succ _
  | .first _ _ others =>
    have later := others.marked
    simp only [List.length_append]
    omega

theorem ValueText.marked {node : Node} {text : List UInt8} (stands : ValueText node text) :
    0 < text.length := by
  obtain ⟨b, tail, found, _⟩ := stands.head
  cases text with
  | nil => cases found []
  | cons => exact Nat.zero_lt_succ _

theorem KeyText.flawless {key : Literal} {text : List UInt8} (stands : KeyText key text) :
    key.flaw = none := by
  induction stands with
  | space _ _ ih => exact ih
  | pieces => rfl

theorem KeyText.long {key : Literal} {text : List UInt8} (stands : KeyText key text) :
    2 ≤ text.length := by
  induction stands with
  | space _ _ ih => exact Nat.le_succ_of_le ih
  | pieces =>
    simp only [List.length_cons, List.length_append]
    omega

/-! ## Scanning the text of a tree -/

theorem blank_singleton {b : UInt8} (blank : isSpace b = true) : Blank [b] :=
  List.forall_mem_singleton.mpr blank

theorem KeyText.scanMember {key : Literal} {label text more rest : List UInt8} {value : Node}
    {members : List (Literal × Node)} {ending : Option Fault} {fuel : Nat}
    (name : KeyText key label)
    (scanned : scanValue fuel text = (value, more))
    (list : scanMembers fuel false more = (members, ending, rest)) :
    Json.scanMember (fuel + 1) (Json.skipSpace (label ++ text)) =
      ((key, value) :: members, ending, rest) := by
  induction name with
  | space blank _ ih =>
    rw [List.cons_append, skipSpace_space blank]
    exact ih
  | pieces pieces blank =>
    rw [skipSpace_shown rfl (by decide)]
    have literal := scanLiteral_pieces pieces
    simp only [List.append_assoc, List.cons_append, List.nil_append, Json.scanMember, literal,
      blank.skipSpace, skipSpace_other (b := 0x3A) (by decide), scanned, list]

mutual

theorem ValueText.scan {node : Node} {text : List UInt8} (stands : ValueText node text) {fuel : Nat}
    (enough : 2 * text.length ≤ fuel) {rest : List UInt8} (ends : EndsNumeral rest) :
    scanValue fuel (text ++ rest) = (node, rest) := by
  have marked := stands.marked
  match fuel, stands with
  | 0, _ => omega
  | fuel + 1, .space blank later =>
    rw [List.length_cons] at enough
    exact ((blank_singleton blank).scanValue _ _).trans (later.scan (by omega) ends)
  | fuel + 1, .null => rfl
  | fuel + 1, .yes => rfl
  | fuel + 1, .no => rfl
  | fuel + 1, .number shape =>
    obtain ⟨b, tail, rfl, numeral⟩ := shape.head
    have scanned := shape.scan ends
    rw [List.cons_append] at scanned ⊢
    rw [scanValue_numeral numeral, scanned]
  | fuel + 1, .string pieces =>
    have literal := scanLiteral_pieces pieces rest
    rw [List.cons_append, List.append_assoc, scanValue, skipSpace_cons (by decide)]
    simp only [List.singleton_append, literal]
  | fuel + 1, .array each =>
    rw [List.length_cons] at enough
    rw [List.cons_append, scanValue, skipSpace_cons (by decide)]
    simp only [each.scan (by omega : _ ≤ fuel) rest]
  | fuel + 1, .object each =>
    rw [List.length_cons] at enough
    rw [List.cons_append, scanValue, skipSpace_cons (by decide)]
    simp only [each.scan (by omega : _ ≤ fuel) rest]

theorem ItemsText.scan {first : Bool} {items : List Node} {text : List UInt8}
    (stands : ItemsText first items text) {fuel : Nat} (enough : 2 * text.length ≤ fuel)
    (rest : List UInt8) : scanItems fuel first (text ++ rest) = (items, none, rest) := by
  have marked := stands.marked
  match fuel, stands with
  | 0, _ => omega
  | fuel + 1, .space blank later =>
    rw [List.length_cons] at enough
    exact ((blank_singleton blank).scanItems _ _ _).trans (later.scan (by omega) rest)
  | fuel + 1, .close _ => rfl
  | fuel + 1, .first value others =>
    rw [List.length_append] at enough
    have positive := value.marked
    have positive' := others.marked
    obtain ⟨b, tail, found, unclosed⟩ := value.head
    have scanned := value.scan (by omega : _ ≤ fuel) (others.ends rest)
    have list := others.scan (by omega : _ ≤ fuel) rest
    rw [← scanValue_skipSpace, found] at scanned
    rw [List.append_assoc, scanItems, found]
    simp [scanned, list]
  | fuel + 1, .next value others =>
    simp only [List.length_cons, List.length_append] at enough
    have scanned := value.scan (by omega : _ ≤ fuel) (others.ends rest)
    have list := others.scan (by omega : _ ≤ fuel) rest
    rw [List.cons_append, List.append_assoc, scanItems, skipSpace_cons (by decide)]
    simp [scanned, list]

theorem MembersText.scan {first : Bool} {members : List (Literal × Node)} {text : List UInt8}
    (stands : MembersText first members text) {fuel : Nat} (enough : 2 * text.length ≤ fuel)
    (rest : List UInt8) : scanMembers fuel first (text ++ rest) = (members, none, rest) := by
  have marked := stands.marked
  match fuel, stands with
  | 0, _ => omega
  | fuel + 1, .space blank later =>
    rw [List.length_cons] at enough
    exact ((blank_singleton blank).scanMembers _ _ _).trans (later.scan (by omega) rest)
  | fuel + 1, .close _ => rfl
  | fuel + 2, .first name content others =>
    simp only [List.length_append] at enough
    have long := name.long
    have scanned := content.scan (by omega : _ ≤ fuel) (others.ends rest)
    have list := others.scan (by omega : _ ≤ fuel) rest
    obtain ⟨tail, found⟩ := name.head
    have entry := name.scanMember scanned list
    rw [found] at entry
    rw [List.append_assoc, List.append_assoc, scanMembers, found]
    simpa using entry
  | fuel + 2, .next name content others =>
    simp only [List.length_cons, List.length_append] at enough
    have scanned := content.scan (by omega : _ ≤ fuel) (others.ends rest)
    have list := others.scan (by omega : _ ≤ fuel) rest
    rw [List.cons_append, List.append_assoc, List.append_assoc, scanMembers_comma]
    exact name.scanMember scanned list
  | 1, .first name _ _ | 1, .next name _ _ =>
    have long := name.long
    simp only [List.length_cons, List.length_append] at enough
    omega

end

mutual

/-- What has a text is well formed, however deep it is nested. -/
theorem ValueText.passOver {node : Node} {text : List UInt8} :
    ValueText node text → node.passOver = .ok ()
  | .space _ later => later.passOver
  | .null | .yes | .no => rfl
  | .number _ | .string _ => rfl
  | .array each => by
    rw [Node.passOver, each.passOver]
    rfl
  | .object each => by
    rw [Node.passOver, each.passOver]
    rfl

theorem ItemsText.passOver {first : Bool} {items : List Node} {text : List UInt8} :
    ItemsText first items text → passOverItems items = .ok ()
  | .space _ later => later.passOver
  | .close _ => rfl
  | .first value others | .next value others => by
    rw [passOverItems, value.passOver]
    exact others.passOver

theorem MembersText.passOver {first : Bool} {members : List (Literal × Node)} {text : List UInt8} :
    MembersText first members text → passOverMembers members = .ok ()
  | .space _ later => later.passOver
  | .close _ => rfl
  | .first name content others | .next name content others => by
    rw [passOverMembers, name.flawless, content.passOver]
    exact others.passOver

end

/-! ## The tree of a text that is scanned -/

theorem ValueText.spaced {gap text : List UInt8} {node : Node} (stands : ValueText node text)
    (blank : Blank gap) : ValueText node (gap ++ text) := by
  induction gap with
  | nil => exact stands
  | cons b gap ih =>
    obtain ⟨space, later⟩ := List.forall_mem_cons.mp blank
    exact .space space (ih later)

theorem ItemsText.spaced {first : Bool} {gap text : List UInt8} {items : List Node}
    (stands : ItemsText first items text) (blank : Blank gap) :
    ItemsText first items (gap ++ text) := by
  induction gap with
  | nil => exact stands
  | cons b gap ih =>
    obtain ⟨space, later⟩ := List.forall_mem_cons.mp blank
    exact .space space (ih later)

theorem MembersText.spaced {first : Bool} {gap text : List UInt8} {members : List (Literal × Node)}
    (stands : MembersText first members text) (blank : Blank gap) :
    MembersText first members (gap ++ text) := by
  induction gap with
  | nil => exact stands
  | cons b gap ih =>
    obtain ⟨space, later⟩ := List.forall_mem_cons.mp blank
    exact .space space (ih later)

theorem KeyText.spaced {gap text : List UInt8} {key : Literal} (stands : KeyText key text)
    (blank : Blank gap) : KeyText key (gap ++ text) := by
  induction gap with
  | nil => exact stands
  | cons b gap ih =>
    obtain ⟨space, later⟩ := List.forall_mem_cons.mp blank
    exact .space space (ih later)

/-- All that scanning the items of an array can do: it stops at a fault and leaves nothing,
it gets to the closing bracket, or it scans one more item. -/
theorem scanItems_cases {fuel : Nat} {first : Bool} {bytes rest : List UInt8} {items : List Node}
    {ending : Option Fault} (scanned : scanItems (fuel + 1) first bytes = (items, ending, rest)) :
    (ending ≠ none ∧ rest = []) ∨ (items = [] ∧ ending = none ∧ skipSpace bytes = 0x5D :: rest) ∨
      ∃ start item more others, items = item :: others ∧ scanValue fuel start = (item, more) ∧
        scanItems fuel false more = (others, ending, rest) ∧
        skipSpace bytes = if first then start else 0x2C :: start := by
  rw [scanItems] at scanned
  split at scanned
  · cases scanned
    exact .inl ⟨nofun, rfl⟩
  · rename_i found
    cases scanned
    exact .inr (.inl ⟨rfl, rfl, found⟩)
  · rename_i b tail _ found
    split at scanned
    · rename_i opening
      cases scanned
      exact .inr (.inr ⟨b :: tail, _, _, _, rfl, rfl, rfl, by rw [if_pos opening, found]⟩)
    · rename_i opening
      split at scanned
      · rename_i comma
        cases scanned
        exact .inr (.inr ⟨tail, _, _, _, rfl, rfl, rfl, by rw [if_neg opening, found, comma]⟩)
      · cases scanned
        exact .inl ⟨nofun, rfl⟩

/-- All that scanning a member can do: it stops at a fault and leaves nothing, or it scans
the member and then the others. -/
theorem scanMember_cases {fuel : Nat} {bytes rest : List UInt8} {members : List (Literal × Node)}
    {ending : Option Fault} (scanned : scanMember fuel bytes = (members, ending, rest)) :
    (ending ≠ none ∧ rest = []) ∨
      ∃ fuel' label start key value more others, fuel = fuel' + 1 ∧
        members = (key, value) :: others ∧
        KeyText key label ∧ bytes = label ++ start ∧ scanValue fuel' start = (value, more) ∧
        scanMembers fuel' false more = (others, ending, rest) := by
  revert scanned
  fun_cases scanMember fuel bytes with
  | case1 | case3 | case4 =>
    intro scanned
    cases scanned
    exact .inl ⟨nofun, rfl⟩
  | case2 fuel bytes key rest' literal start colon value more content members' ending' rest''
    list =>
    intro scanned
    cases scanned
    have left : rest' ≠ [] := by
      rintro rfl
      cases colon
    obtain ⟨pieces, rfl, rfl⟩ := pieces_of_scanLiteral literal left
    obtain ⟨gap, blank, whole⟩ := skipSpace_front rest'
    rw [colon] at whole
    refine .inr ⟨fuel, _, start, _, value, more, _, rfl, rfl, .pieces pieces blank, ?_, content,
      list⟩
    simp only [whole, List.cons_append, List.append_assoc, List.nil_append]

theorem scanMembers_cases {fuel : Nat} {first : Bool} {bytes rest : List UInt8}
    {members : List (Literal × Node)} {ending : Option Fault}
    (scanned : scanMembers (fuel + 1) first bytes = (members, ending, rest)) :
    (ending ≠ none ∧ rest = []) ∨ (members = [] ∧ ending = none ∧ skipSpace bytes = 0x7D :: rest) ∨
      ∃ fuel' label start key value more others, fuel = fuel' + 1 ∧ members = (key, value) ::
        others ∧ KeyText key label ∧ scanValue fuel' start = (value, more) ∧
        scanMembers fuel' false more = (others, ending, rest) ∧
        skipSpace bytes = if first then label ++ start else 0x2C :: (label ++ start) := by
  rw [scanMembers] at scanned
  split at scanned
  · cases scanned
    exact .inl ⟨nofun, rfl⟩
  · rename_i found
    cases scanned
    exact .inr (.inl ⟨rfl, rfl, found⟩)
  · rename_i b tail _ found
    split at scanned
    · rename_i opening
      rcases scanMember_cases scanned with fault | ⟨fuel', label, start, key, value, more, others,
        enough, same, name, whole, content, list⟩
      · exact .inl fault
      · refine .inr (.inr ⟨fuel', label, start, key, value, more, others, enough, same, name,
          content, list, ?_⟩)
        rw [if_pos opening, found, whole]
    · rename_i opening
      split at scanned
      · rename_i comma
        rcases scanMember_cases scanned with fault | ⟨fuel', label, start, key, value, more, others,
          enough, same, name, whole, content, list⟩
        · exact .inl fault
        · obtain ⟨gap, blank, front⟩ := skipSpace_front tail
          refine .inr (.inr ⟨fuel', gap ++ label, start, key, value, more, others, enough, same,
            name.spaced blank, content, list, ?_⟩)
          rw [if_neg opening, found, comma, front, whole, List.append_assoc]
      · cases scanned
        exact .inl ⟨nofun, rfl⟩

theorem ending_of_scanItems {fuel : Nat} {first : Bool} {bytes rest : List UInt8}
    {items : List Node}
    {ending : Option Fault} (scanned : scanItems fuel first bytes = (items, ending, rest))
    (left : rest ≠ []) : ending = none := by
  induction fuel generalizing first bytes items with
  | zero =>
    cases scanned
    exact absurd rfl left
  | succ fuel ih =>
    rcases scanItems_cases scanned with ⟨_, none⟩ | ⟨_, closed, _⟩ | ⟨_, _, _, _, _, _, list, _⟩
    · exact absurd none left
    · exact closed
    · exact ih list

theorem ending_of_scanMembers {fuel : Nat} {first : Bool} {bytes rest : List UInt8}
    {members : List (Literal × Node)} {ending : Option Fault}
    (scanned : scanMembers fuel first bytes = (members, ending, rest)) (left : rest ≠ []) :
    ending = none := by
  induction fuel using Nat.strongRecOn generalizing first bytes members with
  | _ fuel ih =>
    cases fuel with
    | zero =>
      cases scanned
      exact absurd rfl left
    | succ fuel =>
      rcases scanMembers_cases scanned with ⟨_, none⟩ | ⟨_, closed, _⟩ |
        ⟨fuel', _, _, _, _, _, _, rfl, _, _, _, list, _⟩
      · exact absurd none left
      · exact closed
      · exact ih fuel' (by omega) list

theorem ItemsText.left {items : List Node} {text : List UInt8} (stands : ItemsText false items text)
    (rest : List UInt8) : text ++ rest ≠ [] := by
  have marked := stands.marked
  intro none
  rw [(List.append_eq_nil_iff.mp none).1] at marked
  cases marked

theorem word_of_expect {word bytes rest : List UInt8} (expected : expect word bytes = .ok rest) :
    bytes = word ++ rest := by
  revert expected
  fun_induction expect word bytes with
  | case1 bytes =>
    intro expected
    cases expected
    rfl
  | case2 | case4 =>
    intro expected
    cases expected
  | case3 e word bytes ih =>
    intro expected
    rw [ih expected, List.cons_append]

theorem word_of_scanWord {word bytes rest : List UInt8} {node node' : Node}
    (scanned : scanWord word node bytes = (node', rest)) (left : rest ≠ []) :
    node' = node ∧ bytes = word ++ rest := by
  rw [scanWord] at scanned
  split at scanned
  · rename_i expected
    cases scanned
    exact ⟨rfl, word_of_expect expected⟩
  · cases scanned
    exact absurd rfl left

theorem MembersText.left {members : List (Literal × Node)} {text : List UInt8}
    (stands : MembersText false members text) (rest : List UInt8) : text ++ rest ≠ [] := by
  have marked := stands.marked
  intro none
  rw [(List.append_eq_nil_iff.mp none).1] at marked
  cases marked

mutual

theorem text_of_scanValue {fuel : Nat} {bytes rest : List UInt8} {node : Node}
    (scanned : scanValue fuel bytes = (node, rest)) (left : rest ≠ []) (ends : EndsNumeral rest) :
    ∃ text, ValueText node text ∧ bytes = text ++ rest := by
  obtain ⟨gap, blank, whole⟩ := skipSpace_front bytes
  suffices ∃ text, ValueText node text ∧ skipSpace bytes = text ++ rest by
    obtain ⟨text, stands, found⟩ := this
    refine ⟨gap ++ text, stands.spaced blank, ?_⟩
    rw [whole, found, List.append_assoc]
  match fuel with
  | 0 =>
    cases scanned
    exact absurd rfl left
  | fuel + 1 =>
    rw [scanValue] at scanned
    split at scanned
    · cases scanned
      exact absurd rfl left
    · rename_i tail found
      cases literal : scanLiteral tail with
      | mk text more =>
        rw [literal] at scanned
        cases scanned
        obtain ⟨pieces, rfl, rfl⟩ := pieces_of_scanLiteral literal left
        refine ⟨_, .string pieces, ?_⟩
        rw [found, List.cons_append, List.append_assoc, List.singleton_append]
    · rename_i tail found
      cases list : scanMembers fuel true tail with
      | mk members others =>
        obtain ⟨ending, more⟩ := others
        rw [list] at scanned
        cases scanned
        cases ending_of_scanMembers list left
        obtain ⟨text, each, rfl⟩ := text_of_scanMembers list
        exact ⟨_, .object each, found⟩
    · rename_i tail found
      cases list : scanItems fuel true tail with
      | mk items others =>
        obtain ⟨ending, more⟩ := others
        rw [list] at scanned
        cases scanned
        cases ending_of_scanItems list left
        obtain ⟨text, each, rfl⟩ := text_of_scanItems list
        exact ⟨_, .array each, found⟩
    · rename_i tail found
      obtain ⟨rfl, rfl⟩ := word_of_scanWord scanned left
      exact ⟨_, .null, found⟩
    · rename_i tail found
      obtain ⟨rfl, rfl⟩ := word_of_scanWord scanned left
      exact ⟨_, .yes, found⟩
    · rename_i tail found
      obtain ⟨rfl, rfl⟩ := word_of_scanWord scanned left
      exact ⟨_, .no, found⟩
    · rename_i b tail _ _ _ _ _ _ found
      split at scanned
      · cases numeral : scanNumeral (b :: tail) with
        | mk value more =>
          rw [numeral] at scanned
          cases scanned
          obtain ⟨text, shape, same, rfl⟩ := shape_of_scanNumeral numeral left ends
          exact ⟨text, .number shape, found.trans same⟩
      · cases scanned
        exact absurd rfl left

theorem text_of_scanItems {fuel : Nat} {first : Bool} {bytes rest : List UInt8} {items : List Node}
    (scanned : scanItems fuel first bytes = (items, none, rest)) :
    ∃ text, ItemsText first items text ∧ bytes = text ++ rest := by
  obtain ⟨gap, blank, whole⟩ := skipSpace_front bytes
  suffices ∃ text, ItemsText first items text ∧ skipSpace bytes = text ++ rest by
    obtain ⟨text, stands, found⟩ := this
    refine ⟨gap ++ text, stands.spaced blank, ?_⟩
    rw [whole, found, List.append_assoc]
  match fuel with
  | 0 => cases scanned
  | fuel + 1 =>
    rcases scanItems_cases scanned with ⟨fault, _⟩ | ⟨rfl, _, found⟩ |
      ⟨start, item, more, others, rfl, content, list, found⟩
    · exact absurd rfl fault
    · exact ⟨[0x5D], .close first, found⟩
    · obtain ⟨later, stands, rfl⟩ := text_of_scanItems list
      obtain ⟨text, value, rfl⟩ := text_of_scanValue content (stands.left rest) (stands.ends rest)
      cases first with
      | true => exact ⟨text ++ later, .first value stands, by simp [found]⟩
      | false => exact ⟨0x2C :: (text ++ later), .next value stands, by simp [found]⟩

theorem text_of_scanMembers {fuel : Nat} {first : Bool} {bytes rest : List UInt8}
    {members : List (Literal × Node)}
    (scanned : scanMembers fuel first bytes = (members, none, rest)) :
    ∃ text, MembersText first members text ∧ bytes = text ++ rest := by
  obtain ⟨gap, blank, whole⟩ := skipSpace_front bytes
  suffices ∃ text, MembersText first members text ∧ skipSpace bytes = text ++ rest by
    obtain ⟨text, stands, found⟩ := this
    refine ⟨gap ++ text, stands.spaced blank, ?_⟩
    rw [whole, found, List.append_assoc]
  match fuel with
  | 0 => cases scanned
  | fuel + 1 =>
    rcases scanMembers_cases scanned with ⟨fault, _⟩ | ⟨rfl, _, found⟩ |
      ⟨fuel', label, start, key, value, more, others, rfl, rfl, name, content, list, found⟩
    · exact absurd rfl fault
    · exact ⟨[0x7D], .close first, found⟩
    · obtain ⟨later, stands, rfl⟩ := text_of_scanMembers list
      obtain ⟨text, value, rfl⟩ := text_of_scanValue content (stands.left rest) (stands.ends rest)
      cases first with
      | true => exact ⟨label ++ (text ++ later), .first name value stands, by simp [found]⟩
      | false =>
        exact ⟨0x2C :: (label ++ (text ++ later)), .next name value stands, by simp [found]⟩

end

/-! ## Whole texts -/

/-- A whole text of a value, which may end with blanks too. -/
def IsText (node : Node) (bytes : List UInt8) : Prop :=
  ∃ text gap, ValueText node text ∧ Blank gap ∧ bytes = text ++ gap

theorem Blank.ends_whole {gap : List UInt8} (blank : Blank gap) : EndsNumeral gap := by
  cases gap with
  | nil => exact .nil
  | cons b gap => exact ends_of_space (blank b List.mem_cons_self) gap

theorem Blank.skipSpace_whole {gap : List UInt8} (blank : Blank gap) : Json.skipSpace gap = [] :=
  List.dropWhile_eq_nil_iff.mpr blank

theorem IsText.scan {node : Node} {bytes : List UInt8} (stands : IsText node bytes) :
    Document.scan bytes = ⟨node, none⟩ := by
  obtain ⟨text, gap, value, blank, rfl⟩ := stands
  have enough : 2 * text.length ≤ 2 * (text ++ gap).length + 2 := by
    rw [List.length_append]
    omega
  rw [Document.scan, value.scan enough blank.ends_whole]
  dsimp only
  rw [blank.skipSpace_whole]
  rfl

theorem IsText.decodeBytes {α : Type} {node : Node} {bytes : List UInt8}
    (stands : IsText node bytes)
    (decode : Node → Except DecodeError α) : Json.decodeBytes decode bytes = decode node := by
  rw [Json.decodeBytes, stands.scan]
  cases decode node <;> rfl

theorem scanValue_object {fuel : Nat} {bytes rest : List UInt8} {members : List (Literal × Node)}
    {ending : Option Fault}
    (scanned : scanValue (fuel + 1) bytes = (.object members ending, rest)) :
    ∃ tail, skipSpace bytes = 0x7B :: tail ∧
      scanMembers fuel true tail = (members, ending, rest) := by
  rw [scanValue] at scanned
  split at scanned
  case h_3 tail found =>
    refine ⟨tail, found, ?_⟩
    cases list : scanMembers fuel true tail
    rw [list] at scanned
    cases scanned
    rfl
  case h_5 | h_6 | h_7 =>
    rw [scanWord] at scanned
    split at scanned <;> cases scanned
  case h_8 => split at scanned <;> cases scanned
  all_goals cases scanned

theorem MembersText.last {first : Bool} {members : List (Literal × Node)} {text : List UInt8}
    (stands : MembersText first members text) : ∃ front, text = front ++ [0x7D] := by
  match stands with
  | .space _ later =>
    obtain ⟨front, rfl⟩ := later.last
    exact ⟨_ :: front, rfl⟩
  | .close _ => exact ⟨[], rfl⟩
  | .first _ _ others | .next _ _ others =>
    obtain ⟨front, rfl⟩ := others.last
    simp only [← List.append_assoc, ← List.cons_append]
    exact ⟨_, rfl⟩

theorem ValueText.braces {members : List (Literal × Node)} {text : List UInt8}
    (stands : ValueText (.object members none) text) :
    ∃ gap core, Blank gap ∧ text = gap ++ core ∧ ValueText (.object members none) core ∧
      ∃ tail front, core = 0x7B :: tail ∧ core = front ++ [0x7D] := by
  match stands with
  | .space blank later => 
    obtain ⟨gap, core, blank', rfl, rest⟩ := later.braces
    exact ⟨_ :: gap, core, List.forall_mem_cons.mpr ⟨blank, blank'⟩, rfl, rest⟩
  | .object each => 
    obtain ⟨front, closing⟩ := each.last
    exact ⟨[], _, List.forall_mem_nil _, rfl, .object each, _, 0x7B :: front, rfl,
      congrArg _ closing⟩

theorem isText_of_scan {bytes : List UInt8} {members : List (Literal × Node)}
    (scanned : Document.scan bytes = ⟨.object members none, none⟩) :
    IsText (.object members none) bytes := by
  rw [Document.scan] at scanned
  cases value : scanValue (2 * bytes.length + 2) bytes with
  | mk node rest =>
    rw [value] at scanned
    obtain ⟨rfl, trailing⟩ := Document.mk.inj scanned
    have blank' : skipSpace rest = [] := by
      split at trailing
      · rename_i none
        exact List.isEmpty_iff.mp none
      · cases trailing
    obtain ⟨tail, found, list⟩ := scanValue_object value
    obtain ⟨text, each, rfl⟩ := text_of_scanMembers list
    obtain ⟨gap, blank, whole⟩ := skipSpace_front bytes
    refine ⟨gap ++ 0x7B :: text, rest, .spaced (.object each) blank, ?_, ?_⟩
    · exact List.dropWhile_eq_nil_iff.mp blank'
    · rw [whole, found, List.append_assoc, List.cons_append]

end ProxyConsole.Json
