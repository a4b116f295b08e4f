import ProxyConsole.Json.Decode
import ProxyConsole.Proofs.Json.Numeral

/-!
# Written documents

The compact text of a value is one line, and scanning it gives a tree that is known
beforehand: each value of the tree stands for itself and no bracket is missing.
Floating point numbers are left out, as their digits are read only to the nearest
number.
-/

set_option autoImplicit false

namespace ProxyConsole.Json

/-- The bytes of the compact text of a value. -/
def bytes (j : Json) : List UInt8 :=
  Utf8.encodeChars j.compact

mutual

/-- The tree that a written value is scanned to. -/
inductive Written : Json → Node → Prop where
  | null : Written .null .null
  | bool (b : Bool) : Written (.bool b) (.bool b)
  | integer (i : Int) (fits : FitsInteger i) :
      Written (.number (.integer i)) (.number (.ofInt i))
  | string (s : String) : Written (.string s) (.string (.ofText s))
  | array {items : List Json} {nodes : List Node} (each : WrittenItems items nodes) :
      Written (.array items) (.array nodes none)
  | object {members : List (String × Json)} {nodes : List (Literal × Node)}
      (each : WrittenMembers members nodes) : Written (.object members) (.object nodes none)

inductive WrittenItems : List Json → List Node → Prop where
  | nil : WrittenItems [] []
  | cons {item : Json} {node : Node} {items : List Json} {nodes : List Node}
      (first : Written item node) (others : WrittenItems items nodes) :
      WrittenItems (item :: items) (node :: nodes)

inductive WrittenMembers : List (String × Json) → List (Literal × Node) → Prop where
  | nil : WrittenMembers [] []
  | cons (key : String) {value : Json} {node : Node} {members : List (String × Json)}
      {nodes : List (Literal × Node)} (first : Written value node)
      (others : WrittenMembers members nodes) :
      WrittenMembers ((key, value) :: members) ((.ofText key, node) :: nodes)

end

/-! ## Texts and their scans -/

/-- A text of one value, which can stand anywhere in a line. -/
structure Scans (text : List UInt8) (node : Node) : Prop where
  printable : Printable text
  head : ∃ b tail, text = b :: tail ∧ 0x20 < b ∧ b ≠ 0x5D
  last : ∃ front b, text = front ++ [b] ∧ 0x20 < b
  scan : ∀ fuel rest, 2 * text.length ≤ fuel → EndsNumeral rest →
    scanValue fuel (text ++ rest) = (node, rest)

/-- A text of the entries of an array or object from some entry on, with the closing bracket. -/
structure ScansList {β : Type}
    (scanList : Nat → Bool → List UInt8 → List β × Option Fault × List UInt8) (closing : UInt8)
    (first : Bool) (text : List UInt8) (nodes : List β) : Prop where
  printable : Printable text
  last : ∃ front, text = front ++ [closing]
  ends : first = false → ∀ rest, EndsNumeral (text ++ rest)
  scan : ∀ fuel rest, 2 * text.length ≤ fuel →
    scanList fuel first (text ++ rest) = (nodes, none, rest)

theorem beq_of_shown {b : UInt8} (shown : 0x20 < b) (other : UInt8) (small : other.toNat ≤ 0x20) :
    (b == other) = false := by
  rw [beq_eq_false_iff_ne]
  rintro rfl
  exact absurd (UInt8.lt_iff_toNat_lt.mp shown) (Nat.not_lt.mpr small)

theorem skipSpace_cons {b : UInt8} {rest : List UInt8} (shown : 0x20 < b) :
    skipSpace (b :: rest) = b :: rest := by
  have other : isSpace b = false := by
    have differs := beq_of_shown shown
    rw [isSpace, differs 0x20 (by decide), differs 0x09 (by decide), differs 0x0A (by decide),
      differs 0x0D (by decide)]
    rfl
  rw [skipSpace, List.dropWhile_cons_of_neg (by simp [other])]

theorem Scans.length_pos {text : List UInt8} {node : Node} (scans : Scans text node) :
    0 < text.length := by
  obtain ⟨b, tail, rfl, _⟩ := scans.head
  exact Nat.zero_lt_succ _

theorem ScansList.length_pos {β : Type}
    {scanList : Nat → Bool → List UInt8 → List β × Option Fault × List UInt8} {closing : UInt8}
    {first : Bool} {text : List UInt8} {nodes : List β}
    (scans : ScansList scanList closing first text nodes) : 0 < text.length := by
  obtain ⟨front, rfl⟩ := scans.last
  rw [List.length_append]
  exact Nat.lt_add_left _ Nat.zero_lt_one

theorem ScansList.last_append {β : Type}
    {scanList : Nat → Bool → List UInt8 → List β × Option Fault × List UInt8} {closing : UInt8}
    {first : Bool} {text : List UInt8} {nodes : List β}
    (scans : ScansList scanList closing first text nodes) (before : List UInt8) :
    ∃ front, before ++ text = front ++ [closing] := by
  obtain ⟨front, rfl⟩ := scans.last
  exact ⟨before ++ front, (List.append_assoc _ _ _).symm⟩

/-! ## Scalars -/

theorem Scans.of_scan {text : List UInt8} {node : Node} (printable : Printable text)
    (head : ∃ b tail, text = b :: tail ∧ 0x20 < b ∧ b ≠ 0x5D)
    (last : ∃ front b, text = front ++ [b] ∧ 0x20 < b)
    (scan : ∀ fuel rest, 2 * text.length ≤ fuel + 1 →
      scanValue (fuel + 1) (text ++ rest) = (node, rest)) : Scans text node where
  printable := printable
  head := head
  last := last
  scan := by
    intro fuel rest enough _
    cases fuel with
    | zero =>
      obtain ⟨b, tail, rfl, _⟩ := head
      exact absurd enough (by simp)
    | succ fuel => exact scan fuel rest enough

theorem scans_null : Scans (bytes .null) .null :=
  .of_scan (by decide) ⟨0x6E, [0x75, 0x6C, 0x6C], by decide⟩ ⟨[0x6E, 0x75, 0x6C], 0x6C, by decide⟩
    fun _ _ _ => rfl

theorem scans_bool (b : Bool) : Scans (bytes (.bool b)) (.bool b) := by
  cases b with
  | true =>
    exact .of_scan (by decide) ⟨0x74, [0x72, 0x75, 0x65], by decide⟩
      ⟨[0x74, 0x72, 0x75], 0x65, by decide⟩ fun _ _ _ => rfl
  | false =>
    exact .of_scan (by decide) ⟨0x66, [0x61, 0x6C, 0x73, 0x65], by decide⟩
      ⟨[0x66, 0x61, 0x6C, 0x73], 0x65, by decide⟩ fun _ _ _ => rfl

theorem bytes_string (s : String) : bytes (.string s) = 0x22 :: (escaped s ++ [0x22]) :=
  encodeChars_quote s

theorem scans_string (s : String) : Scans (bytes (.string s)) (.string (.ofText s)) := by
  rw [bytes_string]
  refine .of_scan ?_ ⟨0x22, _, rfl, by decide⟩ ⟨0x22 :: escaped s, 0x22, rfl, by decide⟩ ?_
  · rw [← encodeChars_quote]
    exact printable_quote s
  · intro fuel rest _
    have literal := scanLiteral_escaped s rest
    rw [List.cons_append, List.append_assoc, scanValue, skipSpace_cons (by decide)]
    simp only [List.singleton_append, literal]

theorem scanValue_numeral {b : UInt8} (numeral : isSignOrDigit b = true) (fuel : Nat)
    (rest : List UInt8) :
    scanValue (fuel + 1) (b :: rest) =
      (.number (scanNumeral (b :: rest)).1, (scanNumeral (b :: rest)).2) := by
  have differs : ∀ other, isSignOrDigit other = false → b ≠ other := by
    rintro other notNumeral rfl
    rw [numeral] at notNumeral
    cases notNumeral
  have sign : b = 0x2D ∨ isDigit b = true := by
    simpa only [isSignOrDigit, Bool.or_eq_true, beq_iff_eq] using numeral
  have quote := differs 0x22 (by decide)
  have brace := differs 0x7B (by decide)
  have bracket := differs 0x5B (by decide)
  have n := differs 0x6E (by decide)
  have t := differs 0x74 (by decide)
  have f := differs 0x66 (by decide)
  rw [scanValue, skipSpace_cons (printable_of_isSignOrDigit numeral)]
  simp [sign]

theorem scans_integer {i : Int} (fits : FitsInteger i) :
    Scans (bytes (.number (.integer i))) (.number (.ofInt i)) := by
  have numeral : ∀ b ∈ bytes (.number (.integer i)), isSignOrDigit b = true :=
    fun b => isSignOrDigit_of_mem
  have marked : bytes (.number (.integer i)) ≠ [] := encodeChars_intText_ne_nil i
  obtain ⟨b, tail, whole⟩ := List.exists_cons_of_ne_nil marked
  have first : isSignOrDigit b = true := numeral b (by rw [whole]; exact List.mem_cons_self)
  constructor
  · intro b' member
    exact UInt8.le_of_lt (printable_of_isSignOrDigit (numeral b' member))
  · refine ⟨b, tail, whole, printable_of_isSignOrDigit first, ?_⟩
    rintro rfl
    exact absurd first (by decide)
  · have last := numeral _ (List.getLast_mem marked)
    exact ⟨_, _, (List.dropLast_concat_getLast marked).symm, printable_of_isSignOrDigit last⟩
  · intro fuel rest enough ends
    have scanned : scanNumeral (bytes (.number (.integer i)) ++ rest) = (.ofInt i, rest) :=
      scanNumeral_intText fits ends
    rw [whole] at enough scanned ⊢
    cases fuel with
    | zero => exact absurd enough (by simp)
    | succ fuel =>
      rw [List.cons_append] at scanned ⊢
      rw [scanValue_numeral first, scanned]

/-! ## Arrays -/

theorem scansItems_nil (first : Bool) : ScansList scanItems 0x5D first [0x5D] [] where
  printable := by decide
  last := ⟨[], rfl⟩
  ends := by
    rintro - rest b same
    cases same
    decide
  scan := by
    intro fuel rest enough
    cases fuel with
    | zero => exact absurd enough (by decide)
    | succ fuel => rfl

theorem scansItems_cons {text more : List UInt8} {node : Node} {nodes : List Node}
    (item : Scans text node) (others : ScansList scanItems 0x5D false more nodes) :
    ScansList scanItems 0x5D true (text ++ more) (node :: nodes) ∧
      ScansList scanItems 0x5D false (0x2C :: (text ++ more)) (node :: nodes) := by
  have positive := item.length_pos
  have positive' := others.length_pos
  obtain ⟨b, tail, whole, shown, open'⟩ := item.head
  have value : ∀ fuel rest, 2 * (text ++ more).length ≤ fuel + 1 →
      scanValue fuel (text ++ (more ++ rest)) = (node, more ++ rest) ∧
        scanItems fuel false (more ++ rest) = (nodes, none, rest) := by
    intro fuel rest enough
    rw [List.length_append] at enough
    exact ⟨item.scan fuel _ (by omega) (others.ends rfl rest), others.scan fuel rest (by omega)⟩
  constructor
  · constructor
    · exact item.printable.append others.printable
    · exact others.last_append text
    · intro later
      cases later
    · intro fuel rest enough
      cases fuel with
      | zero => exact absurd enough (by rw [List.length_append]; omega)
      | succ fuel =>
        obtain ⟨scanned, list⟩ := value fuel rest enough
        rw [whole, List.cons_append] at scanned
        rw [List.append_assoc, whole, List.cons_append, scanItems, skipSpace_cons shown]
        simp [scanned, list]
  · constructor
    · exact .cons (by decide) (item.printable.append others.printable)
    · exact others.last_append (0x2C :: text)
    · rintro - rest b' same
      cases same
      decide
    · intro fuel rest enough
      cases fuel with
      | zero => exact absurd enough (by simp)
      | succ fuel =>
        rw [List.length_cons] at enough
        obtain ⟨scanned, list⟩ := value fuel rest (by omega)
        rw [List.cons_append, List.append_assoc, scanItems, skipSpace_cons (by decide)]
        simp [scanned, list]

theorem scans_array {text : List UInt8} {nodes : List Node}
    (list : ScansList scanItems 0x5D true text nodes) :
    Scans (0x5B :: text) (.array nodes none) := by
  refine .of_scan (.cons (by decide) list.printable) ⟨0x5B, text, rfl, by decide⟩ ?_ ?_
  · obtain ⟨front, ending⟩ := list.last_append [0x5B]
    exact ⟨front, 0x5D, ending, by decide⟩
  · intro fuel rest enough
    rw [List.length_cons] at enough
    have scanned := list.scan fuel rest (by omega)
    rw [List.cons_append, scanValue, skipSpace_cons (by decide)]
    simp only [scanned]

/-! ## Objects -/

theorem scansMembers_nil (first : Bool) : ScansList scanMembers 0x7D first [0x7D] [] where
  printable := by decide
  last := ⟨[], rfl⟩
  ends := by
    rintro - rest b same
    cases same
    decide
  scan := by
    intro fuel rest enough
    cases fuel with
    | zero => exact absurd enough (by decide)
    | succ fuel => rfl

theorem scanMembers_quote (fuel : Nat) (rest : List UInt8) :
    scanMembers (fuel + 1) true (0x22 :: rest) = scanMember fuel (0x22 :: rest) := by
  rw [scanMembers, skipSpace_cons (by decide)]
  rfl

theorem scanMembers_comma (fuel : Nat) (rest : List UInt8) :
    scanMembers (fuel + 1) false (0x2C :: rest) = scanMember fuel (skipSpace rest) := by
  rw [scanMembers, skipSpace_cons (by decide)]
  rfl

/-- A key with its colon. -/
def keyBytes (key : String) : List UInt8 :=
  0x22 :: (escaped key ++ [0x22, 0x3A])

theorem printable_keyBytes (key : String) : Printable (keyBytes key) := by
  have quoted := printable_quote key
  rw [encodeChars_quote] at quoted
  have parts : keyBytes key = (0x22 :: (escaped key ++ [0x22])) ++ [0x3A] := by simp [keyBytes]
  rw [parts]
  exact quoted.append (by decide)

theorem scanMember_key (key : String) {text more rest : List UInt8} {node : Node}
    {nodes : List (Literal × Node)} {fuel : Nat} (value : scanValue fuel text = (node, more))
    (others : scanMembers fuel false more = (nodes, none, rest)) :
    scanMember (fuel + 1) (keyBytes key ++ text) = ((.ofText key, node) :: nodes, none, rest) := by
  have literal := scanLiteral_escaped key (0x3A :: text)
  have parts : keyBytes key ++ text = 0x22 :: (escaped key ++ 0x22 :: 0x3A :: text) := by
    simp [keyBytes]
  rw [parts, scanMember, literal]
  dsimp only
  rw [skipSpace_cons (by decide)]
  simp only [value, others]

theorem scanMember_entry (key : String) {text more rest : List UInt8} {node : Node}
    {nodes : List (Literal × Node)} {fuel : Nat} (value : Scans text node)
    (others : ScansList scanMembers 0x7D false more nodes)
    (enough : 2 * (text.length + more.length) ≤ fuel) :
    scanMember (fuel + 1) (keyBytes key ++ (text ++ (more ++ rest))) =
      ((.ofText key, node) :: nodes, none, rest) :=
  scanMember_key key (value.scan fuel _ (by omega) (others.ends rfl rest))
    (others.scan fuel rest (by omega))

theorem scansMembers_cons (key : String) {text more : List UInt8} {node : Node}
    {nodes : List (Literal × Node)} (value : Scans text node)
    (others : ScansList scanMembers 0x7D false more nodes) :
    ScansList scanMembers 0x7D true (keyBytes key ++ (text ++ more))
        ((.ofText key, node) :: nodes) ∧
      ScansList scanMembers 0x7D false (0x2C :: (keyBytes key ++ (text ++ more)))
        ((.ofText key, node) :: nodes) := by
  have printable : Printable (keyBytes key ++ (text ++ more)) :=
    (printable_keyBytes key).append (value.printable.append others.printable)
  have long : (keyBytes key ++ (text ++ more)).length =
      (escaped key).length + 3 + (text.length + more.length) := by
    simp [keyBytes]
    omega
  have member : ∀ fuel rest, 2 * (keyBytes key ++ (text ++ more)).length ≤ fuel + 2 →
      scanMember (fuel + 1) (keyBytes key ++ (text ++ (more ++ rest))) =
        ((.ofText key, node) :: nodes, none, rest) := by
    intro fuel rest enough
    rw [long] at enough
    exact scanMember_entry key value others (by omega)
  constructor
  · constructor
    · exact printable
    · rw [← List.append_assoc]
      exact others.last_append _
    · intro later
      cases later
    · intro fuel rest enough
      match fuel, enough with
      | fuel + 2, enough =>
        rw [List.append_assoc, List.append_assoc]
        exact (scanMembers_quote (fuel + 1) _).trans (member fuel rest enough)
      | 0, enough => exact absurd enough (by rw [long]; omega)
      | 1, enough => exact absurd enough (by rw [long]; omega)
  · constructor
    · exact .cons (by decide) printable
    · rw [← List.append_assoc]
      exact others.last_append (0x2C :: (keyBytes key ++ text))
    · rintro - rest b same
      cases same
      decide
    · intro fuel rest enough
      rw [List.length_cons] at enough
      match fuel, enough with
      | fuel + 2, enough =>
        rw [List.cons_append, List.append_assoc, List.append_assoc, scanMembers_comma]
        have opened : skipSpace (keyBytes key ++ (text ++ (more ++ rest))) =
            keyBytes key ++ (text ++ (more ++ rest)) := skipSpace_cons (by decide)
        rw [opened]
        exact member fuel rest (by omega)
      | 0, enough => exact absurd enough (by rw [long]; omega)
      | 1, enough => exact absurd enough (by rw [long]; omega)

theorem scans_object {text : List UInt8} {nodes : List (Literal × Node)}
    (list : ScansList scanMembers 0x7D true text nodes) :
    Scans (0x7B :: text) (.object nodes none) := by
  refine .of_scan (.cons (by decide) list.printable) ⟨0x7B, text, rfl, by decide⟩ ?_ ?_
  · obtain ⟨front, ending⟩ := list.last_append [0x7B]
    exact ⟨front, 0x7D, ending, by decide⟩
  · intro fuel rest enough
    rw [List.length_cons] at enough
    have scanned := list.scan fuel rest (by omega)
    rw [List.cons_append, scanValue, skipSpace_cons (by decide)]
    simp only [scanned]

/-! ## Whole trees -/

theorem bytes_array (items : List Json) :
    bytes (.array items) = 0x5B :: Utf8.encodeChars (compactItems items) := by
  rw [bytes, compact, Utf8.encodeChars_cons]
  rfl

theorem bytes_object (members : List (String × Json)) :
    bytes (.object members) = 0x7B :: Utf8.encodeChars (compactMembers members) := by
  rw [bytes, compact, Utf8.encodeChars_cons]
  rfl

theorem encodeChars_compactItems (item : Json) (items : List Json) :
    Utf8.encodeChars (compactItems (item :: items)) =
        bytes item ++ Utf8.encodeChars (compactMoreItems items) ∧
      Utf8.encodeChars (compactMoreItems (item :: items)) =
        0x2C :: (bytes item ++ Utf8.encodeChars (compactMoreItems items)) := by
  rw [compactItems, compactMoreItems, Utf8.encodeChars_cons, Utf8.encodeChars_append]
  exact ⟨rfl, rfl⟩

theorem encodeChars_compactMembers (key : String) (value : Json)
    (members : List (String × Json)) :
    Utf8.encodeChars (compactMembers ((key, value) :: members)) =
        keyBytes key ++ (bytes value ++ Utf8.encodeChars (compactMoreMembers members)) ∧
      Utf8.encodeChars (compactMoreMembers ((key, value) :: members)) =
        0x2C :: (keyBytes key ++
          (bytes value ++ Utf8.encodeChars (compactMoreMembers members))) := by
  have entry : Utf8.encodeChars
      (quote key ++ ':' :: (compact value ++ compactMoreMembers members)) =
      keyBytes key ++ (bytes value ++ Utf8.encodeChars (compactMoreMembers members)) := by
    have colon : Utf8.encodeChar ':' = [0x3A] := by decide
    rw [Utf8.encodeChars_append, encodeChars_quote, Utf8.encodeChars_cons, colon,
      Utf8.encodeChars_append]
    simp [keyBytes, bytes]
  rw [compactMembers, compactMoreMembers, Utf8.encodeChars_cons, entry]
  exact ⟨rfl, rfl⟩

mutual

theorem Written.scans {j : Json} {node : Node} : Written j node → Scans (bytes j) node
  | .null => scans_null
  | .bool b => scans_bool b
  | .integer _ fits => scans_integer fits
  | .string s => scans_string s
  | .array each => by
    rw [bytes_array]
    exact scans_array each.scans.1
  | .object each => by
    rw [bytes_object]
    exact scans_object each.scans.1

theorem WrittenItems.scans {items : List Json} {nodes : List Node} : WrittenItems items nodes →
    ScansList scanItems 0x5D true (Utf8.encodeChars (compactItems items)) nodes ∧
      ScansList scanItems 0x5D false (Utf8.encodeChars (compactMoreItems items)) nodes
  | .nil => ⟨scansItems_nil true, scansItems_nil false⟩
  | .cons first others => by
    rw [(encodeChars_compactItems _ _).1, (encodeChars_compactItems _ _).2]
    exact scansItems_cons first.scans others.scans.2

theorem WrittenMembers.scans {members : List (String × Json)} {nodes : List (Literal × Node)} :
    WrittenMembers members nodes →
    ScansList scanMembers 0x7D true (Utf8.encodeChars (compactMembers members)) nodes ∧
      ScansList scanMembers 0x7D false (Utf8.encodeChars (compactMoreMembers members)) nodes
  | .nil => ⟨scansMembers_nil true, scansMembers_nil false⟩
  | .cons key first others => by
    rw [(encodeChars_compactMembers _ _ _).1, (encodeChars_compactMembers _ _ _).2]
    exact scansMembers_cons key first.scans others.scans.2

end

/-- Scanning the text of a value gives its tree, and nothing is left. -/
theorem Document.scan_bytes {j : Json} {node : Node} (written : Written j node) :
    Document.scan (bytes j) = ⟨node, none⟩ := by
  have scanned := written.scans.scan (2 * (bytes j).length + 2) [] (by omega) .nil
  rw [List.append_nil] at scanned
  rw [Document.scan, scanned]
  rfl

end ProxyConsole.Json
