import ProxyConsole.Proofs.Json.Document

/-!
# Documents over several lines

The pretty text of a value is scanned to the same tree as its compact text: line feeds
and indentation stand only where the scanner passes over them, in front of values, keys
and closing brackets.
-/

set_option autoImplicit false

namespace ProxyConsole.Json

/-! ## Blanks -/

def Blank (gap : List UInt8) : Prop :=
  ∀ b ∈ gap, isSpace b = true

section Blanks

variable {gap : List UInt8} (blank : Blank gap) (rest : List UInt8)
include blank

theorem Blank.skipSpace : Json.skipSpace (gap ++ rest) = Json.skipSpace rest :=
  List.dropWhile_append_of_pos blank

theorem Blank.scanValue (fuel : Nat) :
    Json.scanValue fuel (gap ++ rest) = Json.scanValue fuel rest := by
  cases fuel with
  | zero => rw [Json.scanValue, Json.scanValue]
  | succ fuel => rw [Json.scanValue, Json.scanValue, blank.skipSpace]

theorem Blank.scanItems (fuel : Nat) (first : Bool) :
    Json.scanItems fuel first (gap ++ rest) = Json.scanItems fuel first rest := by
  cases fuel with
  | zero => rw [Json.scanItems, Json.scanItems]
  | succ fuel => rw [Json.scanItems, Json.scanItems, blank.skipSpace]

theorem Blank.scanMembers (fuel : Nat) (first : Bool) :
    Json.scanMembers fuel first (gap ++ rest) = Json.scanMembers fuel first rest := by
  cases fuel with
  | zero => rw [Json.scanMembers, Json.scanMembers]
  | succ fuel => rw [Json.scanMembers, Json.scanMembers, blank.skipSpace]

theorem Blank.ends {b : UInt8} (bracket : EndsNumeral (b :: rest)) :
    EndsNumeral (gap ++ b :: rest) := by
  cases gap with
  | nil => exact bracket
  | cons first others =>
    intro b' same
    have space := blank first List.mem_cons_self
    cases same
    simp only [isSpace, Bool.or_eq_true, beq_iff_eq] at space
    rcases space with ((rfl | rfl) | rfl) | rfl <;> decide

end Blanks

/-- The line feed and the indentation in front of an entry. -/
def lineBytes (level : Nat) : List UInt8 :=
  Utf8.encodeChars (newLine level)

theorem blank_lineBytes (level : Nat) : Blank (lineBytes level) := by
  intro b member
  obtain ⟨c, inside, byte⟩ := List.mem_flatMap.mp member
  rcases List.mem_cons.mp inside with rfl | indentation
  · rw [List.mem_singleton.mp byte]
    rfl
  · rw [(List.mem_replicate.mp indentation).2] at byte
    rw [List.mem_singleton.mp byte]
    rfl

/-! ## Texts and their scans -/

/-- A text of one value, which begins where the scanner gets to after blanks. -/
structure Stands (text : List UInt8) (node : Node) : Prop where
  head : ∃ b tail, text = b :: tail ∧ 0x20 < b ∧ b ≠ 0x5D
  scan : ∀ fuel rest, 2 * text.length ≤ fuel → EndsNumeral rest →
    scanValue fuel (text ++ rest) = (node, rest)

/-- A text of the entries of an array or object after its first one, with the closing bracket. -/
structure StandsList {β : Type}
    (scanList : Nat → Bool → List UInt8 → List β × Option Fault × List UInt8)
    (text : List UInt8) (nodes : List β) : Prop where
  marked : 0 < text.length
  ends : ∀ rest, EndsNumeral (text ++ rest)
  scan : ∀ fuel rest, 2 * text.length ≤ fuel →
    scanList fuel false (text ++ rest) = (nodes, none, rest)

theorem Scans.stands {text : List UInt8} {node : Node} (scans : Scans text node) :
    Stands text node :=
  ⟨scans.head, scans.scan⟩

section Lists

variable {gap text more : List UInt8} {node : Node} {nodes : List Node}
  {members : List (Literal × Node)}

theorem ends_comma (rest : List UInt8) : EndsNumeral (0x2C :: rest) := by
  intro b same
  cases same
  decide

theorem standsItems_nil (blank : Blank gap) : StandsList scanItems (gap ++ [0x5D]) [] where
  marked := by simp
  ends := by
    intro rest
    rw [List.append_assoc]
    exact blank.ends rest (by intro b same; cases same; decide)
  scan := by
    intro fuel rest enough
    cases fuel with
    | zero => simp at enough
    | succ fuel =>
      rw [List.append_assoc, blank.scanItems]
      rfl

theorem standsItems_cons (blank : Blank gap) (item : Stands text node)
    (others : StandsList scanItems more nodes) :
    StandsList scanItems (0x2C :: (gap ++ (text ++ more))) (node :: nodes) where
  marked := by simp
  ends rest := ends_comma _
  scan := by
    intro fuel rest enough
    simp only [List.length_cons, List.length_append] at enough
    cases fuel with
    | zero => omega
    | succ fuel =>
      have value := item.scan fuel (more ++ rest) (by omega) (others.ends rest)
      have list := others.scan fuel rest (by omega)
      rw [List.cons_append, List.append_assoc, List.append_assoc, scanItems,
        skipSpace_cons (by decide)]
      simp [blank.scanValue, value, list]

theorem stands_array (blank : Blank gap) (item : Stands text node)
    (others : StandsList scanItems more nodes) :
    Stands (0x5B :: (gap ++ (text ++ more))) (.array (node :: nodes) none) where
  head := ⟨0x5B, _, rfl, by decide⟩
  scan := by
    intro fuel rest enough _
    have positive := others.marked
    obtain ⟨b, tail, whole, shown, unclosed⟩ := item.head
    simp only [List.length_cons, List.length_append] at enough
    match fuel, enough with
    | fuel + 2, enough =>
      have value := item.scan fuel (more ++ rest) (by omega) (others.ends rest)
      have list := others.scan fuel rest (by omega)
      have items : scanItems (fuel + 1) true (gap ++ (text ++ (more ++ rest))) =
          (node :: nodes, none, rest) := by
        rw [blank.scanItems]
        rw [whole, List.cons_append] at value ⊢
        rw [scanItems, skipSpace_cons shown]
        simp [value, list]
      rw [List.cons_append, List.append_assoc, List.append_assoc, scanValue,
        skipSpace_cons (by decide)]
      simp only [items]

theorem standsMembers_nil (blank : Blank gap) : StandsList scanMembers (gap ++ [0x7D]) [] where
  marked := by simp
  ends := by
    intro rest
    rw [List.append_assoc]
    exact blank.ends rest (by intro b same; cases same; decide)
  scan := by
    intro fuel rest enough
    cases fuel with
    | zero => simp at enough
    | succ fuel =>
      rw [List.append_assoc, blank.scanMembers]
      rfl

theorem scanMember_spaced (key : String) (value : Stands text node)
    (others : StandsList scanMembers more members) {fuel : Nat} (rest : List UInt8)
    (enough : 2 * (text.length + more.length) ≤ fuel) :
    scanMember (fuel + 1) (keyBytes key ++ 0x20 :: (text ++ (more ++ rest))) =
      ((.ofText key, node) :: members, none, rest) := by
  have space : Blank [0x20] := by simp [Blank, isSpace]
  refine scanMember_key key ?_ (others.scan fuel rest (by omega))
  exact (space.scanValue _ fuel).trans (value.scan fuel _ (by omega) (others.ends rest))

theorem standsMembers_cons (blank : Blank gap) (key : String) (value : Stands text node)
    (others : StandsList scanMembers more members) :
    StandsList scanMembers (0x2C :: (gap ++ (keyBytes key ++ 0x20 :: (text ++ more))))
      ((.ofText key, node) :: members) where
  marked := by simp
  ends rest := ends_comma _
  scan := by
    intro fuel rest enough
    have positive := others.marked
    simp only [List.length_cons, List.length_append] at enough
    match fuel, enough with
    | fuel + 2, enough =>
      have member := scanMember_spaced key value others rest (by omega : _ ≤ fuel)
      rw [List.cons_append, List.append_assoc, List.append_assoc, List.cons_append,
        List.append_assoc, scanMembers_comma, blank.skipSpace]
      rwa [show keyBytes key = 0x22 :: (escaped key ++ [0x22, 0x3A]) from rfl, List.cons_append,
        skipSpace_cons (by decide)]

theorem stands_object (blank : Blank gap) (key : String) (value : Stands text node)
    (others : StandsList scanMembers more members) :
    Stands (0x7B :: (gap ++ (keyBytes key ++ 0x20 :: (text ++ more))))
      (.object ((.ofText key, node) :: members) none) where
  head := ⟨0x7B, _, rfl, by decide⟩
  scan := by
    intro fuel rest enough _
    have positive := others.marked
    simp only [List.length_cons, List.length_append] at enough
    match fuel, enough with
    | fuel + 3, enough =>
      have member := scanMember_spaced key value others rest (by omega : _ ≤ fuel)
      have entries : scanMembers (fuel + 2) true
          (gap ++ (keyBytes key ++ 0x20 :: (text ++ (more ++ rest)))) =
            ((.ofText key, node) :: members, none, rest) := by
        rw [blank.scanMembers]
        exact (scanMembers_quote (fuel + 1) _).trans member
      rw [List.cons_append, List.append_assoc, List.append_assoc, List.cons_append,
        List.append_assoc, scanValue, skipSpace_cons (by decide)]
      simp only [entries]

end Lists

/-! ## Whole trees -/

/-- The bytes of the pretty text of a value. -/
def prettyBytes (level : Nat) (j : Json) : List UInt8 :=
  Utf8.encodeChars (prettyAt level j)

theorem prettyBytes_array (level : Nat) (item : Json) (items : List Json) :
    prettyBytes level (.array (item :: items)) =
      0x5B :: (lineBytes (level + 1) ++ (prettyBytes (level + 1) item ++
        Utf8.encodeChars (prettyMoreItems level items))) := by
  simp only [prettyBytes, prettyAt, Utf8.encodeChars_cons, Utf8.encodeChars_append,
    List.append_assoc]
  rfl

theorem encodeChars_prettyMoreItems (level : Nat) (item : Json) (items : List Json) :
    Utf8.encodeChars (prettyMoreItems level (item :: items)) =
      0x2C :: (lineBytes (level + 1) ++ (prettyBytes (level + 1) item ++
        Utf8.encodeChars (prettyMoreItems level items))) := by
  simp only [prettyBytes, prettyMoreItems, Utf8.encodeChars_cons, Utf8.encodeChars_append,
    List.append_assoc]
  rfl

theorem encodeChars_entry (level : Nat) (key : String) (value : Json) (more : List Char) :
    Utf8.encodeChars (newLine (level + 1) ++ quote key ++ ':' :: ' ' ::
      prettyAt (level + 1) value ++ more) = lineBytes (level + 1) ++ (keyBytes key ++ 0x20 ::
        (prettyBytes (level + 1) value ++ Utf8.encodeChars more)) := by
  have colon : Utf8.encodeChar ':' = [0x3A] := by decide
  have space : Utf8.encodeChar ' ' = [0x20] := by decide
  simp only [Utf8.encodeChars_append, Utf8.encodeChars_cons, encodeChars_quote, colon, space,
    lineBytes, prettyBytes, keyBytes, List.append_assoc, List.cons_append, List.nil_append]

theorem prettyBytes_object (level : Nat) (key : String) (value : Json)
    (members : List (String × Json)) :
    prettyBytes level (.object ((key, value) :: members)) =
      0x7B :: (lineBytes (level + 1) ++ (keyBytes key ++
        0x20 :: (prettyBytes (level + 1) value ++
          Utf8.encodeChars (prettyMoreMembers level members)))) := by
  rw [prettyBytes, prettyAt, Utf8.encodeChars_cons, encodeChars_entry]
  rfl

theorem encodeChars_prettyMoreMembers (level : Nat) (key : String) (value : Json)
    (members : List (String × Json)) :
    Utf8.encodeChars (prettyMoreMembers level ((key, value) :: members)) =
      0x2C :: (lineBytes (level + 1) ++ (keyBytes key ++
        0x20 :: (prettyBytes (level + 1) value ++
          Utf8.encodeChars (prettyMoreMembers level members)))) := by
  rw [prettyMoreMembers, Utf8.encodeChars_cons, encodeChars_entry]
  rfl

mutual

theorem Written.stands {j : Json} {node : Node} (level : Nat) :
    Written j node → Stands (prettyBytes level j) node
  | .null => by
    rw [prettyBytes, prettyAt]
    exact scans_null.stands
  | .bool true => by
    rw [prettyBytes, prettyAt]
    exact (scans_bool true).stands
  | .bool false => by
    rw [prettyBytes, prettyAt]
    exact (scans_bool false).stands
  | .integer i fits => by
    rw [prettyBytes, prettyAt]
    exact (scans_integer fits).stands
  | .string s => by
    rw [prettyBytes, prettyAt]
    exact (scans_string s).stands
  | .array .nil => by
    rw [prettyBytes, prettyAt]
    exact (scans_array (scansItems_nil true)).stands
  | .array (.cons first others) => by
    rw [prettyBytes_array]
    exact stands_array (blank_lineBytes _) (first.stands _) (others.stands level)
  | .object .nil => by
    rw [prettyBytes, prettyAt]
    exact (scans_object (scansMembers_nil true)).stands
  | .object (.cons key first others) => by
    rw [prettyBytes_object]
    exact stands_object (blank_lineBytes _) key (first.stands _) (others.stands level)

theorem WrittenItems.stands {items : List Json} {nodes : List Node} (level : Nat) :
    WrittenItems items nodes →
      StandsList scanItems (Utf8.encodeChars (prettyMoreItems level items)) nodes
  | .nil => by
    rw [prettyMoreItems, Utf8.encodeChars_append]
    exact standsItems_nil (blank_lineBytes level)
  | .cons first others => by
    rw [encodeChars_prettyMoreItems]
    exact standsItems_cons (blank_lineBytes _) (first.stands _) (others.stands level)

theorem WrittenMembers.stands {members : List (String × Json)} {nodes : List (Literal × Node)}
    (level : Nat) : WrittenMembers members nodes →
      StandsList scanMembers (Utf8.encodeChars (prettyMoreMembers level members)) nodes
  | .nil => by
    rw [prettyMoreMembers, Utf8.encodeChars_append]
    exact standsMembers_nil (blank_lineBytes level)
  | .cons key first others => by
    rw [encodeChars_prettyMoreMembers]
    exact standsMembers_cons (blank_lineBytes _) key (first.stands _) (others.stands level)

end

/-- Decoding the pretty text of a value is decoding its tree. -/
theorem decodeText_prettyText {α : Type} {j : Json} {node : Node} (written : Written j node)
    (decode : Node → Except DecodeError α) : decodeText decode j.prettyText = decode node := by
  have scanned := (written.stands 0).scan (2 * (prettyBytes 0 j).length + 2) [] (by omega) .nil
  rw [List.append_nil] at scanned
  have document : Document.scan (prettyBytes 0 j) = ⟨node, none⟩ := by
    rw [Document.scan, scanned]
    rfl
  have bytes : Utf8.encode j.prettyText = prettyBytes 0 j := by
    rw [Utf8.encode, prettyText, String.toList_ofList, prettyBytes]
  rw [decodeText, decodeBytes, bytes, document]
  cases decode node <;> rfl

end ProxyConsole.Json
