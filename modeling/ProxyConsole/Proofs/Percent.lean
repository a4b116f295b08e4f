import ProxyConsole.Proofs.Json.Literal
import ProxyConsole.Text.Blank
import ProxyConsole.Text.Percent

/-!
# Reading encoded text

Any percent-encoded text can be read back, so different texts are encoded differently.  An encoded
text holds nothing that takes a path or a query apart, and nothing blank.
-/

set_option autoImplicit false

namespace ProxyConsole.Percent

def hexValue? (c : Char) : Option Nat :=
  let n := c.toNat
  if 0x30 ≤ n ∧ n ≤ 0x39 then some (n - 0x30)
  else if 0x41 ≤ n ∧ n ≤ 0x46 then some (n - 0x37)
  else if 0x61 ≤ n ∧ n ≤ 0x66 then some (n - 0x57)
  else none

/-- The byte that two hexadecimal digits of either case stand for. -/
def byte? (high low : Char) : Option UInt8 := do
  let high ← hexValue? high
  let low ← hexValue? low
  return UInt8.ofNat (high * 16 + low)

/-- The bytes that a text stands for.  A percent sign without two digits after it is a
character like any other. -/
def bytes : List Char → List UInt8
  | '%' :: high :: low :: rest =>
    match byte? high low with
    | some b => b :: bytes rest
    | none => Utf8.encodeChar '%' ++ bytes (high :: low :: rest)
  | c :: rest => Utf8.encodeChar c ++ bytes rest
  | [] => []

def decode (s : String) : Option String :=
  Utf8.decode (bytes s.toList)

/-- The characters that take a path or a query apart. -/
def separators : List Char :=
  ['/', '?', '&', '=', '#']

/-- A text that is one segment of a path or one value of a query. -/
structure Clean (text : String) : Prop where
  whole : ∀ c ∈ text.toList, c ∉ separators
  shown : ∀ c ∈ text.toList, Text.isBlank c = false

/-- A character that can stand inside of a clean text. -/
def isInside (c : Char) : Bool :=
  !separators.contains c && !Text.isBlank c

theorem clean_iff {text : String} : Clean text ↔ text.toList.all isInside = true := by
  simp only [List.all_eq_true, isInside, Bool.and_eq_true, Bool.not_eq_true', List.contains_eq_mem,
    decide_eq_false_iff_not]
  constructor
  · intro clean c member
    exact ⟨clean.whole c member, clean.shown c member⟩
  · intro inside
    exact ⟨fun c member => (inside c member).1, fun c member => (inside c member).2⟩

instance (text : String) : Decidable (Clean text) :=
  decidable_of_iff _ clean_iff.symm

theorem Clean.without {text : String} (clean : Clean text) {sign : Char}
    (separates : sign ∈ separators) : sign ∉ text.toList :=
  fun member => clean.whole sign member separates

/-! ## One byte -/

theorem byte?_hexDigit (b : UInt8) :
    byte? (hexDigit (b.toNat / 16)) (hexDigit (b.toNat % 16)) = some b := by
  have digits : ∀ n : Fin 16, hexValue? (hexDigit n) = some n.val := by decide
  have bound : b.toNat < 256 := b.toNat_lt
  have high : b.toNat / 16 < 16 := by omega
  have low : b.toNat % 16 < 16 := by omega
  have whole : b.toNat / 16 * 16 + b.toNat % 16 = b.toNat := by omega
  simp only [byte?, digits ⟨_, high⟩, digits ⟨_, low⟩, Option.bind_eq_bind, Option.bind_some,
    Option.pure_def, whole, UInt8.ofNat_toNat]

theorem plain_char {b : UInt8} (plain : isPlain b = true) :
    (Char.ofNat b.toNat).toNat = b.toNat ∧ b.toNat < 0x80 ∧ b.toNat ≠ 0x25 := by
  have low : b.toNat < 0x80 ∧ b.toNat ≠ 0x25 := by
    simp only [isPlain, Bool.or_eq_true, Bool.and_eq_true, decide_eq_true_eq, beq_iff_eq,
      UInt8.le_iff_toNat_le, ← UInt8.toNat_inj] at plain
    simp at plain
    omega
  refine ⟨?_, low⟩
  have valid : b.toNat.isValidChar := Or.inl (by omega)
  rw [Char.ofNat, dif_pos valid]
  rfl

theorem bytes_plain {c : Char} (ordinary : c ≠ '%') (rest : List Char) :
    bytes (c :: rest) = Utf8.encodeChar c ++ bytes rest := by
  rw [bytes]
  intro high low rest' same
  simp_all

theorem bytes_encodeByte (b : UInt8) (rest : List Char) :
    bytes (encodeByte b ++ rest) = b :: bytes rest := by
  unfold encodeByte
  split
  · rename_i plain
    obtain ⟨same, ascii, ordinary⟩ := plain_char plain
    have other : Char.ofNat b.toNat ≠ '%' := by
      intro percent
      rw [percent] at same
      exact ordinary same.symm
    rw [List.singleton_append, bytes_plain other, Utf8.encodeChar_ascii (by rw [same]; exact ascii),
      same, UInt8.ofNat_toNat]
    rfl
  · simp [bytes, byte?_hexDigit]

theorem plain_inside {b : UInt8} (plain : isPlain b = true) :
    isInside (Char.ofNat b.toNat) = true := by
  obtain ⟨same, _⟩ := plain_char plain
  have other : ∀ sign ∈ separators, Char.ofNat b.toNat ≠ sign := by
    intro sign member equal
    have number : sign.toNat = b.toNat := by rw [← equal, same]
    simp only [isPlain, Bool.or_eq_true, Bool.and_eq_true, decide_eq_true_eq, beq_iff_eq,
      UInt8.le_iff_toNat_le, ← UInt8.toNat_inj] at plain
    simp only [separators, List.mem_cons, List.not_mem_nil, or_false] at member
    rcases member with rfl | rfl | rfl | rfl | rfl <;> simp at number plain <;> omega
  have shown : Text.isBlank (Char.ofNat b.toNat) = false := by
    simp only [isPlain, Bool.or_eq_true, Bool.and_eq_true, decide_eq_true_eq, beq_iff_eq,
      UInt8.le_iff_toNat_le, ← UInt8.toNat_inj] at plain
    simp [Text.isBlank, same] at plain ⊢
    omega
  simp only [isInside, shown, Bool.not_false, Bool.and_true, Bool.not_eq_true',
    List.contains_eq_mem, decide_eq_false_iff_not]
  exact fun member => other _ member rfl

/-- No character that a byte is encoded with is a separator or blank. -/
theorem encodeByte_inside (b : UInt8) : ∀ c ∈ encodeByte b, isInside c = true := by
  have digits : ∀ n : Fin 16, isInside (hexDigit n) = true := by decide
  have bound : b.toNat < 256 := b.toNat_lt
  have high : b.toNat / 16 < 16 := by omega
  have low : b.toNat % 16 < 16 := by omega
  unfold encodeByte
  split
  · rename_i plain
    simp only [List.mem_singleton]
    rintro c rfl
    exact plain_inside plain
  · simp only [List.mem_cons, List.not_mem_nil, or_false]
    rintro c (rfl | rfl | rfl)
    · decide
    · exact digits ⟨_, high⟩
    · exact digits ⟨_, low⟩

/-! ## Texts -/

theorem bytes_encoded (bs : List UInt8) : bytes (bs.flatMap encodeByte) = bs := by
  induction bs with
  | nil => rfl
  | cons b bs ih => rw [List.flatMap_cons, bytes_encodeByte, ih]

theorem decode_encode (s : String) : decode (encode s) = some s := by
  rw [decode, encode, String.toList_ofList, bytes_encoded, Utf8.decode_encode]

theorem encode_inj {s s' : String} : encode s = encode s' ↔ s = s' := by
  constructor
  · intro same
    have decoded := decode_encode s
    rw [same, decode_encode] at decoded
    exact (Option.some.inj decoded).symm
  · exact congrArg encode

theorem encode_clean (s : String) : Clean (encode s) := by
  rw [clean_iff, encode, String.toList_ofList, List.all_eq_true]
  intro c member
  obtain ⟨b, _, member⟩ := List.mem_flatMap.mp member
  exact encodeByte_inside b c member

theorem encode_ne_empty {s : String} (shown : s ≠ "") : encode s ≠ "" := by
  intro nothing
  have decoded := decode_encode s
  rw [nothing] at decoded
  have empty : decode "" = some "" := decode_encode ""
  rw [empty] at decoded
  exact shown (Option.some.inj decoded).symm

end ProxyConsole.Percent
