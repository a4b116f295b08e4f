import ProxyConsole.Json.Numeral
import ProxyConsole.Proofs.Json.Literal

/-!
# Written integers

An integer that fits 64 bits, with or without a sign, is scanned back to itself wherever
the text after it cannot go on with the numeral.
-/

set_option autoImplicit false

namespace ProxyConsole.Json

/-- What follows does not belong to a numeral that ends here. -/
def EndsNumeral (rest : List UInt8) : Prop :=
  ∀ b ∈ rest.head?, isDigit b = false ∧ b ≠ 0x2E ∧ b ≠ 0x65 ∧ b ≠ 0x45

theorem EndsNumeral.nil : EndsNumeral [] := by
  intro b none
  cases none

theorem isDigit_iff {b : UInt8} : isDigit b = true ↔ 0x30 ≤ b.toNat ∧ b.toNat ≤ 0x39 := by
  simp [isDigit, UInt8.le_iff_toNat_le]

theorem digit?_of_isDigit {b : UInt8} (digit : isDigit b = true) :
    digit? b = some (b.toNat - 0x30) := by
  rw [digit?, if_pos (isDigit_iff.mp digit)]

theorem digit?_eq_none {b : UInt8} (other : isDigit b = false) : digit? b = none := by
  rw [digit?, if_neg]
  intro range
  rw [isDigit_iff.mpr range] at other
  cases other

/-! ## Digits -/

theorem encodeChar_digit {ch : Char} (digit : ch.isDigit = true) :
    ∃ b, Utf8.encodeChar ch = [b] ∧ isDigit b = true ∧ b.toNat = ch.toNat := by
  have range : 0x30 ≤ ch.toNat ∧ ch.toNat ≤ 0x39 := by
    simpa [Char.isDigit, UInt32.le_iff_toNat_le] using digit
  have value : (UInt8.ofNat ch.toNat).toNat = ch.toNat := by
    rw [UInt8.toNat_ofNat']
    omega
  refine ⟨UInt8.ofNat ch.toNat, Utf8.encodeChar_ascii (by omega), ?_, value⟩
  rw [isDigit_iff, value]
  exact range

theorem isDigit_of_mem_digits {n : Nat} {ch : Char} (member : ch ∈ Decimal.digits n) :
    ch.isDigit = true :=
  Nat.isDigit_of_mem_toDigits (by decide) (by decide) member

theorem isDigit_of_mem_encodeChars {cs : List Char} (digits : ∀ ch ∈ cs, ch.isDigit = true) :
    ∀ b ∈ Utf8.encodeChars cs, isDigit b = true := by
  intro b member
  obtain ⟨ch, inside, isByte⟩ := List.mem_flatMap.mp member
  obtain ⟨b', bytes, digit, _⟩ := encodeChar_digit (digits ch inside)
  rw [bytes, List.mem_singleton] at isByte
  rw [isByte]
  exact digit

theorem digits_head {n : Nat} (positive : 0 < n) :
    ∃ first rest, Decimal.digits n = first :: rest ∧ first ≠ '0' := by
  induction n using Nat.strongRecOn with
  | _ n ih =>
    by_cases single : n < 10
    · refine ⟨n.digitChar, [], Nat.toDigits_of_lt_base single, ?_⟩
      intro zero
      rw [Nat.digitChar_eq_zero] at zero
      omega
    · obtain ⟨first, rest, digits, other⟩ := ih (n / 10) (by omega) (by omega)
      refine ⟨first, rest ++ [(n % 10).digitChar], ?_, other⟩
      rw [Decimal.digits] at digits ⊢
      rw [Nat.toDigits_of_base_le (by decide) (Nat.le_of_not_lt single), digits, List.cons_append]

def Digits (bytes : List UInt8) : Prop :=
  ∀ b ∈ bytes, isDigit b = true

/-- What follows is not one more digit. -/
def StopsDigits (rest : List UInt8) : Prop :=
  ∀ b ∈ rest.head?, isDigit b = false

theorem EndsNumeral.stops {rest : List UInt8} (ends : EndsNumeral rest) : StopsDigits rest :=
  fun b first => (ends b first).1

theorem StopsDigits.dropWhile {rest : List UInt8} (stops : StopsDigits rest) :
    rest.dropWhile isDigit = rest := by
  cases rest with
  | nil => rfl
  | cons b more => rw [List.dropWhile_cons_of_neg (by simp [stops b rfl])]

theorem Digits.dropWhile {digits rest : List UInt8} (all : Digits digits)
    (stops : StopsDigits rest) : (digits ++ rest).dropWhile isDigit = rest := by
  rw [List.dropWhile_append_of_pos all, stops.dropWhile]

theorem le_ofDigitChars (cs : List Char) (acc : Nat) : acc ≤ Nat.ofDigitChars 10 cs acc := by
  induction cs generalizing acc with
  | nil => exact Nat.le_refl _
  | cons ch rest ih =>
    rw [Nat.ofDigitChars_cons]
    exact Nat.le_trans (by omega) (ih _)

/-! ## Reading -/

theorem readIntegerEnd_of_ends {negative : Bool} {n : Nat} {rest : List UInt8}
    (ends : EndsNumeral rest) :
    readIntegerEnd negative n rest =
      if !negative then .ok (.integer n)
      else if n = 0 ∨ significandLimit / 2 < n then .ok (.float (-(UInt64.ofNat n).toFloat).toBits)
      else .ok (.integer (-(n : Int))) := by
  cases rest with
  | nil => rw [readIntegerEnd] <;> intros <;> contradiction
  | cons b more =>
    obtain ⟨_, noPoint, noSmall, noLarge⟩ := ends b rfl
    rw [readIntegerEnd]
    · rintro _ ⟨rfl, _⟩
      exact noPoint rfl
    · rintro _ ⟨rfl, _⟩
      exact noSmall rfl
    · rintro _ ⟨rfl, _⟩
      exact noLarge rfl

theorem readInteger_digits (negative : Bool) {cs : List Char} (acc : Nat) {rest : List UInt8}
    (digits : ∀ ch ∈ cs, ch.isDigit = true) (fits : Nat.ofDigitChars 10 cs acc < significandLimit)
    (ends : EndsNumeral rest) :
    readInteger negative acc (Utf8.encodeChars cs ++ rest) =
      readIntegerEnd negative (Nat.ofDigitChars 10 cs acc) rest := by
  induction cs generalizing acc with
  | nil =>
    rw [Nat.ofDigitChars_nil]
    cases rest with
    | nil => rfl
    | cons b more =>
      have none := digit?_eq_none (ends b rfl).1
      rw [show Utf8.encodeChars [] ++ b :: more = b :: more from rfl, readInteger, none]
  | cons ch cs ih =>
    obtain ⟨b, bytes, digit, value⟩ := encodeChar_digit (digits ch List.mem_cons_self)
    rw [Nat.ofDigitChars_cons] at fits ⊢
    have step : acc * 10 + (b.toNat - 0x30) = 10 * acc + (ch.toNat - '0'.toNat) := by
      rw [value, Nat.mul_comm]
      rfl
    have grows := le_ofDigitChars cs (10 * acc + (ch.toNat - '0'.toNat))
    rw [Utf8.encodeChars_cons, bytes, List.append_assoc, List.singleton_append, readInteger,
      digit?_of_isDigit digit]
    dsimp only
    rw [step, if_pos (by omega)]
    exact ih _ (fun ch' member => digits ch' (List.mem_cons_of_mem _ member)) fits

theorem afterInteger_of_ends {rest : List UInt8} (ends : EndsNumeral rest) :
    afterInteger rest = .ok rest := by
  cases rest with
  | nil => rfl
  | cons b more =>
    obtain ⟨_, noPoint, noSmall, noLarge⟩ := ends b rfl
    rw [afterInteger] <;> rintro _ ⟨rfl, _⟩ <;> contradiction

theorem magnitude_digits (negative : Bool) {n : Nat} {rest : List UInt8}
    (fits : n < significandLimit) (ends : EndsNumeral rest) :
    readMagnitude negative (Utf8.encodeChars (Decimal.digits n) ++ rest) =
        readIntegerEnd negative n rest ∧
      afterMagnitude (Utf8.encodeChars (Decimal.digits n) ++ rest) = .ok rest := by
  have stops := afterInteger_of_ends ends
  by_cases positive : 0 < n
  · obtain ⟨first, more, digits, other⟩ := digits_head positive
    have all : ∀ ch ∈ Decimal.digits n, ch.isDigit = true := fun ch => isDigit_of_mem_digits
    rw [digits] at all
    obtain ⟨b, bytes, digit, value⟩ := encodeChar_digit (all first List.mem_cons_self)
    have notZero : b ≠ 0x30 := by
      rintro rfl
      exact other (Char.toNat_inj.mp value.symm)
    have number : Nat.ofDigitChars 10 (first :: more) 0 = n := by
      rw [← digits]
      exact Decimal.value_digits n
    have reads := readInteger_digits negative 0 all
      (by rw [number]; exact fits) ends
    rw [number] at reads
    have later : Digits (Utf8.encodeChars more) := isDigit_of_mem_encodeChars
      fun ch member => all ch (List.mem_cons_of_mem _ member)
    have skips := later.dropWhile ends.stops
    rw [digits]
    rw [Utf8.encodeChars_cons, bytes, List.append_assoc, List.singleton_append] at reads ⊢
    constructor
    · rw [readMagnitude, if_pos digit]
      · exact reads
      · exact notZero
    · rw [afterMagnitude, if_pos digit, skips]
      · exact stops
      · exact notZero
  · have zero : n = 0 := Nat.eq_zero_of_not_pos positive
    subst zero
    rw [show Utf8.encodeChars (Decimal.digits 0) ++ rest = 0x30 :: rest from rfl]
    cases rest with
    | nil => exact ⟨rfl, rfl⟩
    | cons b more =>
      have other := (ends b rfl).1
      simp only [readMagnitude, afterMagnitude, other, Bool.false_eq_true, if_false]
      exact ⟨trivial, stops⟩

/-! ## Integers with a sign -/

/-- The integers that keep every digit. -/
def FitsInteger (i : Int) : Prop :=
  -(significandLimit / 2 : Nat) ≤ i ∧ i < significandLimit

def Numeral.ofInt (i : Int) : Numeral :=
  ⟨.ok (.integer i), none⟩

theorem encodeChars_intText (i : Int) :
    Utf8.encodeChars (numberText (.integer i)) =
      if i < 0 then 0x2D :: Utf8.encodeChars (Decimal.digits i.natAbs)
      else Utf8.encodeChars (Decimal.digits i.natAbs) := by
  rw [numberText, Decimal.intText, Decimal.natText]
  split
  · rw [String.toList_append, String.toList_ofList, String.toList_ofList, Utf8.encodeChars_append]
    rfl
  · rw [String.toList_ofList]

theorem digits_unsigned (n : Nat) (rest more : List UInt8) :
    Utf8.encodeChars (Decimal.digits n) ++ rest ≠ 0x2D :: more := by
  intro same
  cases digits : Decimal.digits n with
  | nil => exact Nat.toDigits_ne_nil digits
  | cons first others =>
    have digit : first.isDigit = true :=
      isDigit_of_mem_digits (n := n) (by rw [digits]; exact List.mem_cons_self)
    obtain ⟨b, bytes, isByte, _⟩ := encodeChar_digit digit
    rw [digits, Utf8.encodeChars_cons, bytes] at same
    obtain ⟨rfl, _⟩ := List.cons.inj same
    exact absurd isByte (by decide)

theorem scanNumeral_intText {i : Int} {rest : List UInt8} (fits : FitsInteger i)
    (ends : EndsNumeral rest) :
    scanNumeral (Utf8.encodeChars (numberText (.integer i)) ++ rest) = (.ofInt i, rest) := by
  have half : significandLimit / 2 < significandLimit := by decide
  obtain ⟨least, most⟩ := fits
  rw [encodeChars_intText, scanNumeral]
  by_cases negative : i < 0
  · have small : i.natAbs ≤ significandLimit / 2 := by omega
    obtain ⟨reads, skips⟩ := magnitude_digits true (Nat.lt_of_le_of_lt small half) ends
    have whole : ¬ (i.natAbs = 0 ∨ significandLimit / 2 < i.natAbs) := by
      rintro (zero | large)
      · omega
      · exact Nat.not_lt.mpr small large
    have number : -(i.natAbs : Int) = i := by omega
    rw [readIntegerEnd_of_ends ends, if_neg (by simp), if_neg whole, number] at reads
    rw [if_pos negative, List.cons_append, afterNumeral, skips, readNumeral, reads]
    rfl
  · have small : i.natAbs < significandLimit := by omega
    obtain ⟨reads, skips⟩ := magnitude_digits false small ends
    have number : (i.natAbs : Int) = i := by omega
    have unsigned := digits_unsigned i.natAbs rest
    rw [readIntegerEnd_of_ends ends, if_pos (by simp), number] at reads
    rw [if_neg negative, afterNumeral, skips, readNumeral, reads]
    · rfl
    · exact unsigned
    · exact unsigned

/-! ## The bytes of an integer -/

def isSignOrDigit (b : UInt8) : Bool :=
  b == 0x2D || isDigit b

theorem printable_of_isSignOrDigit {b : UInt8} (numeral : isSignOrDigit b = true) : 0x20 < b := by
  rw [isSignOrDigit, Bool.or_eq_true, beq_iff_eq, isDigit_iff] at numeral
  rw [UInt8.lt_iff_toNat_lt]
  rcases numeral with rfl | ⟨least, _⟩
  · decide
  · exact Nat.lt_of_lt_of_le (by decide) least

theorem isSignOrDigit_of_mem {i : Int} {b : UInt8}
    (member : b ∈ Utf8.encodeChars (numberText (.integer i))) : isSignOrDigit b = true := by
  have digits : ∀ b ∈ Utf8.encodeChars (Decimal.digits i.natAbs), isSignOrDigit b = true := by
    intro b inside
    have digit := isDigit_of_mem_encodeChars (fun ch => isDigit_of_mem_digits) b inside
    rw [isSignOrDigit, digit, Bool.or_true]
  rw [encodeChars_intText] at member
  split at member
  · rcases List.mem_cons.mp member with rfl | inside
    · decide
    · exact digits b inside
  · exact digits b member

theorem encodeChars_intText_ne_nil (i : Int) :
    Utf8.encodeChars (numberText (.integer i)) ≠ [] := by
  rw [encodeChars_intText]
  split
  · exact List.cons_ne_nil _ _
  · intro empty
    cases digits : Decimal.digits i.natAbs with
    | nil => exact Nat.toDigits_ne_nil digits
    | cons first others =>
      have digit : first.isDigit = true :=
        isDigit_of_mem_digits (n := i.natAbs) (by rw [digits]; exact List.mem_cons_self)
      obtain ⟨b, bytes, _⟩ := encodeChar_digit digit
      rw [digits, Utf8.encodeChars_cons, bytes] at empty
      cases empty

end ProxyConsole.Json
