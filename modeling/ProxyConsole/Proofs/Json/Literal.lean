import ProxyConsole.Json.Literal
import ProxyConsole.Json.Printer

/-!
# Quoted text

A quoted text is scanned back to itself, whatever characters it holds.  Both scans of a literal are
followed piece by piece: each piece of the written text stands for the bytes of one character and
leaves what comes after it.
-/

set_option autoImplicit false

namespace ProxyConsole

/-! ## The bytes of characters -/

namespace Utf8

theorem encodeChars_append (front back : List Char) :
    encodeChars (front ++ back) = encodeChars front ++ encodeChars back :=
  List.flatMap_append

theorem encodeChars_cons (first : Char) (rest : List Char) :
    encodeChars (first :: rest) = encodeChar first ++ encodeChars rest :=
  List.flatMap_cons

theorem encodeChar_ascii {ch : Char} (ascii : ch.toNat < 0x80) :
    encodeChar ch = [UInt8.ofNat ch.toNat] := by
  have least : ch.val.toNat ≤ 0x7F := Nat.le_of_lt_succ ascii
  rw [encodeChar, String.utf8EncodeChar]
  exact if_pos least

theorem high_of_mem_encodeChar {ch : Char} (wide : 0x80 ≤ ch.toNat) {b : UInt8}
    (member : b ∈ encodeChar ch) : 0x80 ≤ b.toNat := by
  have beyond : ¬ ch.val.toNat ≤ 0x7F := Nat.not_le.mpr wide
  rw [encodeChar, String.utf8EncodeChar] at member
  simp only [if_neg beyond] at member
  split at member
  · simp only [List.mem_cons, List.not_mem_nil, or_false] at member
    rcases member with rfl | rfl <;> rw [UInt8.toNat_ofNat'] <;> omega
  · split at member
    · simp only [List.mem_cons, List.not_mem_nil, or_false] at member
      rcases member with rfl | rfl | rfl <;> rw [UInt8.toNat_ofNat'] <;> omega
    · simp only [List.mem_cons, List.not_mem_nil, or_false] at member
      rcases member with rfl | rfl | rfl | rfl <;> rw [UInt8.toNat_ofNat'] <;> omega

end Utf8

namespace Json

/-- No byte is a control character; so a text of such bytes is one line. -/
def Printable (bytes : List UInt8) : Prop :=
  ∀ b ∈ bytes, 0x20 ≤ b

instance (bytes : List UInt8) : Decidable (Printable bytes) :=
  List.decidableBAll (0x20 ≤ ·) bytes

theorem Printable.append {front back : List UInt8} (first : Printable front)
    (second : Printable back) : Printable (front ++ back) := by
  intro b member
  rcases List.mem_append.mp member with inFront | inBack
  · exact first b inFront
  · exact second b inBack

theorem Printable.cons {b : UInt8} {rest : List UInt8} (first : 0x20 ≤ b)
    (others : Printable rest) : Printable (b :: rest) :=
  List.forall_mem_cons.mpr ⟨first, others⟩

/-! ## Pieces of a literal -/

/-- In both scans of a literal the written bytes stand for the bytes read, whatever comes after
them. -/
def Spells (written read : List UInt8) : Prop :=
  ∀ fuel tail, written.length ≤ fuel → ∃ left, fuel ≤ left + written.length ∧
    contents fuel (written ++ tail) = withBytes read (contents left tail) ∧
    afterLiteral fuel (written ++ tail) = afterLiteral left tail

theorem withBytes_nil (result : Except Fault (List UInt8)) : withBytes [] result = result := by
  cases result <;> rfl

theorem withBytes_append (front back : List UInt8) (result : Except Fault (List UInt8)) :
    withBytes front (withBytes back result) = withBytes (front ++ back) result := by
  cases result with
  | error f => rfl
  | ok bytes => rw [withBytes, withBytes, withBytes, List.append_assoc]

theorem spells_nil : Spells [] [] := by
  intro fuel tail _
  exact ⟨fuel, Nat.le_refl _, (withBytes_nil _).symm, rfl⟩

theorem Spells.append {written written' read read' : List UInt8} (first : Spells written read)
    (second : Spells written' read') : Spells (written ++ written') (read ++ read') := by
  intro fuel tail enough
  rw [List.length_append] at enough
  obtain ⟨middle, used, read₁, passed₁⟩ := first fuel (written' ++ tail) (by omega)
  obtain ⟨left, used', read₂, passed₂⟩ := second middle tail (by omega)
  refine ⟨left, ?_, ?_, ?_⟩
  · rw [List.length_append]
    omega
  · rw [List.append_assoc, read₁, read₂, withBytes_append]
  · rw [List.append_assoc, passed₁, passed₂]

theorem spells_plain {b : UInt8} (printable : 0x20 ≤ b) (noQuote : b ≠ 0x22)
    (noBackslash : b ≠ 0x5C) : Spells [b] [b] := by
  have shown : ¬ b < 0x20 := UInt8.not_lt.mpr printable
  intro fuel tail enough
  cases fuel with
  | zero => exact absurd enough (by simp)
  | succ left =>
    refine ⟨left, Nat.le_refl _, ?_, ?_⟩
    · rw [List.singleton_append, contents, if_neg shown]
      all_goals grind
    · rw [List.singleton_append, afterLiteral, if_neg shown]
      all_goals grind

theorem spells_escape {e b : UInt8} (escape : simpleEscape? e = some b) :
    Spells [0x5C, e] [b] := by
  have other : e ≠ 0x75 := by
    rintro rfl
    cases escape
  intro fuel tail enough
  cases fuel with
  | zero => exact absurd enough (by simp)
  | succ left =>
    refine ⟨left, by simp, ?_, ?_⟩
    · rw [List.cons_append, List.singleton_append, contents, escape]
      all_goals grind
    · rw [List.cons_append, List.singleton_append, afterLiteral, escape]
      all_goals grind

theorem spells_hexQuad {b₁ b₂ b₃ b₄ : UInt8} {n : Nat} (quad : hexQuad? b₁ b₂ b₃ b₄ = some n)
    (single : n < 0xD800) :
    Spells [0x5C, 0x75, b₁, b₂, b₃, b₄] (Utf8.encodeChar (Char.ofNat n)) := by
  have notLow : isLowSurrogate n = false := by
    simp only [isLowSurrogate, Bool.and_eq_false_iff, decide_eq_false_iff_not]
    omega
  have notHigh : isHighSurrogate n = false := by
    simp only [isHighSurrogate, Bool.and_eq_false_iff, decide_eq_false_iff_not]
    omega
  intro fuel tail enough
  cases fuel with
  | zero => exact absurd enough (by simp)
  | succ left =>
    refine ⟨left, by simp, ?_, ?_⟩
    · simp only [List.cons_append, List.nil_append, contents, quad, notLow, notHigh]
      rfl
    · simp only [List.cons_append, List.nil_append, afterLiteral, quad]

/-! ## Escaped characters -/

theorem hexDigit_hexDigitChar {n : Nat} (digit : n < 16) : ∃ b,
    Utf8.encodeChar (hexDigitChar n) = [b] ∧ hexDigit? b = some n ∧ 0x20 ≤ b := by
  have all : ∀ n < 16, (Utf8.encodeChar (hexDigitChar n)).length = 1 ∧
      Printable (Utf8.encodeChar (hexDigitChar n)) ∧
      (Utf8.encodeChar (hexDigitChar n)).map hexDigit? = [some n] := by decide
  obtain ⟨single, printable, value⟩ := all n digit
  obtain ⟨b, written⟩ := List.length_eq_one_iff.mp single
  rw [written] at printable value
  exact ⟨b, written, List.singleton_inj.mp value, printable b (List.mem_singleton_self b)⟩

theorem encodeChars_control {ch : Char} (control : ch.toNat < 0x20) :
    ∃ high low, 0x20 ≤ high ∧ 0x20 ≤ low ∧ hexQuad? 0x30 0x30 high low = some ch.toNat ∧
      Utf8.encodeChars
        ['\\', 'u', '0', '0', hexDigitChar (ch.toNat / 16), hexDigitChar ch.toNat] =
        [0x5C, 0x75, 0x30, 0x30, high, low] := by
  obtain ⟨high, writtenHigh, readHigh, shownHigh⟩ :=
    hexDigit_hexDigitChar (n := ch.toNat / 16) (by omega)
  obtain ⟨low, writtenLow, readLow, shownLow⟩ :=
    hexDigit_hexDigitChar (Nat.mod_lt ch.toNat (by decide : 0 < 16))
  have lowDigit : hexDigitChar (ch.toNat % 16) = hexDigitChar ch.toNat := by
    rw [hexDigitChar, hexDigitChar, Nat.mod_mod]
  rw [lowDigit] at writtenLow
  have zero : hexDigit? 0x30 = some 0 := by decide
  refine ⟨high, low, shownHigh, shownLow, ?_, ?_⟩
  · have whole : ((0 * 16 + 0) * 16 + ch.toNat / 16) * 16 + ch.toNat % 16 = ch.toNat := by omega
    simp only [hexQuad?, zero, readHigh, readLow, Option.bind_eq_bind, Option.bind_some,
      Option.pure_def, whole]
  · have front : Utf8.encodeChars ['\\', 'u', '0', '0'] = [0x5C, 0x75, 0x30, 0x30] := by decide
    have parts : ['\\', 'u', '0', '0', hexDigitChar (ch.toNat / 16), hexDigitChar ch.toNat] =
        ['\\', 'u', '0', '0'] ++
          [hexDigitChar (ch.toNat / 16), hexDigitChar ch.toNat] := rfl
    rw [parts, Utf8.encodeChars_append, front, Utf8.encodeChars_cons, Utf8.encodeChars_cons,
      writtenHigh, writtenLow]
    rfl

/-- A character that is written raw has only bytes that stand for themselves. -/
theorem raw_of_mem_encodeChar {ch : Char} (noQuote : ch ≠ '"') (noBackslash : ch ≠ '\\')
    (noControl : 0x20 ≤ ch.toNat) {b : UInt8} (member : b ∈ Utf8.encodeChar ch) :
    0x20 ≤ b ∧ b ≠ 0x22 ∧ b ≠ 0x5C := by
  by_cases ascii : ch.toNat < 0x80
  · rw [Utf8.encodeChar_ascii ascii, List.mem_singleton] at member
    have value : b.toNat = ch.toNat := by
      rw [member, UInt8.toNat_ofNat']
      omega
    have other : ∀ ch' : Char, ch ≠ ch' → ch.toNat ≠ ch'.toNat :=
      fun ch' differ same => differ (Char.toNat_inj.mp same)
    refine ⟨?_, ?_, ?_⟩
    · rw [UInt8.le_iff_toNat_le, value]
      exact noControl
    · rintro rfl
      exact other '"' noQuote value.symm
    · rintro rfl
      exact other '\\' noBackslash value.symm
  · have high := Utf8.high_of_mem_encodeChar (Nat.le_of_not_lt ascii) member
    refine ⟨?_, ?_, ?_⟩
    · rw [UInt8.le_iff_toNat_le]
      exact Nat.le_trans (by decide) high
    · rintro rfl
      exact absurd high (by decide)
    · rintro rfl
      exact absurd high (by decide)

theorem spells_raw {bytes : List UInt8} (raw : ∀ b ∈ bytes, 0x20 ≤ b ∧ b ≠ 0x22 ∧ b ≠ 0x5C) :
    Spells bytes bytes := by
  induction bytes with
  | nil => exact spells_nil
  | cons b rest ih =>
    obtain ⟨printable, noQuote, noBackslash⟩ := raw b List.mem_cons_self
    have others := ih fun b' member => raw b' (List.mem_cons_of_mem _ member)
    exact (spells_plain printable noQuote noBackslash).append others

theorem escapeChar_spec (ch : Char) :
    Spells (Utf8.encodeChars (escapeChar ch)) (Utf8.encodeChar ch) ∧
      Printable (Utf8.encodeChars (escapeChar ch)) := by
  have short : ∀ (written : List Char) (e b : UInt8),
      Utf8.encodeChars written = [0x5C, e] → Utf8.encodeChar ch = [b] →
      simpleEscape? e = some b → 0x20 ≤ e →
      Spells (Utf8.encodeChars written) (Utf8.encodeChar ch) ∧
        Printable (Utf8.encodeChars written) := by
    intro written e b shown stands escape printable
    rw [shown, stands]
    exact ⟨spells_escape escape, .cons (by decide) (.cons printable (by decide))⟩
  unfold escapeChar
  split
  · subst ch
    exact short _ 0x22 0x22 (by decide) (by decide) (by decide) (by decide)
  split
  · subst ch
    exact short _ 0x5C 0x5C (by decide) (by decide) (by decide) (by decide)
  split
  · subst ch
    exact short _ 0x6E 0x0A (by decide) (by decide) (by decide) (by decide)
  split
  · subst ch
    exact short _ 0x72 0x0D (by decide) (by decide) (by decide) (by decide)
  split
  · subst ch
    exact short _ 0x74 0x09 (by decide) (by decide) (by decide) (by decide)
  split
  · subst ch
    exact short _ 0x62 0x08 (by decide) (by decide) (by decide) (by decide)
  split
  · subst ch
    exact short _ 0x66 0x0C (by decide) (by decide) (by decide) (by decide)
  split
  · rename_i control
    obtain ⟨high, low, shownHigh, shownLow, quad, written⟩ := encodeChars_control control
    have spells := spells_hexQuad quad (by omega)
    rw [Char.ofNat_toNat] at spells
    rw [written]
    refine ⟨spells, ?_⟩
    have front : Printable [0x5C, 0x75, 0x30, 0x30] := by decide
    exact front.append (.cons shownHigh (.cons shownLow (by decide)))
  · rename_i noQuote noBackslash _ _ _ _ _ noControl
    have raw := fun b member =>
      raw_of_mem_encodeChar (b := b) noQuote noBackslash (Nat.le_of_not_lt noControl) member
    rw [Utf8.encodeChars_cons, show Utf8.encodeChars [] = [] from rfl, List.append_nil]
    exact ⟨spells_raw raw, fun b member => (raw b member).1⟩

theorem spells_escaped (cs : List Char) :
    Spells (Utf8.encodeChars (cs.flatMap escapeChar)) (Utf8.encodeChars cs) ∧
      Printable (Utf8.encodeChars (cs.flatMap escapeChar)) := by
  induction cs with
  | nil => exact ⟨spells_nil, by decide⟩
  | cons ch rest ih =>
    obtain ⟨spells, printable⟩ := escapeChar_spec ch
    rw [List.flatMap_cons, Utf8.encodeChars_append, Utf8.encodeChars_cons]
    exact ⟨spells.append ih.1, printable.append ih.2⟩

/-! ## Whole literals -/

def Literal.ofText (s : String) : Literal :=
  ⟨.ok s, none⟩

/-- The bytes of a text between its quotes. -/
def escaped (s : String) : List UInt8 :=
  Utf8.encodeChars (s.toList.flatMap escapeChar)

theorem encodeChars_quote (s : String) :
    Utf8.encodeChars (quote s) = 0x22 :: (escaped s ++ [0x22]) := by
  rw [quote, Utf8.encodeChars_cons, Utf8.encodeChars_append]
  rfl

theorem printable_quote (s : String) : Printable (Utf8.encodeChars (quote s)) := by
  rw [encodeChars_quote]
  exact .cons (by decide) ((spells_escaped s.toList).2.append (.cons (by decide) (by decide)))

theorem scanLiteral_escaped (s : String) (rest : List UInt8) :
    scanLiteral (escaped s ++ 0x22 :: rest) = (.ofText s, rest) := by
  obtain ⟨left, used, read, passed⟩ := (spells_escaped s.toList).1
    ((escaped s ++ 0x22 :: rest).length + 1) (0x22 :: rest) (by
      rw [List.length_append]
      exact Nat.le_trans (Nat.le_add_right _ _) (Nat.le_succ _))
  have more : ∃ fuel, left = fuel + 1 := by
    rw [List.length_append, List.length_cons] at used
    exact ⟨left - 1, by rw [escaped] at used; omega⟩
  obtain ⟨fuel, rfl⟩ := more
  rw [scanLiteral]
  rw [escaped] at read passed ⊢
  simp only [read, passed, contents, afterLiteral, withBytes, List.append_nil]
  have decoded : textOfBytes (Utf8.encodeChars s.toList) = .ok s := by
    rw [textOfBytes, ← Utf8.encode, Utf8.decode_encode]
  simp only [Except.bind, decoded]
  rfl

end Json

end ProxyConsole
