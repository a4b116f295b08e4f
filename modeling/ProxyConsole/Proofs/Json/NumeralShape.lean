import Mathlib.Data.List.TakeWhile
import ProxyConsole.Proofs.Json.Numeral

/-!
# The shape of numerals

A numeral is an integer part, which has no needless zero in front, perhaps with a sign,
a fraction and an exponent.  These are the numerals that are passed over.  Each of them
reads the same whatever follows it, as long as that cannot go on with the numeral.
-/

set_option autoImplicit false

namespace ProxyConsole.Json

inductive ExponentShape : List UInt8 → Prop where
  | none : ExponentShape []
  | some {mark first : UInt8} {sign digits : List UInt8} (marked : mark = 0x65 ∨ mark = 0x45)
      (signed : sign = [] ∨ sign = [0x2B] ∨ sign = [0x2D]) (digit : isDigit first = true)
      (more : Digits digits) : ExponentShape (mark :: (sign ++ first :: digits))

inductive FractionShape : List UInt8 → Prop where
  | none : FractionShape []
  | some {first : UInt8} {digits : List UInt8} (digit : isDigit first = true)
      (more : Digits digits) : FractionShape (0x2E :: first :: digits)

inductive IntegerShape : List UInt8 → Prop where
  | zero : IntegerShape [0x30]
  | positive {first : UInt8} {digits : List UInt8} (digit : isDigit first = true)
      (other : first ≠ 0x30) (more : Digits digits) : IntegerShape (first :: digits)

inductive NumeralShape : List UInt8 → Prop where
  | parts {sign integer fraction exponent : List UInt8} (signed : sign = [] ∨ sign = [0x2D])
      (before : IntegerShape integer) (after : FractionShape fraction)
      (scale : ExponentShape exponent) : NumeralShape (sign ++ (integer ++ (fraction ++ exponent)))

/-! ## Where digits stop -/

theorem ExponentShape.stops {exponent rest : List UInt8} (shape : ExponentShape exponent)
    (ends : EndsNumeral rest) : StopsDigits (exponent ++ rest) := by
  cases shape with
  | none => exact ends.stops
  | some marked =>
    intro b first
    cases first
    rcases marked with rfl | rfl <;> decide

theorem FractionShape.stops {fraction exponent rest : List UInt8} (after : FractionShape fraction)
    (scale : ExponentShape exponent) (ends : EndsNumeral rest) :
    StopsDigits (fraction ++ (exponent ++ rest)) := by
  cases after with
  | none => exact scale.stops ends
  | some =>
    intro b first
    cases first
    decide

/-! ## Reading a numeral of some shape -/

section Reading

variable {rest : List UInt8} (ends : EndsNumeral rest) (negative : Bool) (significand : Nat)
  (shift : Int)
include ends

theorem exponentDigits_append {digits : List UInt8} (all : Digits digits) (n : Nat) :
    exponentDigits n (digits ++ rest) = exponentDigits n digits := by
  induction digits generalizing n with
  | nil =>
    cases rest with
    | nil => rfl
    | cons b more =>
      rw [List.nil_append, exponentDigits, exponentDigits, digit?_eq_none (ends b rfl).1]
  | cons b digits ih =>
    obtain ⟨digit, more⟩ := List.forall_mem_cons.mp all
    rw [List.cons_append, exponentDigits, exponentDigits, digit?_of_isDigit digit]
    simp only [ih more]

theorem readExponent_append {first : UInt8} {sign digits : List UInt8}
    (signed : sign = [] ∨ sign = [0x2B] ∨ sign = [0x2D]) (digit : isDigit first = true)
    (more : Digits digits) :
    readExponent negative significand shift (sign ++ first :: digits ++ rest) =
      readExponent negative significand shift (sign ++ first :: digits) := by
  have all : Digits (first :: digits) := List.forall_mem_cons.mpr ⟨digit, more⟩
  have read := exponentDigits_append ends all 0
  rw [List.cons_append] at read
  have plus : first ≠ 0x2B := by rintro rfl; cases digit
  have minus : first ≠ 0x2D := by rintro rfl; cases digit
  rcases signed with rfl | rfl | rfl
  · simp [readExponent, plus, minus, digit, read]
  · simp [readExponent, digit, read]
  · simp [readExponent, digit, read]

theorem readFractionEnd_of_ends :
    readFractionEnd negative significand shift rest = floating negative significand shift := by
  cases rest with
  | nil => rfl
  | cons b more =>
    obtain ⟨_, _, noSmall, noLarge⟩ := ends b rfl
    rw [readFractionEnd, ends.stops.dropWhile]
    grind

theorem readFractionEnd_append {digits exponent : List UInt8} (all : Digits digits)
    (scale : ExponentShape exponent) :
    readFractionEnd negative significand shift (digits ++ (exponent ++ rest)) =
      readFractionEnd negative significand shift (digits ++ exponent) := by
  have stops := scale.stops EndsNumeral.nil
  rw [List.append_nil] at stops
  rw [readFractionEnd, readFractionEnd, all.dropWhile (scale.stops ends), all.dropWhile stops]
  cases scale with
  | none =>
    have here := readFractionEnd_of_ends ends negative significand shift
    rw [readFractionEnd, ends.stops.dropWhile] at here
    exact here
  | some marked signed digit more =>
    have read := readExponent_append ends negative significand shift signed digit more
    rcases marked with rfl | rfl <;> exact read

omit ends in
theorem fractionDigits_of_stops (stops : StopsDigits rest) :
    fractionDigits negative significand shift rest =
      readFractionEnd negative significand shift rest := by
  cases rest with
  | nil => rfl
  | cons b more => rw [fractionDigits, digit?_eq_none (stops b rfl)]

theorem fractionDigits_append {digits exponent : List UInt8} (all : Digits digits)
    (scale : ExponentShape exponent) :
    fractionDigits negative significand shift (digits ++ (exponent ++ rest)) =
      fractionDigits negative significand shift (digits ++ exponent) := by
  induction digits generalizing significand shift with
  | nil =>
    have stops := scale.stops EndsNumeral.nil
    rw [List.append_nil] at stops
    rw [List.nil_append, List.nil_append, fractionDigits_of_stops _ _ _ (scale.stops ends),
      fractionDigits_of_stops _ _ _ stops]
    exact readFractionEnd_append ends negative significand shift all scale
  | cons b digits ih =>
    obtain ⟨digit, more⟩ := List.forall_mem_cons.mp all
    have full := readFractionEnd_append ends negative significand shift all scale
    simp only [List.cons_append] at full ⊢
    simp only [fractionDigits, digit?_of_isDigit digit, ih _ _ more, full]

theorem readFraction_append {first : UInt8} {digits exponent : List UInt8}
    (digit : isDigit first = true) (more : Digits digits) (scale : ExponentShape exponent) :
    readFraction negative significand shift (first :: digits ++ (exponent ++ rest)) =
      readFraction negative significand shift (first :: digits ++ exponent) := by
  have all : Digits (first :: digits) := List.forall_mem_cons.mpr ⟨digit, more⟩
  have read := fractionDigits_append ends negative significand shift all scale
  rw [List.cons_append, List.cons_append] at read ⊢
  rw [readFraction, readFraction, if_pos digit, if_pos digit, read]

theorem readIntegerEnd_append {fraction exponent : List UInt8} (after : FractionShape fraction)
    (scale : ExponentShape exponent) :
    readIntegerEnd negative significand (fraction ++ (exponent ++ rest)) =
      readIntegerEnd negative significand (fraction ++ exponent) := by
  cases after with
  | some digit more => exact readFraction_append ends negative significand 0 digit more scale
  | none =>
    cases scale with
    | some marked signed digit more =>
      have read := readExponent_append ends negative significand 0 signed digit more
      rcases marked with rfl | rfl <;> exact read
    | none => exact (readIntegerEnd_of_ends ends).trans (readIntegerEnd_of_ends .nil).symm

theorem readLongInteger_append {digits fraction exponent : List UInt8} (all : Digits digits)
    (after : FractionShape fraction) (scale : ExponentShape exponent) :
    readLongInteger negative significand shift (digits ++ (fraction ++ (exponent ++ rest))) =
      readLongInteger negative significand shift (digits ++ (fraction ++ exponent)) := by
  induction digits generalizing shift with
  | cons b digits ih =>
    obtain ⟨digit, more⟩ := List.forall_mem_cons.mp all
    rw [List.cons_append, List.cons_append, readLongInteger, readLongInteger, if_pos digit,
      if_pos digit, ih _ more]
  | nil =>
    cases after with
    | some digit more => exact readFraction_append ends negative significand shift digit more scale
    | none =>
      cases scale with
      | some marked signed digit more =>
        have read := readExponent_append ends negative significand shift signed digit more
        rcases marked with rfl | rfl <;> exact read
      | none =>
        cases rest with
        | nil => rfl
        | cons b more =>
          obtain ⟨noDigit, noPoint, noSmall, noLarge⟩ := ends b rfl
          simp [readLongInteger, noDigit, noPoint, noSmall, noLarge]

omit ends in
theorem readInteger_of_stops (stops : StopsDigits rest) :
    readInteger negative significand rest = readIntegerEnd negative significand rest := by
  cases rest with
  | nil => rfl
  | cons b more => rw [readInteger, digit?_eq_none (stops b rfl)]

theorem readInteger_append {digits fraction exponent : List UInt8} (all : Digits digits)
    (after : FractionShape fraction) (scale : ExponentShape exponent) :
    readInteger negative significand (digits ++ (fraction ++ (exponent ++ rest))) =
      readInteger negative significand (digits ++ (fraction ++ exponent)) := by
  induction digits generalizing significand with
  | nil =>
    have stops := after.stops scale EndsNumeral.nil
    rw [List.append_nil] at stops
    rw [List.nil_append, List.nil_append, readInteger_of_stops _ _ (after.stops scale ends),
      readInteger_of_stops _ _ stops]
    exact readIntegerEnd_append ends negative significand after scale
  | cons b digits ih =>
    obtain ⟨digit, more⟩ := List.forall_mem_cons.mp all
    have full := readLongInteger_append ends negative significand 0 all after scale
    simp only [List.cons_append] at full ⊢
    simp only [readInteger, digit?_of_isDigit digit, ih _ more, full]

omit ends in
theorem readMagnitude_zero (stops : StopsDigits rest) :
    readMagnitude negative (0x30 :: rest) = readIntegerEnd negative 0 rest := by
  cases rest with
  | nil => rfl
  | cons b more => simp [readMagnitude, stops b rfl]

theorem readMagnitude_append {integer fraction exponent : List UInt8}
    (before : IntegerShape integer)
    (after : FractionShape fraction) (scale : ExponentShape exponent) :
    readMagnitude negative (integer ++ (fraction ++ (exponent ++ rest))) =
      readMagnitude negative (integer ++ (fraction ++ exponent)) := by
  cases before with
  | zero =>
    have stops := after.stops scale EndsNumeral.nil
    rw [List.append_nil] at stops
    rw [List.singleton_append, List.singleton_append, readMagnitude_zero _ (after.stops scale ends),
      readMagnitude_zero _ stops, readIntegerEnd_append ends negative 0 after scale]
  | @positive first digits digit other more =>
    have all : Digits (first :: digits) := List.forall_mem_cons.mpr ⟨digit, more⟩
    have read := readInteger_append ends negative 0 all after scale
    rw [List.cons_append, List.cons_append] at read ⊢
    rw [readMagnitude, readMagnitude, if_pos digit, if_pos digit, read]
    · exact other
    · exact other

end Reading

/-! ## Passing over a numeral of some shape -/

section Passing

variable {rest : List UInt8} (ends : EndsNumeral rest)
include ends

theorem afterExponent_append {first : UInt8} {sign digits : List UInt8}
    (signed : sign = [] ∨ sign = [0x2B] ∨ sign = [0x2D]) (digit : isDigit first = true)
    (more : Digits digits) : afterExponent (sign ++ first :: digits ++ rest) = .ok rest := by
  have skipped := more.dropWhile ends.stops
  have plus : first ≠ 0x2B := by rintro rfl; cases digit
  have minus : first ≠ 0x2D := by rintro rfl; cases digit
  rcases signed with rfl | rfl | rfl
  · simp [afterExponent, plus, minus, digit, skipped]
  · simp [afterExponent, digit, skipped]
  · simp [afterExponent, digit, skipped]

theorem afterFraction_append {first : UInt8} {digits exponent : List UInt8}
    (digit : isDigit first = true) (more : Digits digits) (scale : ExponentShape exponent) :
    afterFraction (first :: digits ++ (exponent ++ rest)) = .ok rest := by
  rw [List.cons_append, afterFraction, if_pos digit, more.dropWhile (scale.stops ends)]
  cases scale with
  | some marked signed digit more =>
    have passed := afterExponent_append ends signed digit more
    rcases marked with rfl | rfl <;> exact passed
  | none =>
    cases rest with
    | nil => rfl
    | cons b more =>
      obtain ⟨_, _, noSmall, noLarge⟩ := ends b rfl
      rw [List.nil_append]
      grind

theorem afterInteger_append {fraction exponent : List UInt8} (after : FractionShape fraction)
    (scale : ExponentShape exponent) :
    afterInteger (fraction ++ (exponent ++ rest)) = .ok rest := by
  cases after with
  | some digit more => exact afterFraction_append ends digit more scale
  | none =>
    cases scale with
    | some marked signed digit more =>
      have passed := afterExponent_append ends signed digit more
      rcases marked with rfl | rfl <;> exact passed
    | none => exact afterInteger_of_ends ends

theorem afterMagnitude_append {integer fraction exponent : List UInt8}
    (before : IntegerShape integer)
    (after : FractionShape fraction) (scale : ExponentShape exponent) :
    afterMagnitude (integer ++ (fraction ++ (exponent ++ rest))) = .ok rest := by
  have stops := after.stops scale ends
  have passed := afterInteger_append ends after scale
  cases before with
  | zero =>
    rw [List.singleton_append]
    cases tail : fraction ++ (exponent ++ rest) with
    | nil => 
      rw [tail] at passed
      exact passed
    | cons b more =>
      rw [tail] at passed stops
      simp [afterMagnitude, stops b rfl, passed]
  | @positive first digits digit other more =>
    rw [List.cons_append, afterMagnitude, if_pos digit, more.dropWhile stops, passed]
    exact other

end Passing

theorem IntegerShape.digit {integer : List UInt8} (before : IntegerShape integer)
    (more : List UInt8) : ∀ b ∈ (integer ++ more).head?, isDigit b = true := by
  intro b first
  cases before with
  | zero =>
    cases first
    rfl
  | positive digit =>
    cases first
    exact digit

/-- A numeral of some shape is scanned up to its end. -/
theorem NumeralShape.scan {text rest : List UInt8} (shape : NumeralShape text)
    (ends : EndsNumeral rest) : scanNumeral (text ++ rest) = (⟨readNumeral text, none⟩, rest) := by
  cases shape with
  | @parts sign integer fraction exponent signed before after scale =>
    have passed := afterMagnitude_append ends before after scale
    have read := fun negative => readMagnitude_append ends negative before after scale
    have unsigned : ∀ more tail, integer ++ more ≠ 0x2D :: tail := by
      intro more tail same
      have digit := before.digit more 0x2D (by rw [same]; rfl)
      cases digit
    simp only [List.append_assoc]
    rcases signed with rfl | rfl
    · rw [List.nil_append, List.nil_append, scanNumeral, afterNumeral, passed, readNumeral, read,
        readNumeral]
      all_goals exact unsigned _
    · rw [List.singleton_append, List.singleton_append, scanNumeral, afterNumeral, passed,
        readNumeral, read, readNumeral]

/-! ## The shape of what is passed over -/

theorem digits_front (bytes : List UInt8) :
    ∃ digits, Digits digits ∧ bytes = digits ++ bytes.dropWhile isDigit :=
  ⟨bytes.takeWhile isDigit, fun _ member => List.mem_takeWhile_imp member,
    List.takeWhile_append_dropWhile.symm⟩

theorem shape_of_afterExponent {mark : UInt8} {bytes rest : List UInt8}
    (marked : mark = 0x65 ∨ mark = 0x45) (passed : afterExponent bytes = .ok rest) :
    ∃ exponent, ExponentShape exponent ∧ mark :: bytes = exponent ++ rest := by
  revert passed
  fun_cases afterExponent bytes with
  | case2 unsigned first tail same digit =>
    intro passed
    cases passed
    have parts : ∃ sign, (sign = [] ∨ sign = [0x2B] ∨ sign = [0x2D]) ∧
      bytes = sign ++ first :: tail := by
      simp only [unsigned] at same
      split at same
      · exact ⟨[0x2B], .inr (.inl rfl), congrArg _ same⟩
      · exact ⟨[0x2D], .inr (.inr rfl), congrArg _ same⟩
      · exact ⟨[], .inl rfl, same⟩
    obtain ⟨sign, signed, rfl⟩ := parts
    obtain ⟨digits, more, whole⟩ := digits_front tail
    refine ⟨mark :: (sign ++ first :: digits), .some marked signed digit more, ?_⟩
    rw [List.cons_append, List.append_assoc, List.cons_append, ← whole]
  | case1 | case3 => rintro ⟨⟩

theorem shape_of_afterFraction {bytes rest : List UInt8} (passed : afterFraction bytes = .ok rest) :
    ∃ fraction exponent, FractionShape fraction ∧ ExponentShape exponent ∧
      0x2E :: bytes = fraction ++ (exponent ++ rest) := by
  revert passed
  fun_cases afterFraction bytes with
  | case1 | case5 => rintro ⟨⟩
  | case2 first tail digit others stopped =>
    intro passed
    obtain ⟨digits, more, whole⟩ := digits_front tail
    obtain ⟨exponent, scale, same⟩ := shape_of_afterExponent (.inl rfl) passed
    refine ⟨0x2E :: first :: digits, exponent, .some digit more, scale, ?_⟩
    rw [whole, stopped, same, List.cons_append, List.cons_append]
  | case3 first tail digit others stopped =>
    intro passed
    obtain ⟨digits, more, whole⟩ := digits_front tail
    obtain ⟨exponent, scale, same⟩ := shape_of_afterExponent (.inr rfl) passed
    refine ⟨0x2E :: first :: digits, exponent, .some digit more, scale, ?_⟩
    rw [whole, stopped, same, List.cons_append, List.cons_append]
  | case4 first tail digit =>
    intro passed
    cases passed
    obtain ⟨digits, more, whole⟩ := digits_front tail
    refine ⟨0x2E :: first :: digits, [], .some digit more, .none, ?_⟩
    rw [List.cons_append, List.cons_append, List.nil_append, ← whole]

theorem shape_of_afterInteger {bytes rest : List UInt8} (passed : afterInteger bytes = .ok rest) :
    ∃ fraction exponent, FractionShape fraction ∧ ExponentShape exponent ∧
      bytes = fraction ++ (exponent ++ rest) := by
  revert passed
  fun_cases afterInteger bytes with
  | case1 tail => exact shape_of_afterFraction
  | case2 tail =>
    intro passed
    obtain ⟨exponent, scale, same⟩ := shape_of_afterExponent (.inl rfl) passed
    exact ⟨[], exponent, .none, scale, same⟩
  | case3 tail =>
    intro passed
    obtain ⟨exponent, scale, same⟩ := shape_of_afterExponent (.inr rfl) passed
    exact ⟨[], exponent, .none, scale, same⟩
  | case4 =>
    intro passed
    cases passed
    exact ⟨[], [], .none, .none, rfl⟩

theorem shape_of_afterMagnitude {bytes rest : List UInt8}
    (passed : afterMagnitude bytes = .ok rest) :
    ∃ integer fraction exponent, IntegerShape integer ∧ FractionShape fraction ∧
      ExponentShape exponent ∧ bytes = integer ++ (fraction ++ (exponent ++ rest)) := by
  revert passed
  fun_cases afterMagnitude bytes with
  | case1 | case3 | case6 => rintro ⟨⟩
  | case2 =>
    intro passed
    cases passed
    exact ⟨[0x30], [], [], .zero, .none, .none, rfl⟩
  | case4 first tail =>
    intro passed
    obtain ⟨fraction, exponent, after, scale, same⟩ := shape_of_afterInteger passed
    exact ⟨[0x30], fraction, exponent, .zero, after, scale, congrArg _ same⟩
  | case5 first tail other digit =>
    intro passed
    obtain ⟨digits, more, whole⟩ := digits_front tail
    obtain ⟨fraction, exponent, after, scale, same⟩ := shape_of_afterInteger passed
    refine ⟨first :: digits, fraction, exponent, .positive digit other more, after, scale, ?_⟩
    rw [List.cons_append, ← same, ← whole]

theorem shape_of_afterNumeral {bytes rest : List UInt8} (passed : afterNumeral bytes = .ok rest) :
    ∃ text, NumeralShape text ∧ bytes = text ++ rest := by
  revert passed
  fun_cases afterNumeral bytes with
  | case1 tail =>
    intro passed
    obtain ⟨integer, fraction, exponent, before, after, scale, rfl⟩ :=
      shape_of_afterMagnitude passed
    refine ⟨_, .parts (.inr rfl) before after scale, ?_⟩
    simp only [List.append_assoc, List.cons_append, List.nil_append]
  | case2 =>
    intro passed
    obtain ⟨integer, fraction, exponent, before, after, scale, rfl⟩ :=
      shape_of_afterMagnitude passed
    refine ⟨_, .parts (.inl rfl) before after scale, ?_⟩
    simp only [List.append_assoc, List.nil_append]

/-- A numeral after which something is left has a shape. -/
theorem shape_of_scanNumeral {bytes rest : List UInt8} {numeral : Numeral}
    (scanned : scanNumeral bytes = (numeral, rest)) (left : rest ≠ []) (ends : EndsNumeral rest) :
    ∃ text, NumeralShape text ∧ bytes = text ++ rest ∧ numeral = ⟨readNumeral text, none⟩ := by
  cases passed : afterNumeral bytes with
  | error f =>
    simp only [scanNumeral, passed] at scanned
    exact absurd (Prod.mk.inj scanned).2.symm left
  | ok others =>
    have same : others = rest := by
      simp only [scanNumeral, passed] at scanned
      exact (Prod.mk.inj scanned).2
    subst same
    obtain ⟨text, shape, rfl⟩ := shape_of_afterNumeral passed
    rw [shape.scan ends] at scanned
    exact ⟨text, shape, rfl, (Prod.mk.inj scanned).1.symm⟩

end ProxyConsole.Json
