import ProxyConsole.Proofs.Toml.Numeral
import ProxyConsole.Toml.Printer

/-!
# Floating point numbers of a document

A floating point number is written with a point between digits, or as a word.  Where it
can be read back it is read as a floating point number again, up to its end.
-/

set_option autoImplicit false

namespace ProxyConsole

namespace Decimal

/-! ## Significands -/

/-- Only zero has no significant digits. -/
def Scientific.Marked (s : Scientific) : Prop :=
  s.significand = 0 → s.exponent = 0

theorem Interval.not_contains_zero {i : Interval} {d : Nat} (low : 0 < i.low) (positive : 0 < d) :
    i.contains 0 d = false := by
  have above := Nat.mul_pos low positive
  rw [contains, Nat.zero_mul]
  split
  · rw [decide_eq_false (by omega), Bool.false_and]
  · rw [decide_eq_false (by omega), Bool.false_and]

theorem tenTo_pos (n : Nat) : 0 < tenTo n :=
  Nat.pow_pos (by decide)

theorem twoTo_pos (n : Nat) : 0 < twoTo n :=
  Nat.pow_pos (by decide)

theorem Interval.grid?_marked {i : Interval} {tie : Tie} {top : Int} {places : Nat} {s : Scientific}
    (low : 0 < i.low) (found : i.grid? tie top places = some s) : s.significand ≠ 0 := by
  have zero : ∀ n e, i.contains (n * tenTo e) (tenTo (-(top - places)).toNat) = true → n ≠ 0 := by
    rintro n e inside rfl
    rw [Nat.zero_mul, not_contains_zero low (tenTo_pos _)] at inside
    cases inside
  simp only [grid?] at found
  split at found
  · rename_i inside _
    cases found
    dsimp only
    split
    · exact zero _ _ inside
    · exact Nat.succ_ne_zero _
  · rename_i inside _
    cases found
    exact zero _ _ inside
  · cases found
    exact Nat.succ_ne_zero _
  · cases found

theorem Interval.search_marked {i : Interval} (low : 0 < i.low) (tie : Tie) (top : Int)
    (places fuel : Nat) : (i.search tie top places fuel).Marked := by
  induction fuel generalizing places with
  | zero => exact fun _ => rfl
  | succ fuel ih =>
    rw [search]
    split
    · rename_i found
      exact fun none => absurd none (grid?_marked low found)
    · exact ih _

theorem Scientific.Marked.strip {s : Scientific} (marked : s.Marked) (fuel : Nat) :
    (s.strip fuel).Marked := by
  induction fuel generalizing s with
  | zero => exact marked
  | succ fuel ih =>
    rw [Scientific.strip]
    split
    · rename_i zeros
      refine ih fun none => ?_
      dsimp only at none
      omega
    · exact marked

theorem shortest_marked (tie : Tie) (mantissa : Nat) (power : Int) :
    (shortest tie mantissa power).Marked := by
  rw [shortest]
  split
  · exact fun _ => rfl
  · rename_i positive
    refine (Interval.search_marked ?_ tie _ 1 17).strip 20
    refine Nat.mul_pos ?_ (twoTo_pos _)
    split <;> omega

/-! ## Positional texts -/

/-- Digits with a point between them, without needless zeros in front. -/
def Positional (cs : List Char) : Prop :=
  ∃ first whole place places, cs = first :: whole ++ '.' :: place :: places ∧
    (∀ d ∈ first :: whole, d.isDigit = true) ∧ (∀ d ∈ place :: places, d.isDigit = true) ∧
    (whole = [] ∨ first ≠ '0')

theorem isDigit_of_mem_replicate {n : Nat} {d : Char} (member : d ∈ List.replicate n '0') :
    d.isDigit = true := by
  rw [(List.mem_replicate.mp member).2]
  rfl

theorem Scientific.Marked.positional_up {s : Scientific} (marked : s.Marked) :
    Positional (digits s.significand ++ List.replicate s.exponent.toNat '0' ++ ['.', '0']) := by
  have each : ∀ d ∈ digits s.significand ++ List.replicate s.exponent.toNat '0', d.isDigit = true :=
    List.forall_mem_append.mpr
      ⟨fun d => Json.isDigit_of_mem_digits, fun d => isDigit_of_mem_replicate⟩
  by_cases positive : 0 < s.significand
  · obtain ⟨first, more, shape, other⟩ := Json.digits_head positive
    rw [shape, List.cons_append] at each ⊢
    exact ⟨first, _, '0', [], rfl, each, List.forall_mem_singleton.mpr rfl, .inr other⟩
  · have zero := Nat.eq_zero_of_not_pos positive
    rw [zero, marked zero]
    exact ⟨'0', [], '0', [], rfl, List.forall_mem_singleton.mpr rfl,
      List.forall_mem_singleton.mpr rfl, .inl rfl⟩

theorem positional_of_places {padded : List Char} {places : Nat} (some : 0 < places)
    (each : ∀ d ∈ padded, d.isDigit = true) (long : places < padded.length)
    (head : ∀ first more, padded = first :: more → first ≠ '0' ∨ more.length = places) :
    Positional (padded.take (padded.length - places) ++
      '.' :: padded.drop (padded.length - places)) := by
  obtain ⟨first, more, rfl⟩ := List.exists_cons_of_length_pos (Nat.zero_lt_of_lt long)
  have count : (first :: more).length - places = (more.length - places) + 1 := by
    rw [List.length_cons] at long ⊢
    omega
  have left : (first :: more).drop ((first :: more).length - places) ≠ [] := by
    rw [← List.length_pos_iff, List.length_drop]
    omega
  obtain ⟨place, rest, behind⟩ := List.exists_cons_of_ne_nil left
  refine ⟨first, more.take (more.length - places), place, rest, ?_, ?_, ?_, ?_⟩
  · rw [behind, count, List.take_succ_cons]
  · refine List.forall_mem_cons.mpr ⟨each first List.mem_cons_self, fun d member => ?_⟩
    exact each d (List.mem_cons_of_mem _ (List.mem_of_mem_take member))
  · rw [← behind]
    exact fun d member => each d (List.mem_of_mem_drop member)
  · rcases head first more rfl with other | exact
    · exact .inr other
    · rw [exact, Nat.sub_self]
      exact .inl rfl

theorem Scientific.positional_down (s : Scientific) {places : Nat} (some : 0 < places) :
    Positional
      (let padded := List.replicate (places + 1 - (digits s.significand).length) '0' ++
        digits s.significand
      padded.take (padded.length - places) ++ '.' :: padded.drop (padded.length - places)) := by
  refine positional_of_places some ?_ ?_ ?_
  · exact List.forall_mem_append.mpr
      ⟨fun d member => isDigit_of_mem_replicate member, fun d member =>
        Json.isDigit_of_mem_digits member⟩
  · rw [List.length_append, List.length_replicate]
    omega
  · intro first more shape
    by_cases short : (digits s.significand).length ≤ places
    · have length := congrArg List.length shape
      rw [List.length_append, List.length_replicate, List.length_cons] at length
      exact .inr (by omega)
    · have none : places + 1 - (digits s.significand).length = 0 := by omega
      rw [none, List.replicate_zero, List.nil_append] at shape
      by_cases positive : 0 < s.significand
      · obtain ⟨first', more', shape', other⟩ := Json.digits_head positive
        cases shape.symm.trans shape'
        exact .inl other
      · rw [Nat.eq_zero_of_not_pos positive] at short
        exact absurd (show (digits 0).length ≤ places from some) short

theorem Scientific.Marked.positional {s : Scientific} (marked : s.Marked) :
    Positional (s.positional true).toList := by
  rw [Scientific.positional]
  split
  · simpa using marked.positional_up
  · rename_i down
    have places : 0 < s.exponent.natAbs := by omega
    simpa using s.positional_down places

end Decimal

/-! ## Reading -/

namespace Toml

variable {cs rest left : List Char} {v : Toml}

/-- What is read of a text is a floating point number, and all of the text is read. -/
def ReadsFloat (scan : Scanner Toml) (cs : List Char) : Prop :=
  ∀ rest v left, EndsValue rest → scan (cs ++ rest) = some (v, left) →
    left = rest ∧ ∃ bits, v = .float bits

theorem scanWhole_point {first : Char} {whole : List Char}
    (digits : ∀ d ∈ first :: whole, d.isDigit = true) (plain : whole = [] ∨ first ≠ '0')
    (more : List Char) :
    scanWhole (first :: whole ++ '.' :: more) = some (first :: whole, '.' :: more) := by
  by_cases zero : first = '0'
  · rcases plain with rfl | other
    · rw [zero]
      rfl
    · exact absurd zero other
  · have grouped : scanGrouped Char.isDigit (first :: whole ++ '.' :: more) = _ :=
      scanGrouped_digits digits (by
        intro c member
        cases member
        decide)
    unfold scanWhole
    split
    · rename_i same
      exact absurd (List.cons.inj same).1 zero
    · exact grouped

theorem scanExponent_ends (ends : EndsValue rest) : scanExponent rest = some (0, rest) := by
  cases rest with
  | nil => rfl
  | cons c rest =>
    have other := ends.not (p := fun c => c = 'e' || c = 'E') (by decide) c rfl
    simp only [Bool.or_eq_false_iff, decide_eq_false_iff_not] at other
    unfold scanExponent
    dsimp only
    rw [if_neg (not_or.mpr other)]

theorem readsFloat_decimal (negative : Bool) (positional : Decimal.Positional cs) :
    ReadsFloat (scanDecimal negative) cs := by
  intro rest v left ends scanned
  obtain ⟨first, whole, place, places, rfl, digits, digits', plain⟩ := positional
  have front := scanWhole_point digits plain (place :: places ++ rest)
  have behind : scanPlaces ('.' :: (place :: places ++ rest)) = some (place :: places, rest) := by
    have stops := ends.not (p := fun c => c.isDigit || c = '_') (by decide)
    rw [scanPlaces, scanGrouped_digits digits' (by simpa using stops)]
  rw [List.append_assoc] at scanned
  change scanDecimal negative (first :: whole ++ '.' :: (place :: places ++ rest)) = _ at scanned
  rw [scanDecimal, front] at scanned
  simp only [Option.bind_eq_bind, Option.bind_some, behind, scanExponent_ends ends, decide_true,
    Bool.true_or, if_true, Option.pure_def, Option.bind_eq_some_iff, Option.some.injEq,
    Prod.mk.injEq] at scanned
  obtain ⟨bits, _, rfl, rfl⟩ := scanned
  exact ⟨rfl, bits, rfl⟩

/-- The texts of floating point numbers without a sign. -/
inductive Unsigned : List Char → Prop where
  | nan : Unsigned ['n', 'a', 'n']
  | infinite : Unsigned ['i', 'n', 'f']
  | positional {cs : List Char} (positional : Decimal.Positional cs) : Unsigned cs

theorem Unsigned.readsFloat (unsigned : Unsigned cs) (negative : Bool) :
    ReadsFloat (scanMagnitude negative) cs := by
  cases unsigned with
  | nan =>
    rintro rest v left _ ⟨⟩
    exact ⟨rfl, _, rfl⟩
  | infinite =>
    rintro rest v left _ ⟨⟩
    exact ⟨rfl, _, rfl⟩
  | positional positional =>
    intro rest v left ends scanned
    refine readsFloat_decimal negative positional rest v left ends ?_
    obtain ⟨first, whole, place, places, rfl, digits, _⟩ := positional
    have digit := digits first List.mem_cons_self
    unfold scanMagnitude at scanned
    split at scanned
    · rename_i same
      rw [(List.cons.inj same).1] at digit
      cases digit
    · rename_i same
      rw [(List.cons.inj same).1] at digit
      cases digit
    · exact scanned

theorem Unsigned.scanNumeral (unsigned : Unsigned cs) (rest : List Char) :
    scanNumeral (cs ++ rest) = scanMagnitude false (cs ++ rest) := by
  cases unsigned with
  | nan => rfl
  | infinite => rfl
  | positional positional =>
    obtain ⟨first, whole, place, places, rfl, digits, _, plain⟩ := positional
    have digit := digits first List.mem_cons_self
    have second : first = '0' → whole = [] := fun zero => plain.resolve_right (not_not_intro zero)
    unfold Toml.scanNumeral
    split
    iterate 2
      · rename_i same
        rw [(List.cons.inj same).1] at digit
        cases digit
    iterate 3
      · rename_i same
        rw [second (List.cons.inj same).1] at same
        cases same
    · rfl

theorem Unsigned.not_startsMoment (unsigned : Unsigned cs) (rest : List Char) :
    startsDate (cs ++ rest) = false ∧ startsTime (cs ++ rest) = false := by
  cases unsigned with
  | nan => exact ⟨rfl, rfl⟩
  | infinite => exact ⟨rfl, rfl⟩
  | positional positional =>
    obtain ⟨first, whole, place, places, rfl, digits, _⟩ := positional
    rw [List.append_assoc]
    refine Toml.not_startsMoment digits ?_
    intro c member
    cases member
    decide

theorem Unsigned.opens (unsigned : Unsigned cs) :
    ∃ first more, cs = first :: more ∧ opensNumber first = true := by
  cases unsigned with
  | nan => exact ⟨_, _, rfl, rfl⟩
  | infinite => exact ⟨_, _, rfl, rfl⟩
  | positional positional =>
    obtain ⟨first, whole, place, places, rfl, digits, _⟩ := positional
    exact ⟨first, _, rfl, by simp [opensNumber, digits first List.mem_cons_self]⟩

theorem floatText_cases (bits : UInt64) :
    ∃ cs, Unsigned cs ∧ (floatText bits = cs ∨ floatText bits = '-' :: cs) := by
  have signed : ∀ (negative : Bool) (cs : List Char),
      (if negative then ['-'] else []) ++ cs = cs ∨
        (if negative then ['-'] else []) ++ cs = '-' :: cs := by
    rintro (_ | _) cs
    · exact .inl rfl
    · exact .inr rfl
  rw [floatText]
  split
  · exact ⟨_, .nan, .inl rfl⟩
  · rename_i negative _
    exact ⟨_, .infinite, signed negative _⟩
  · rename_i negative m p _
    exact ⟨_, .positional (Decimal.shortest_marked _ m p).positional, signed negative _⟩

/-- A number that is written with a point is read as a floating point number, if it can be
read at all. -/
theorem readsFloat_floatText (bits : UInt64) : ReadsFloat scanScalar (floatText bits) := by
  intro rest v left ends scanned
  obtain ⟨cs, unsigned, shape⟩ := floatText_cases bits
  rcases shape with shape | shape
  · obtain ⟨noDate, noTime⟩ := unsigned.not_startsMoment rest
    have numeral := unsigned.scanNumeral rest
    obtain ⟨first, more, whole, opens⟩ := unsigned.opens
    refine unsigned.readsFloat false rest v left ends ?_
    rw [shape] at scanned
    rw [← numeral]
    rw [whole, List.cons_append] at scanned noDate noTime ⊢
    rwa [← scanScalar_number opens noDate noTime]
  · refine unsigned.readsFloat true rest v left ends ?_
    rw [shape, List.cons_append, scanScalar_number rfl rfl rfl] at scanned
    exact scanned

theorem floatText_head (bits : UInt64) :
    ∃ first more, floatText bits = first :: more ∧ opensNumber first = true := by
  obtain ⟨cs, unsigned, shape | shape⟩ := floatText_cases bits
  · rw [shape]
    exact unsigned.opens
  · exact ⟨'-', cs, shape, rfl⟩

end Toml

end ProxyConsole
