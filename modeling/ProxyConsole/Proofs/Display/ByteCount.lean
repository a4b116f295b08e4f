import Mathlib.Algebra.Order.Field.Basic
import Mathlib.Tactic.IntervalCases
import ProxyConsole.Display.ByteCount
import ProxyConsole.Proofs.Json.Numeral
import ProxyConsole.Proofs.Rounding

/-!
# Byte counts in their units

From 1024 on a count is given in the largest unit that it reaches, with one decimal.
The number given is within a twentieth of the exact quotient, and the quotient is a
double, so that dividing loses nothing.  The unit is chosen before the number is
rounded: a count that is short of the next unit by a twentieth of a unit or less is
given as 1024.0 of the smaller one.
-/

set_option autoImplicit false

namespace ProxyConsole.Display

open Decimal

/-! ## What a text says -/

/-- A text gives a number with one decimal, followed by a unit. -/
def Gives (text : String) (x : ℚ) (unit : String) : Prop :=
  ∃ whole tenth : Nat, tenth < 10 ∧
    text = natText whole ++ "." ++ natText tenth ++ " " ++ unit ∧ x = whole + tenth / 10

theorem digits_append_inj {a b : Nat} {c : Char} (other : c.isDigit = false)
    {after after' : List Char}
    (same : digits a ++ c :: after = digits b ++ c :: after') : a = b ∧ after = after' := by
  have front : ∀ (n : Nat) (rest : List Char),
      (digits n ++ c :: rest).takeWhile Char.isDigit = digits n := by
    intro n rest
    rw [List.takeWhile_append_of_pos fun d => Json.isDigit_of_mem_digits,
      List.takeWhile_cons_of_neg (by simp [other]), List.append_nil]
  have equal : digits a = digits b := by
    rw [← front a after, same, front]
  constructor
  · rw [← value_digits a, equal, value_digits]
  · rw [equal] at same
    exact (List.cons.inj (List.append_cancel_left same)).2

theorem gives_unique {text unit unit' : String} {x x' : ℚ} (left : Gives text x unit)
    (right : Gives text x' unit') : x = x' ∧ unit = unit' := by
  obtain ⟨whole, tenth, _, shown, rfl⟩ := left
  obtain ⟨whole', tenth', _, shown', rfl⟩ := right
  have same := congrArg String.toList (shown.symm.trans shown')
  simp only [natText, String.toList_append, String.toList_ofList, List.append_assoc] at same
  obtain ⟨wholes, rest⟩ := digits_append_inj (by decide) same
  obtain ⟨tenths, units⟩ := digits_append_inj (by decide) rest
  rw [wholes, tenths]
  exact ⟨rfl, String.toList_inj.mp units⟩

theorem gives_tenthsText (tenths : Nat) (unit : String) :
    Gives (tenthsText tenths ++ " " ++ unit) (tenths / 10) unit := by
  refine ⟨tenths / 10, tenths % 10, Nat.mod_lt _ (by decide), rfl, ?_⟩
  have parts : ((10 * (tenths / 10) + tenths % 10 : Nat) : ℚ) = tenths := by
    rw [Nat.div_add_mod]
  push_cast at parts
  linarith

/-! ## The unit of a count -/

theorem byteUnit_spec {count size : Nat} {units : List String} (known : units ≠ [])
    (reached : size ≤ count) :
    ∃ place, units[place]? = some (byteUnit count size units).1 ∧
      (byteUnit count size units).2 = 1024 ^ place * size ∧ 1024 ^ place * size ≤ count ∧
      (place + 1 < units.length → count < 1024 ^ (place + 1) * size) := by
  induction units generalizing size with
  | nil => exact absurd rfl known
  | cons unit units ih =>
    cases units with
    | nil => exact ⟨0, by simp [byteUnit], by simp [byteUnit], by simpa using reached, by simp⟩
    | cons next units =>
      by_cases below : count < 1024 * size
      · refine ⟨0, ?_, ?_, ?_, ?_⟩
        · simp [byteUnit, below]
        · simp [byteUnit, below]
        · simpa using reached
        · simpa using below
      · obtain ⟨place, listed, holds, low, high⟩ := ih (by simp) (Nat.le_of_not_lt below)
        have shift : ∀ k, 1024 ^ (k + 1) * size = 1024 ^ k * (1024 * size) := by
          intro k
          rw [pow_succ, Nat.mul_assoc]
        have skipped : byteUnit count size (unit :: next :: units) =
            byteUnit count (1024 * size) (next :: units) := by
          rw [byteUnit, if_neg below]
          simp
        refine ⟨place + 1, ?_, ?_, ?_, ?_⟩
        · rw [skipped, List.getElem?_cons_succ]
          exact listed
        · rw [skipped, shift]
          exact holds
        · rw [shift]
          exact low
        · intro more
          rw [shift]
          exact high (Nat.lt_of_succ_lt_succ more)

/-- The tenths of a unit that are given for a count.  The unit at a place holds `1024 ^ (place + 1)`
bytes. -/
def tenthsIn (count place : Nat) : Nat :=
  roundDiv (10 * toDouble count) (1024 ^ (place + 1))

/-- A count is at least one of a unit and less than one of the next, if there is a next one. -/
structure FitsUnit (count place : Nat) : Prop where
  listed : place < 4
  low : 1024 ^ (place + 1) ≤ toDouble count
  high : place < 3 → toDouble count < 1024 ^ (place + 2)

theorem le_toDouble_of_large {count : Nat} (large : 1024 ≤ count) : 1024 ≤ toDouble count := by
  by_cases small : toDouble count < 2 ^ 53
  · rw [toDouble_of_toDouble_lt small]
    exact large
  · omega

theorem byteCount_large {count : Nat} (large : 1024 ≤ count) :
    ∃ place unit, byteUnits[place]? = some unit ∧ FitsUnit count place ∧
      byteCount count = tenthsText (tenthsIn count place) ++ " " ++ unit := by
  obtain ⟨place, listed, holds, low, high⟩ :=
    byteUnit_spec (by decide : byteUnits ≠ []) (le_toDouble_of_large large)
  have inside := (List.getElem?_eq_some_iff.mp listed).1
  refine ⟨place, _, listed, ⟨inside, ?_, ?_⟩, ?_⟩
  · rw [pow_succ]
    exact low
  · intro more
    rw [pow_succ]
    exact high (Nat.succ_lt_succ more)
  · rw [byteCount, if_neg (Nat.not_lt.mpr large), tenthsIn, pow_succ]
    simp only [holds]

namespace FitsUnit

variable {count place : Nat}

theorem ten_le (fits : FitsUnit count place) : 10 ≤ tenthsIn count place :=
  le_roundDiv (pow_pos (by decide) _) (Nat.mul_le_mul_left 10 fits.low)

theorem le_next (fits : FitsUnit count place) (more : place < 3) :
    tenthsIn count place ≤ 10240 := by
  apply roundDiv_le (pow_pos (by decide) _)
  have high := fits.high more
  rw [pow_succ] at high
  omega

theorem toDouble_eq (fits : FitsUnit count place) (more : place < 3) : toDouble count = count := by
  apply toDouble_of_toDouble_lt
  calc toDouble count < 1024 ^ (place + 2) := fits.high more
    _ ≤ 1024 ^ 4 := Nat.pow_le_pow_right (by decide) (by omega)
    _ < 2 ^ 53 := by norm_num

/-- The number given is the next unit's size exactly if a twentieth of a unit or less is missing. -/
theorem eq_next_iff (fits : FitsUnit count place) (more : place < 3) :
    tenthsIn count place = 10240 ↔ 20479 * 1024 ^ (place + 1) ≤ 20 * count := by
  have most := fits.le_next more
  obtain ⟨low, high⟩ :=
    roundDiv_near (10 * toDouble count) (pow_pos (by decide : 0 < 1024) (place + 1))
  rw [← tenthsIn, fits.toDouble_eq more] at low high
  constructor
  · intro full
    rw [full] at high
    omega
  · intro near
    by_contra less
    have bound : (2 * tenthsIn count place + 1) * 1024 ^ (place + 1) ≤
        20479 * 1024 ^ (place + 1) := Nat.mul_le_mul_right _ (by omega)
    -- There is no tie: five does not divide the left side.
    have tie : 20479 * 1024 ^ (place + 1) = 20 * count := by omega
    interval_cases place <;> omega

end FitsUnit

/-! ## The right unit -/

/-- What a count may lose when it becomes a double, in the unit at a place. -/
def conversionLoss (count place : Nat) : ℚ :=
  if count ≤ 2 ^ 53 then 0 else count / 1024 ^ (place + 1) / 2 ^ 53

/-- A number is as near to a count in the unit at a place as one decimal allows. -/
def Near (count place : Nat) (x : ℚ) : Prop :=
  |x - count / 1024 ^ (place + 1)| ≤ 1 / 20 + conversionLoss count place

theorem conversion_error (count place : Nat) :
    |(toDouble count / 1024 ^ (place + 1) : ℚ) - count / 1024 ^ (place + 1)| ≤
      conversionLoss count place := by
  unfold conversionLoss
  by_cases small : count ≤ 2 ^ 53
  · rw [toDouble_of_le small, if_pos small, sub_self, abs_zero]
  · have size : (0 : ℚ) < 1024 ^ (place + 1) := by positivity
    rw [if_neg small, ← sub_div, abs_div, abs_of_pos size, div_right_comm]
    exact div_le_div_of_nonneg_right (toDouble_error count) size.le

theorem tenthsIn_error (count place : Nat) :
    |(tenthsIn count place / 10 : ℚ) - toDouble count / 1024 ^ (place + 1)| ≤ 1 / 20 := by
  have near := roundDiv_error (10 * toDouble count) (pow_pos (by decide : 0 < 1024) (place + 1))
  rw [← tenthsIn] at near
  push_cast at near
  rw [abs_le] at near ⊢
  rw [mul_div_assoc] at near
  constructor <;> linarith [near.1, near.2]

theorem tenthsIn_near (count place : Nat) :
    Near count place (tenthsIn count place / 10) := by
  have shown := abs_le.mp (tenthsIn_error count place)
  have converted := abs_le.mp (conversion_error count place)
  rw [Near, abs_le]
  constructor <;> linarith [shown.1, shown.2, converted.1, converted.2]

/-- A count is shown in the right unit: the count itself in bytes, which must be fewer than
1024, or a number with one decimal, from 1.0 on and in all units but the last below
1024.0. -/
inductive InRightUnit (count : Nat) (text : String) : Prop where
  | bytes (few : count < 1024) (itself : text = natText count ++ " B")
  | scaled (place : Nat) (unit : String) (x : ℚ) (listed : byteUnits[place]? = some unit)
      (gives : Gives text x unit) (reached : 1 ≤ x) (below : x < 1024 ∨ unit = "TiB")
      (near : Near count place x)

/-- A count falls short of a unit by a twentieth of the unit below it, or less: it is at
least 1023.95 of the one and not yet one of the other. -/
def RoundsUp (count : Nat) : Prop :=
  ∃ place < 3, 20479 * 1024 ^ (place + 1) ≤ 20 * count ∧ count < 1024 ^ (place + 2)

theorem RoundsUp.large {count : Nat} (up : RoundsUp count) : 1024 ≤ count := by
  obtain ⟨place, _, low, _⟩ := up
  have size : 1024 ^ 1 ≤ 1024 ^ (place + 1) := Nat.pow_le_pow_right (by decide) (by omega)
  omega

theorem FitsUnit.roundsUp_iff {count place : Nat} (fits : FitsUnit count place) :
    RoundsUp count ↔ place < 3 ∧ tenthsIn count place = 10240 := by
  constructor
  · rintro ⟨place', more, low, high⟩
    have itself : toDouble count = count := by
      apply toDouble_of_lt
      calc count < 1024 ^ (place' + 2) := high
        _ ≤ 1024 ^ 4 := Nat.pow_le_pow_right (by decide) (by omega)
        _ < twoTo 53 := by decide
    have reached := fits.low
    rw [itself] at reached
    have notAbove : place + 1 < place' + 2 :=
      (Nat.pow_lt_pow_iff_right (by decide)).mp (Nat.lt_of_le_of_lt reached high)
    have less : place < 3 := by omega
    have bound := fits.high less
    rw [itself] at bound
    have notBelow : place' + 1 < place + 2 :=
      (Nat.pow_lt_pow_iff_right (by decide)).mp
        (Nat.lt_of_le_of_lt (by omega : 1024 ^ (place' + 1) ≤ count) bound)
    obtain rfl : place' = place := by omega
    exact ⟨less, (fits.eq_next_iff less).mpr low⟩
  · rintro ⟨less, full⟩
    have bound := fits.high less
    rw [fits.toDouble_eq less] at bound
    exact ⟨place, less, (fits.eq_next_iff less).mp full, bound⟩

theorem FitsUnit.below_iff {count place : Nat} {unit : String} (fits : FitsUnit count place)
    (listed : byteUnits[place]? = some unit) :
    ((tenthsIn count place / 10 : ℚ) < 1024 ∨ unit = "TiB") ↔ ¬ RoundsUp count := by
  have last : unit = "TiB" ↔ ¬ place < 3 := by
    have inside := fits.listed
    interval_cases place <;> cases listed <;> decide
  have number : (tenthsIn count place / 10 : ℚ) < 1024 ↔ tenthsIn count place < 10240 := by
    rw [div_lt_iff₀ (by norm_num), ← Nat.cast_lt (α := ℚ)]
    norm_num
  rw [fits.roundsUp_iff, last, number]
  by_cases more : place < 3
  · have most := fits.le_next more
    omega
  · omega

theorem inRightUnit_iff (count : Nat) : InRightUnit count (byteCount count) ↔ ¬ RoundsUp count := by
  by_cases few : count < 1024
  · have itself : byteCount count = natText count ++ " B" := if_pos few
    constructor
    · intro _ up
      have large := up.large
      omega
    · intro _
      exact .bytes few itself
  · obtain ⟨place, unit, listed, fits, shown⟩ := byteCount_large (Nat.le_of_not_lt few)
    have gives := gives_tenthsText (tenthsIn count place) unit
    rw [← shown] at gives
    constructor
    · intro right
      cases right with
      | bytes few' _ => exact absurd few' few
      | scaled place' unit' x listed' gives' reached below near =>
        obtain ⟨rfl, rfl⟩ := gives_unique gives' gives
        exact (fits.below_iff listed).mp below
    · intro stays
      refine .scaled place unit _ listed gives ?_ ((fits.below_iff listed).mpr stays)
        (tenthsIn_near count place)
      have ten : (10 : ℚ) ≤ tenthsIn count place := by exact_mod_cast fits.ten_le
      linarith

/-- One of the next unit is as near to a count that rounds up as one decimal allows. -/
theorem near_next {count place : Nat} (low : 20479 * 1024 ^ (place + 1) ≤ 20 * count)
    (high : count < 1024 ^ (place + 2)) : Near count (place + 1) 1 := by
  have size : (0 : ℚ) < 1024 ^ (place + 2) := by positivity
  have low : (20479 * 1024 ^ (place + 1) : ℚ) ≤ 20 * count := by exact_mod_cast low
  have high : (count : ℚ) < 1024 ^ (place + 2) := by exact_mod_cast high
  have atMost : (count / 1024 ^ (place + 2) : ℚ) < 1 := (div_lt_one size).mpr high
  have atLeast : (19 / 20 : ℚ) ≤ count / 1024 ^ (place + 2) := by
    rw [le_div_iff₀ size, pow_succ]
    linarith [pow_pos (by norm_num : (0 : ℚ) < 1024) (place + 1)]
  have loss : 0 ≤ conversionLoss count (place + 1) :=
    le_trans (abs_nonneg _) (conversion_error count (place + 1))
  rw [Near, abs_le]
  constructor <;> linarith

/-- A count that rounds up is shown as 1024.0 of a unit, and 1.0 of the next would be right. -/
structure RoundedUp (count : Nat) (text : String) (place : Nat) : Prop where
  smaller : place < 3
  shown : ∀ unit, byteUnits[place]? = some unit → text = "1024.0 " ++ unit
  near : Near count place 1024
  next : ∀ unit, byteUnits[place + 1]? = some unit → InRightUnit count ("1.0 " ++ unit)

theorem byteCount_roundedUp {count : Nat} (up : RoundsUp count) :
    ∃ place, RoundedUp count (byteCount count) place := by
  obtain ⟨place, unit, listed, fits, shown⟩ := byteCount_large up.large
  obtain ⟨less, full⟩ := fits.roundsUp_iff.mp up
  have near := tenthsIn_near count place
  rw [full] at shown near
  norm_num at near
  have low := (fits.eq_next_iff less).mp full
  have high := fits.high less
  rw [fits.toDouble_eq less] at high
  refine ⟨place, less, ?_, near, ?_⟩
  · intro unit' listed'
    cases listed.symm.trans listed'
    exact shown
  · intro next listed'
    have one := gives_tenthsText 10 next
    norm_num at one
    exact .scaled (place + 1) next 1 listed' one le_rfl (.inl (by norm_num)) (near_next low high)

example : byteCount 1048575 = "1024.0 KiB" := by decide

/-- All that is shown of a count. -/
structure CountShown (count : Nat) (text : String) : Prop where
  bytes : count < 1024 → text = natText count ++ " B"
  right : InRightUnit count text ↔ ¬ RoundsUp count
  roundedUp : RoundsUp count → ∃ place, RoundedUp count text place
  /-- The count becomes the nearest double. -/
  nearest : ∀ x, IsDouble x → |(toDouble count : ℚ) - count| ≤ |x - count|
  lossless : ∀ place ≤ 4, IsDouble (toDouble count / 1024 ^ place)

theorem counts_shown (count : UInt64) : CountShown count.toNat (byteCount count.toNat) where
  bytes few := if_pos few
  right := inRightUnit_iff count.toNat
  roundedUp := byteCount_roundedUp
  nearest _ := toDouble_nearest count.toNat
  lossless place few := by
    have range : count.toNat.log2 ≤ 1022 := by
      by_cases zero : count.toNat = 0
      · rw [zero]
        decide
      · have bits := (Nat.log2_lt zero).mpr count.toNat_lt
        omega
    have halved := isDouble_halved range (by omega : 10 * place ≤ 1074)
    rw [pow_mul] at halved
    norm_num at halved
    exact halved

/-- One byte less than a mebibyte is shown as 1024.0 kibibytes. -/
theorem count_roundedUp : ¬ ∀ count : UInt64, InRightUnit count.toNat (byteCount count.toNat) := by
  intro right
  have stays := (inRightUnit_iff _).mp (right 1048575)
  exact stays ⟨0, by decide, by decide, by decide⟩

end ProxyConsole.Display
