import ProxyConsole.Proofs.Json.Numeral
import ProxyConsole.Toml.Value

/-!
# Integers of a document

An integer that fits is scanned back to itself before anything that can follow a value.
Neither a date nor a time begins with it.
-/

set_option autoImplicit false

namespace ProxyConsole.Toml

/-- What can follow a value that is written. -/
def EndsValue (rest : List Char) : Prop :=
  ∀ c ∈ rest.head?, c = '\n' ∨ c = ',' ∨ c = ']' ∨ c = ' '

theorem EndsValue.not {rest : List Char} (ends : EndsValue rest) {p : Char → Bool}
    (none : p '\n' = false ∧ p ',' = false ∧ p ']' = false ∧ p ' ' = false) :
    ∀ c ∈ rest.head?, p c = false := by
  intro c member
  rcases ends c member with rfl | rfl | rfl | rfl
  · exact none.1
  · exact none.2.1
  · exact none.2.2.1
  · exact none.2.2.2

theorem EndsValue.noMoment {rest : List Char} (ends : EndsValue rest) :
    ∀ c ∈ rest.head?, c.isDigit = false ∧ c ≠ '-' ∧ c ≠ ':' := by
  have other := ends.not (p := fun c => c.isDigit || c = '-' || c = ':') (by decide)
  simpa [and_assoc] using other

section Digits

variable {ds rest : List Char}

theorem scanDigits_append (digits : ∀ d ∈ ds, d.isDigit = true)
    (ends : ∀ c ∈ rest.head?, c.isDigit = false) (k : Nat) :
    scanDigits k (ds ++ rest) =
      if k ≤ ds.length then some (ds.take k, ds.drop k ++ rest) else none := by
  induction k generalizing ds with
  | zero => simp [scanDigits]
  | succ k ih =>
    cases ds with
    | nil =>
      rw [List.nil_append, if_neg (by simp)]
      cases rest with
      | nil => rfl
      | cons c rest => rw [scanDigits, ends c rfl]; rfl
    | cons d ds =>
      have first := digits d List.mem_cons_self
      rw [List.cons_append, scanDigits, if_pos first,
        ih fun d' member => digits d' (List.mem_cons_of_mem d member)]
      by_cases long : k ≤ ds.length
      · rw [if_pos long, if_pos (by simpa using long)]
        rfl
      · rw [if_neg long, if_neg (by simpa using long)]
        rfl

theorem not_startsMoment (digits : ∀ d ∈ ds, d.isDigit = true)
    (ends : ∀ c ∈ rest.head?, c.isDigit = false ∧ c ≠ '-' ∧ c ≠ ':') :
    startsDate (ds ++ rest) = false ∧ startsTime (ds ++ rest) = false := by
  have noDigit : ∀ c ∈ rest.head?, c.isDigit = false := fun c member => (ends c member).1
  have head : ∀ k c more, ds.drop k ++ rest = c :: more → c ≠ '-' ∧ c ≠ ':' := by
    intro k c more shape
    cases left : ds.drop k with
    | nil =>
      rw [left, List.nil_append] at shape
      subst shape
      exact (ends c rfl).2
    | cons d others =>
      rw [left] at shape
      cases shape
      have digit := digits c (List.mem_of_mem_drop (left ▸ List.mem_cons_self))
      constructor
      · rintro rfl
        cases digit
      · rintro rfl
        cases digit
  constructor
  · rw [startsDate, scanDigits_append digits noDigit]
    split
    · rename_i same
      split at same
      · exact absurd rfl (head 4 _ _ (Prod.mk.inj (Option.some.inj same)).2).1
      · cases same
    · rfl
  · rw [startsTime, scanDigits_append digits noDigit]
    split
    · rename_i same
      split at same
      · exact absurd rfl (head 2 _ _ (Prod.mk.inj (Option.some.inj same)).2).2
      · cases same
    · rfl

theorem scanGrouped_digits {d : Char} (digits : ∀ d' ∈ d :: ds, d'.isDigit = true)
    (ends : ∀ c ∈ rest.head?, c.isDigit = false ∧ c ≠ '_') :
    scanGrouped Char.isDigit (d :: ds ++ rest) = some (d :: ds, rest) := by
  have goes : ∀ d, d.isDigit = true →
    scanGrouped.go Char.isDigit d (ds ++ rest) = some (d :: ds, rest) := by
    have later : ∀ d' ∈ ds, d'.isDigit = true :=
      fun d' member => digits d' (List.mem_cons_of_mem d member)
    clear digits
    induction ds with
    | nil =>
      intro d _
      cases rest with
      | nil => rfl
      | cons c rest =>
        obtain ⟨noDigit, noMark⟩ := ends c rfl
        rw [List.nil_append]
        unfold scanGrouped.go
        split
        · rename_i same
          cases same
        · rename_i same
          exact absurd (List.cons.inj same).1 noMark
        · rename_i same
          cases same
          simp [noDigit, noMark]
    | cons e ds ih =>
      intro d _
      have digit := later e List.mem_cons_self
      have noMark : e ≠ '_' := by
        rintro rfl
        cases digit
      rw [List.cons_append]
      unfold scanGrouped.go
      split
      · rename_i same
        cases same
      · rename_i same
        exact absurd (List.cons.inj same).1 noMark
      · rename_i same
        cases same
        rw [if_pos digit, ih (fun d' member => later d' (List.mem_cons_of_mem e member)) e digit]
        rfl
  have first := digits d List.mem_cons_self
  rw [List.cons_append, scanGrouped, if_pos first]
  exact goes d first

end Digits

/-! ## Whole integers -/

theorem digits_first (n : Nat) :
    ∃ first more, Decimal.digits n = first :: more ∧ first.isDigit = true := by
  cases shape : Decimal.digits n with
  | nil => exact absurd shape Nat.toDigits_ne_nil
  | cons first more =>
    exact ⟨first, more, rfl, Json.isDigit_of_mem_digits (shape ▸ List.mem_cons_self)⟩

theorem scanWhole_digits (n : Nat) {rest : List Char}
    (ends : ∀ c ∈ rest.head?, c.isDigit = false ∧ c ≠ '_') :
    scanWhole (Decimal.digits n ++ rest) = some (Decimal.digits n, rest) := by
  by_cases positive : 0 < n
  · obtain ⟨first, more, shape, other⟩ := Json.digits_head positive
    have digits : ∀ d ∈ first :: more, d.isDigit = true := by
      rw [← shape]
      exact fun d => Json.isDigit_of_mem_digits
    rw [shape, List.cons_append, scanWhole, ← List.cons_append, scanGrouped_digits digits ends]
    rintro cs same
    exact other (List.cons.inj same).1
  · obtain rfl := Nat.eq_zero_of_not_pos positive
    rfl

/-- What a sign and the digits of a number denote. -/
def signedNumber (negative : Bool) (n : Nat) : Int :=
  if negative then -(n : Int) else n

theorem scanMagnitude_digits (negative : Bool) (n : Nat) {rest : List Char} (ends : EndsValue rest)
    (fits : fitsInteger (signedNumber negative n) = true) :
    scanMagnitude negative (Decimal.digits n ++ rest) =
      some (.integer (signedNumber negative n), rest) := by
  have stops := ends.not (p := fun c => c.isDigit || c = '_' || (c = '.' || c = 'e' || c = 'E'))
    (by decide)
  simp only [Bool.or_eq_false_iff, decide_eq_false_iff_not] at stops
  have whole := scanWhole_digits n fun c member => (stops c member).1
  have opens : scanMagnitude negative (Decimal.digits n ++ rest) =
      scanDecimal negative (Decimal.digits n ++ rest) := by
    obtain ⟨first, more, shape, digit⟩ := digits_first n
    rw [shape, List.cons_append]
    unfold scanMagnitude
    split
    · rename_i same
      rw [(List.cons.inj same).1] at digit
      cases digit
    · rename_i same
      rw [(List.cons.inj same).1] at digit
      cases digit
    · rfl
  rw [opens, scanDecimal, whole]
  cases rest with
  | nil =>
    simp only [Option.bind_eq_bind, Option.bind_some, Bool.false_eq_true, if_false, integer?,
      Decimal.value_digits]
    rw [← signedNumber, if_pos fits]
    rfl
  | cons c rest =>
    have whole : (c = '.' || c = 'e' || c = 'E') = false := by simpa using (stops c rfl).2
    simp only [Option.bind_eq_bind, Option.bind_some, whole, Bool.false_eq_true, if_false, integer?,
      Decimal.value_digits]
    rw [← signedNumber, if_pos fits]
    rfl

theorem scanNumeral_digits (n : Nat) {rest : List Char} (ends : EndsValue rest) :
    scanNumeral (Decimal.digits n ++ rest) = scanMagnitude false (Decimal.digits n ++ rest) := by
  have other := ends.not (p := fun c => c = 'x' || c = 'o' || c = 'b') (by decide)
  obtain ⟨first, more, shape, digit⟩ := digits_first n
  -- after a zero the number ends
  have based : ∀ mark cs, Decimal.digits n ++ rest = '0' :: mark :: cs →
      (mark = 'x' || mark = 'o' || mark = 'b') = false := by
    intro mark cs same
    by_cases positive : 0 < n
    · obtain ⟨first', more', shape', notZero⟩ := Json.digits_head positive
      rw [shape', List.cons_append] at same
      exact absurd (List.cons.inj same).1 notZero
    · obtain rfl := Nat.eq_zero_of_not_pos positive
      have after : rest = mark :: cs := (List.cons.inj same).2
      exact other mark (after ▸ rfl)
  have unsigned : ∀ sign cs, Decimal.digits n ++ rest = sign :: cs → sign.isDigit = true := by
    intro sign cs same
    rw [shape, List.cons_append] at same
    rw [← (List.cons.inj same).1]
    exact digit
  unfold scanNumeral
  split
  · rename_i same
    exact absurd (unsigned _ _ same) (by decide)
  · rename_i same
    exact absurd (unsigned _ _ same) (by decide)
  · rename_i same
    exact absurd (based _ _ same) (by decide)
  · rename_i same
    exact absurd (based _ _ same) (by decide)
  · rename_i same
    exact absurd (based _ _ same) (by decide)
  · rfl

theorem intText_toList (i : Int) :
    (Decimal.intText i).toList =
      (if i < 0 then ['-'] else []) ++ Decimal.digits i.natAbs := by
  rw [Decimal.intText, Decimal.natText]
  split
  · rw [String.toList_append, String.toList_ofList, String.toList_ofList]
  · rw [String.toList_ofList, List.nil_append]

theorem scanNumeral_intText {i : Int} (fits : fitsInteger i = true) {rest : List Char}
    (ends : EndsValue rest) :
    scanNumeral ((Decimal.intText i).toList ++ rest) = some (.integer i, rest) := by
  rw [intText_toList]
  by_cases negative : i < 0
  · have number : signedNumber true i.natAbs = i := by
      rw [signedNumber, if_pos rfl]
      omega
    rw [if_pos negative]
    have scanned := scanMagnitude_digits true i.natAbs ends (by rw [number]; exact fits)
    rw [number] at scanned
    exact scanned
  · have number : signedNumber false i.natAbs = i := by
      rw [signedNumber, if_neg (by decide)]
      omega
    rw [if_neg negative, List.nil_append, scanNumeral_digits i.natAbs ends]
    have scanned := scanMagnitude_digits false i.natAbs ends (by rw [number]; exact fits)
    rw [number] at scanned
    exact scanned

theorem intText_head (i : Int) :
    ∃ first more, (Decimal.intText i).toList = first :: more ∧
      (first.isDigit = true ∨ first = '-') := by
  obtain ⟨first, more, shape, digit⟩ := digits_first i.natAbs
  rw [intText_toList]
  by_cases negative : i < 0
  · rw [if_pos negative]
    exact ⟨'-', _, rfl, Or.inr rfl⟩
  · rw [if_neg negative, shape]
    exact ⟨first, more, rfl, Or.inl digit⟩

theorem intText_not_startsMoment (i : Int) {rest : List Char} (ends : EndsValue rest) :
    startsDate ((Decimal.intText i).toList ++ rest) = false ∧
      startsTime ((Decimal.intText i).toList ++ rest) = false := by
  rw [intText_toList]
  by_cases negative : i < 0
  · rw [if_pos negative]
    exact ⟨rfl, rfl⟩
  · rw [if_neg negative, List.nil_append]
    exact not_startsMoment (fun d => Json.isDigit_of_mem_digits) ends.noMoment

/-- What a number begins with: a digit, a sign, or the first letter of a word. -/
def opensNumber (c : Char) : Bool :=
  c.isDigit || c = '-' || c = 'i' || c = 'n'

theorem scanScalar_number {first : Char} {more : List Char} (opens : opensNumber first = true)
    (noDate : startsDate (first :: more) = false) (noTime : startsTime (first :: more) = false) :
    scanScalar (first :: more) = scanNumeral (first :: more) := by
  have differs : ∀ c : Char, opensNumber c = false → first ≠ c := by
    rintro c other rfl
    rw [opens] at other
    cases other
  rw [scanScalar, if_neg (not_or.mpr ⟨differs _ (by decide), differs _ (by decide)⟩),
    if_neg (differs _ (by decide)), if_neg (differs _ (by decide))]
  simp only [noDate, noTime, Bool.false_eq_true, if_false]

theorem scanScalar_intText {i : Int} (fits : fitsInteger i = true) {rest : List Char}
    (ends : EndsValue rest) :
    scanScalar ((Decimal.intText i).toList ++ rest) = some (.integer i, rest) := by
  obtain ⟨first, more, shape, numeral⟩ := intText_head i
  obtain ⟨noDate, noTime⟩ := intText_not_startsMoment i ends
  have scanned := scanNumeral_intText fits ends
  have opens : opensNumber first = true := by
    rcases numeral with digit | rfl
    · simp [opensNumber, digit]
    · rfl
  rw [shape, List.cons_append] at noDate noTime scanned ⊢
  rw [scanScalar_number opens noDate noTime, scanned]

end ProxyConsole.Toml
