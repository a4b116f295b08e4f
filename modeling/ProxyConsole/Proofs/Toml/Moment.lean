import Mathlib.Data.List.TakeWhile
import Mathlib.Data.Nat.Digits.Defs
import ProxyConsole.Proofs.Toml.Numeral

/-!
# Moments of a document

The parts of a moment that was read have as many digits as they are written with.  A moment that is
written is read as a moment again, up to its end, if it can be read at all.
-/

set_option autoImplicit false

namespace ProxyConsole.Toml

/-! ## Moments that were read -/

def Date.Fits (d : Date) : Prop :=
  d.year < 10 ^ 4 ∧ d.month < 10 ^ 2 ∧ d.day < 10 ^ 2

def TimeOfDay.Fits (t : TimeOfDay) : Prop :=
  t.hour < 10 ^ 2 ∧ t.minute < 10 ^ 2 ∧ t.second < 10 ^ 2 ∧ t.nanosecond < 10 ^ 9

def Offset.Fits : Offset → Prop
  | .utc => True
  | .minutes _ count => count / 60 < 10 ^ 2

def Moment.Fits : Moment → Prop
  | .date d => d.Fits
  | .time t => t.Fits
  | .dateTime d t offset => d.Fits ∧ t.Fits ∧ ∀ o ∈ offset, o.Fits

section Scanned

variable {cs rest : List Char}

theorem scanDigits_some {k : Nat} {ds : List Char} (scanned : scanDigits k cs = some (ds, rest)) :
    ds.length = k ∧ ∀ d ∈ ds, d.isDigit = true := by
  induction k generalizing cs ds with
  | zero =>
    cases scanned
    exact ⟨rfl, nofun⟩
  | succ k ih =>
    cases cs with
    | nil => cases scanned
    | cons c cs =>
      rw [scanDigits] at scanned
      split at scanned
      · rename_i digit
        obtain ⟨⟨ds, rest⟩, later, same⟩ := Option.map_eq_some_iff.mp scanned
        cases same
        obtain ⟨length, each⟩ := ih later
        exact ⟨congrArg (· + 1) length, List.forall_mem_cons.mpr ⟨digit, each⟩⟩
      · cases scanned

theorem ofDigitChars_lt {ds : List Char} (digits : ∀ d ∈ ds, d.isDigit = true) (acc : Nat) :
    Nat.ofDigitChars 10 ds acc < (acc + 1) * 10 ^ ds.length := by
  induction ds generalizing acc with
  | nil => simp
  | cons d ds ih =>
    have digit := digits d List.mem_cons_self
    have later := ih (fun d' member => digits d' (List.mem_cons_of_mem d member))
      (10 * acc + (d.toNat - '0'.toNat))
    have small : d.toNat - '0'.toNat < 10 := by
      have range : 0x30 ≤ d.toNat ∧ d.toNat ≤ 0x39 := by
        simpa [Char.isDigit, UInt32.le_iff_toNat_le] using digit
      have zero : '0'.toNat = 0x30 := rfl
      omega
    rw [Nat.ofDigitChars_cons]
    refine later.trans_le ?_
    rw [List.length_cons, Nat.pow_succ, Nat.mul_comm (10 ^ ds.length) 10, ← Nat.mul_assoc]
    exact Nat.mul_le_mul_right _ (by omega)

theorem value_lt {ds : List Char} (digits : ∀ d ∈ ds, d.isDigit = true) :
    Decimal.value ds < 10 ^ ds.length := by
  have bound := ofDigitChars_lt digits 0
  rwa [Nat.zero_add, Nat.one_mul] at bound

theorem scanNumber_lt {places n : Nat} (scanned : scanNumber places cs = some (n, rest)) :
    n < 10 ^ places := by
  obtain ⟨⟨ds, rest⟩, digits, same⟩ := Option.map_eq_some_iff.mp scanned
  cases same
  obtain ⟨length, each⟩ := scanDigits_some digits
  rw [← length]
  exact value_lt each

theorem scanDate_fits {d : Date} (scanned : scanDate cs = some (d, rest)) : d.Fits := by
  simp only [scanDate, Option.bind_eq_bind, Option.bind_eq_some_iff] at scanned
  obtain ⟨⟨year, _⟩, year', _, _, ⟨month, _⟩, month', _, _, ⟨day, _⟩, day', whole⟩ := scanned
  split at whole
  · cases whole
    exact ⟨scanNumber_lt year', scanNumber_lt month', scanNumber_lt day'⟩
  · cases whole

theorem nanoseconds_lt {ds : List Char} (digits : ∀ d ∈ ds, d.isDigit = true) :
    nanoseconds ds < 10 ^ 9 := by
  have each : ∀ d ∈ ds.take 9 ++ List.replicate (9 - (ds.take 9).length) '0', d.isDigit = true := by
    refine List.forall_mem_append.mpr ⟨fun d member => digits d (List.mem_of_mem_take member), ?_⟩
    intro d member
    rw [(List.mem_replicate.mp member).2]
    rfl
  have bound := value_lt each
  have length : (ds.take 9 ++ List.replicate (9 - (ds.take 9).length) '0').length = 9 := by
    rw [List.length_append, List.length_replicate]
    have short := List.length_take_le 9 ds
    omega
  rwa [length] at bound

theorem scanFraction_lt {n : Nat} (scanned : scanFraction cs = some (n, rest)) : n < 10 ^ 9 := by
  unfold scanFraction at scanned
  split at scanned
  · dsimp only at scanned
    split at scanned
    · cases scanned
    · cases scanned
      exact nanoseconds_lt fun d member => List.mem_takeWhile_imp member
  · cases scanned
    decide

theorem scanTime_fits {t : TimeOfDay} (scanned : scanTime cs = some (t, rest)) : t.Fits := by
  simp only [scanTime, Option.bind_eq_bind, Option.bind_eq_some_iff] at scanned
  obtain ⟨⟨hour, _⟩, hour', _, _, ⟨minute, _⟩, minute', _, _, ⟨second, _⟩, second', ⟨nano, _⟩,
    nano', whole⟩ := scanned
  split at whole
  · cases whole
    exact ⟨scanNumber_lt hour', scanNumber_lt minute', scanNumber_lt second', scanFraction_lt nano'⟩
  · cases whole

theorem scanOffsetMinutes_fits {behind : Bool} {offset : Option Offset}
    (scanned : scanOffsetMinutes behind cs = some (offset, rest)) : ∀ o ∈ offset, o.Fits := by
  simp only [scanOffsetMinutes, Option.bind_eq_bind, Option.bind_eq_some_iff] at scanned
  obtain ⟨⟨hour, _⟩, _, _, _, ⟨minute, _⟩, _, whole⟩ := scanned
  split at whole
  · rename_i valid
    cases whole
    rintro o ⟨⟩
    rw [Offset.Fits]
    omega
  · cases whole

theorem scanOffset_fits {offset : Option Offset} (scanned : scanOffset cs = some (offset, rest)) :
    ∀ o ∈ offset, o.Fits := by
  unfold scanOffset at scanned
  split at scanned
  · cases scanned
    rintro o ⟨⟩
    trivial
  · cases scanned
    rintro o ⟨⟩
    trivial
  · exact scanOffsetMinutes_fits scanned
  · exact scanOffsetMinutes_fits scanned
  · cases scanned
    nofun

theorem scanDated_fits {m : Moment} (scanned : scanDated cs = some (m, rest)) : m.Fits := by
  simp only [scanDated, Option.bind_eq_bind, Option.bind_eq_some_iff] at scanned
  obtain ⟨⟨d, more⟩, date, later⟩ := scanned
  have fits := scanDate_fits date
  unfold scanAfterDate at later
  split at later
  · split at later
    · simp only [Option.bind_eq_bind, Option.bind_eq_some_iff, Option.pure_def] at later
      obtain ⟨⟨t, _⟩, time, ⟨offset, _⟩, offset', whole⟩ := later
      cases whole
      exact ⟨fits, scanTime_fits time, scanOffset_fits offset'⟩
    · cases later
      exact fits
  · cases later
    exact fits

theorem scanTimed_fits {m : Moment} (scanned : scanTimed cs = some (m, rest)) : m.Fits := by
  obtain ⟨⟨t, _⟩, time, same⟩ := Option.map_eq_some_iff.mp scanned
  cases same
  exact scanTime_fits time

end Scanned

/-! ## Moments that are written -/

section Written

variable {rest : List Char}

theorem padded_digits {places n : Nat} (fits : n < 10 ^ places) (marked : 0 < places) :
    (padded places n).length = places ∧ ∀ d ∈ padded places n, d.isDigit = true := by
  have short : (Decimal.digits n).length ≤ places := Nat.toDigits_length 10 n places marked fits
  constructor
  · rw [padded, List.length_append, List.length_replicate]
    omega
  · refine List.forall_mem_append.mpr ⟨fun d member => ?_, fun d => Json.isDigit_of_mem_digits⟩
    rw [(List.mem_replicate.mp member).2]
    rfl

theorem scanDigits_length {ds : List Char} (digits : ∀ d ∈ ds, d.isDigit = true)
    (rest : List Char) : scanDigits ds.length (ds ++ rest) = some (ds, rest) := by
  induction ds with
  | nil => rfl
  | cons d ds ih =>
    rw [List.cons_append, List.length_cons, scanDigits, if_pos (digits d List.mem_cons_self),
      ih fun d' member => digits d' (List.mem_cons_of_mem d member)]
    rfl

theorem scanDigits_padded {places n : Nat} (fits : n < 10 ^ places) (marked : 0 < places)
    (rest : List Char) :
    scanDigits places (padded places n ++ rest) = some (padded places n, rest) := by
  obtain ⟨length, digits⟩ := padded_digits fits marked
  have scanned := scanDigits_length digits rest
  rwa [length] at scanned

theorem scanNumber_padded {places n : Nat} (fits : n < 10 ^ places) (marked : 0 < places)
    (rest : List Char) :
    ∃ n', scanNumber places (padded places n ++ rest) = some (n', rest) :=
  ⟨_, by rw [scanNumber, scanDigits_padded fits marked, Option.map_some]⟩

theorem scanChar_self (c : Char) (rest : List Char) : scanChar c (c :: rest) = some rest := by
  rw [scanChar, if_pos rfl]

/-- What is read of a text ends where the text ends. -/
def ReadsAll {α : Type} (scan : Scanner α) (text rest : List Char) : Prop :=
  ∀ v left, scan (text ++ rest) = some (v, left) → left = rest

theorem Date.Fits.readsAll {d : Date} (fits : d.Fits) (rest : List Char) :
    ReadsAll scanDate d.text rest := by
  intro d' left scanned
  have text : d.text ++ rest =
      padded 4 d.year ++ '-' :: (padded 2 d.month ++ '-' :: (padded 2 d.day ++ rest)) := by
    simp [Date.text]
  obtain ⟨year, year'⟩ := scanNumber_padded fits.1 (by decide)
    ('-' :: (padded 2 d.month ++ '-' :: (padded 2 d.day ++ rest)))
  obtain ⟨month, month'⟩ := scanNumber_padded fits.2.1 (by decide) ('-' :: (padded 2 d.day ++ rest))
  obtain ⟨day, day'⟩ := scanNumber_padded fits.2.2 (by decide) rest
  rw [text] at scanned
  simp only [scanDate, Option.bind_eq_bind, year', month', day', scanChar_self,
    Option.bind_some] at scanned
  split at scanned
  · cases scanned
    rfl
  · cases scanned

/-- What can follow a time of day: no more digits, and no point. -/
def EndsTime (rest : List Char) : Prop :=
  ∀ c ∈ rest.head?, c.isDigit = false ∧ c ≠ '.'

theorem scanFraction_fraction {n : Nat} (fits : n < 10 ^ 9) (ends : EndsTime rest) :
    ReadsAll scanFraction (TimeOfDay.fraction n) rest := by
  intro n' left scanned
  rw [TimeOfDay.fraction] at scanned
  split at scanned
  · cases rest with
    | nil =>
      cases scanned
      rfl
    | cons c rest =>
      unfold scanFraction at scanned
      split at scanned
      · rename_i same
        exact absurd (List.cons.inj same).1 (ends c rfl).2
      · cases scanned
        rfl
  · have digits : ∀ d ∈ ((padded 9 n).reverse.dropWhile (· = '0')).reverse, d.isDigit = true := by
      intro d member
      refine (padded_digits fits (by decide)).2 d ?_
      exact List.mem_reverse.mp ((List.dropWhile_sublist _).mem (List.mem_reverse.mp member))
    have stop : rest.dropWhile Char.isDigit = rest := by
      cases rest with
      | nil => rfl
      | cons c rest => exact List.dropWhile_cons_of_neg (by simp [(ends c rfl).1])
    rw [List.cons_append, scanFraction] at scanned
    split at scanned
    · cases scanned
    · rw [List.dropWhile_append_of_pos digits, stop] at scanned
      cases scanned
      rfl

theorem TimeOfDay.Fits.readsAll {t : TimeOfDay} (fits : t.Fits) (ends : EndsTime rest) :
    ReadsAll scanTime t.text rest := by
  intro t' left scanned
  have text : t.text ++ rest =
      padded 2 t.hour ++ ':' :: (padded 2 t.minute ++
        ':' :: (padded 2 t.second ++ (fraction t.nanosecond ++ rest))) := by
    simp [TimeOfDay.text]
  obtain ⟨hour, hour'⟩ := scanNumber_padded fits.1 (by decide)
    (':' :: (padded 2 t.minute ++ ':' :: (padded 2 t.second ++ (fraction t.nanosecond ++ rest))))
  obtain ⟨minute, minute'⟩ := scanNumber_padded fits.2.1 (by decide)
    (':' :: (padded 2 t.second ++ (fraction t.nanosecond ++ rest)))
  obtain ⟨second, second'⟩ := scanNumber_padded fits.2.2.1 (by decide)
    (fraction t.nanosecond ++ rest)
  rw [text] at scanned
  simp only [scanTime, Option.bind_eq_bind, hour', minute', second', scanChar_self,
    Option.bind_some, Option.bind_eq_some_iff] at scanned
  obtain ⟨⟨nano, more⟩, nano', whole⟩ := scanned
  obtain rfl := scanFraction_fraction fits.2.2.2 ends nano more nano'
  split at whole
  · cases whole
    rfl
  · cases whole

theorem Offset.Fits.readsAll {o : Offset} (fits : o.Fits) (rest : List Char) :
    ReadsAll scanOffset o.text rest := by
  intro o' left scanned
  cases o with
  | utc =>
    cases scanned
    rfl
  | minutes behind count =>
    obtain ⟨hour, hour'⟩ :=
      scanNumber_padded fits (by decide) (':' :: (padded 2 (count % 60) ++ rest))
    obtain ⟨minute, minute'⟩ := scanNumber_padded (n := count % 60)
      (show count % 60 < 10 ^ 2 by omega) (by decide) rest
    have scans : ∀ behind v, scanOffsetMinutes behind
        (padded 2 (count / 60) ++ ':' :: (padded 2 (count % 60) ++ rest)) = some (v, left) →
        left = rest := by
      intro behind v scanned
      simp only [scanOffsetMinutes, Option.bind_eq_bind, hour', minute', scanChar_self,
        Option.bind_some] at scanned
      split at scanned
      · cases scanned
        rfl
      · cases scanned
    rw [Offset.text] at scanned
    split at scanned
    all_goals
      rw [List.cons_append, List.append_assoc, List.cons_append] at scanned
      exact scans _ _ scanned

theorem Moment.Fits.opens {m : Moment} (fits : m.Fits) :
    ∃ first more, m.text = first :: more ∧ first.isDigit = true := by
  have opens : ∀ {places n : Nat} (more : List Char), n < 10 ^ places → 0 < places →
      ∃ first others, padded places n ++ more = first :: others ∧ first.isDigit = true := by
    intro places n more fits marked
    obtain ⟨length, digits⟩ := padded_digits fits marked
    obtain ⟨first, others, shape⟩ := List.exists_cons_of_length_pos (marked.trans_eq length.symm)
    exact ⟨first, _, by rw [shape]; rfl, digits first (shape ▸ List.mem_cons_self)⟩
  cases m with
  | date d => exact opens _ fits.1 (by decide)
  | time t => exact opens _ fits.1 (by decide)
  | dateTime d t offset =>
    rw [Moment.text, Date.text, List.append_assoc]
    exact opens _ fits.1.1 (by decide)

/-- What can follow a moment: the end of a value, and no time of day. -/
structure EndsMoment (rest : List Char) : Prop where
  ends : EndsValue rest
  noTime : ∀ c d more, rest = c :: d :: more → isDateTimeMark c = true → d.isDigit = false

variable (ends : EndsMoment rest)

include ends

theorem EndsMoment.readsAll_offset {offset : Option Offset} (fits : ∀ o ∈ offset, o.Fits) :
    ReadsAll scanOffset ((offset.map Offset.text).getD []) rest := by
  cases offset with
  | some o => exact (fits o rfl).readsAll rest
  | none =>
    intro offset left scanned
    have other := ends.ends.not (p := fun c => c = 'Z' || c = 'z' || c = '+' || c = '-') (by decide)
    cases rest with
    | nil =>
      cases scanned
      rfl
    | cons c rest =>
      have differs := other c rfl
      change scanOffset (c :: rest) = some (offset, left) at scanned
      unfold scanOffset at scanned
      split at scanned
      iterate 4
        · rename_i same
          cases same
          cases differs
      · cases scanned
        rfl

theorem EndsMoment.endsTime (offset : Option Offset) :
    EndsTime ((offset.map Offset.text).getD [] ++ rest) := by
  have other := ends.ends.not (p := fun c => c.isDigit || c = '.') (by decide)
  cases offset with
  | none => simpa [EndsTime] using other
  | some o =>
    intro c member
    cases o with
    | utc =>
      cases member
      decide
    | minutes behind count =>
      cases member
      split <;> decide

theorem EndsMoment.readsAll_dated {d : Date} {m : Moment} (fits : m.Fits)
    (shape : m = .date d ∨ ∃ t offset, m = .dateTime d t offset) :
    ReadsAll scanDated m.text rest := by
  intro m' left scanned
  simp only [scanDated, Option.bind_eq_bind, Option.bind_eq_some_iff] at scanned
  obtain ⟨⟨d', more⟩, date, later⟩ := scanned
  rcases shape with rfl | ⟨t, offset, rfl⟩
  · obtain rfl := fits.readsAll rest d' more date
    unfold scanAfterDate at later
    split at later
    · rename_i c d₁ cs shape
      have noTime : (isDateTimeMark c && d₁.isDigit) = false := by
        rw [Bool.and_eq_false_iff]
        by_cases mark : isDateTimeMark c = true
        · exact .inr (ends.noTime c d₁ cs shape mark)
        · exact .inl (by simpa using mark)
      rw [noTime] at later
      cases later
      exact shape.symm
    · cases later
      rfl
  · have text : (Moment.dateTime d t offset).text ++ rest =
        d.text ++ 'T' :: (t.text ++ ((offset.map Offset.text).getD [] ++ rest)) := by
      simp [Moment.text]
    rw [text] at date
    obtain rfl := fits.1.readsAll _ d' more date
    obtain ⟨first, others, shape, digit⟩ := Moment.Fits.opens (m := .time t) fits.2.1
    rw [Moment.text] at shape
    have time := fits.2.1.readsAll (ends.endsTime offset)
    rw [shape, List.cons_append, scanAfterDate, digit] at later
    simp only [isDateTimeMark, decide_true, Bool.true_or, Bool.and_self, if_true,
      Option.bind_eq_bind, Option.bind_eq_some_iff, Option.pure_def, Option.some.injEq,
      Prod.mk.injEq] at later
    obtain ⟨⟨t', after⟩, time', ⟨offset', left'⟩, offset'', rfl, rfl⟩ := later
    rw [shape] at time
    obtain rfl := time t' after time'
    exact ends.readsAll_offset fits.2.2 offset' left' offset''

omit ends in
theorem startsDate_text {d : Date} (fits : d.Fits) (more : List Char) :
    startsDate (d.text ++ more) = true := by
  rw [Date.text, List.append_assoc, startsDate, scanDigits_padded fits.1 (by decide)]
  rfl

omit ends in
theorem startsTime_text {t : TimeOfDay} (fits : t.Fits) (more : List Char) :
    startsDate (t.text ++ more) = false ∧ startsTime (t.text ++ more) = true := by
  rw [TimeOfDay.text, List.append_assoc]
  constructor
  · obtain ⟨length, digits⟩ := padded_digits fits.1 (by decide)
    rw [startsDate, scanDigits_append digits, if_neg (by rw [length]; decide)]
    intro c member
    cases member
    rfl
  · rw [startsTime, scanDigits_padded fits.1 (by decide)]
    rfl

omit ends in
theorem scanScalar_digit {first : Char} {more left : List Char} {v : Toml}
    (digit : first.isDigit = true) (scanned : scanScalar (first :: more) = some (v, left)) :
    (startsDate (first :: more) = true →
      ∃ m, scanDated (first :: more) = some (m, left) ∧ v = .moment m) ∧
    (startsDate (first :: more) = false → startsTime (first :: more) = true →
      ∃ m, scanTimed (first :: more) = some (m, left) ∧ v = .moment m) := by
  have differs : ∀ c : Char, c.isDigit = false → first ≠ c := by
    rintro c other rfl
    rw [digit] at other
    cases other
  rw [scanScalar, if_neg (not_or.mpr ⟨differs _ (by decide), differs _ (by decide)⟩),
    if_neg (differs _ (by decide)), if_neg (differs _ (by decide))] at scanned
  constructor
  · intro date
    rw [if_pos date] at scanned
    obtain ⟨⟨m, left'⟩, read, same⟩ := Option.map_eq_some_iff.mp scanned
    cases same
    exact ⟨m, read, rfl⟩
  · intro noDate time
    rw [if_neg (by simp [noDate]), if_pos time] at scanned
    obtain ⟨⟨m, left'⟩, read, same⟩ := Option.map_eq_some_iff.mp scanned
    cases same
    exact ⟨m, read, rfl⟩

/-- A moment that is written is read as a moment, if it can be read at all. -/
theorem EndsMoment.scanScalar {m : Moment} (fits : m.Fits) {v : Toml} {left : List Char}
    (scanned : scanScalar (m.text ++ rest) = some (v, left)) :
    left = rest ∧ ∃ m', v = .moment m' := by
  obtain ⟨first, more, shape, digit⟩ := fits.opens
  rw [shape, List.cons_append] at scanned
  have kinds := scanScalar_digit digit scanned
  rw [← List.cons_append, ← shape] at kinds
  have dated : ∀ d, (m = .date d ∨ ∃ t offset, m = .dateTime d t offset) →
      startsDate (m.text ++ rest) = true → left = rest ∧ ∃ m', v = .moment m' := by
    intro d kind date
    obtain ⟨m', read, same⟩ := kinds.1 date
    exact ⟨ends.readsAll_dated fits kind m' left read, m', same⟩
  cases m with
  | date d => exact dated d (.inl rfl) (startsDate_text fits rest)
  | time t =>
    obtain ⟨noDate, time⟩ := startsTime_text fits rest
    obtain ⟨m', read, same⟩ := kinds.2 noDate time
    obtain ⟨⟨t', left'⟩, read', same'⟩ := Option.map_eq_some_iff.mp read
    cases same'
    exact ⟨fits.readsAll (ends.endsTime none) t' left read', _, same⟩
  | dateTime d t offset =>
    refine dated d (.inr ⟨t, offset, rfl⟩) ?_
    rw [Moment.text, List.append_assoc]
    exact startsDate_text fits.1 _

end Written

end ProxyConsole.Toml
