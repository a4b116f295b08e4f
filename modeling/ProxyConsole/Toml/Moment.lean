import ProxyConsole.Decimal.Natural

/-!
# Dates and times

A moment is a date, a time of day or both, and then perhaps an offset.  Fractions of a second are
kept to nine digits.  The calendar is checked; a minute may have a sixty-first second.
-/

set_option autoImplicit false

namespace ProxyConsole

/-- A scanner reads something at the front of a text and leaves the rest. -/
abbrev Scanner (α : Type) := List Char → Option (α × List Char)

namespace Toml

structure Date where
  year : Nat
  month : Nat
  day : Nat
  deriving DecidableEq, Repr

structure TimeOfDay where
  hour : Nat
  minute : Nat
  second : Nat
  nanosecond : Nat
  deriving DecidableEq, Repr

inductive Offset where
  | utc
  | minutes (behind : Bool) (count : Nat)
  deriving DecidableEq, Repr

inductive Moment where
  | date (d : Date)
  | time (t : TimeOfDay)
  | dateTime (d : Date) (t : TimeOfDay) (offset : Option Offset)
  deriving DecidableEq, Repr

def padded (places n : Nat) : List Char :=
  let ds := Decimal.digits n
  List.replicate (places - ds.length) '0' ++ ds

namespace Date

def isLeap (year : Nat) : Bool :=
  year % 4 = 0 && (year % 100 ≠ 0 || year % 400 = 0)

def daysIn (year month : Nat) : Nat :=
  if month = 2 then (if isLeap year then 29 else 28)
  else if month = 4 ∨ month = 6 ∨ month = 9 ∨ month = 11 then 30
  else 31

def isValid (d : Date) : Bool :=
  1 ≤ d.month && d.month ≤ 12 && 1 ≤ d.day && d.day ≤ daysIn d.year d.month

def text (d : Date) : List Char :=
  padded 4 d.year ++ '-' :: (padded 2 d.month ++ '-' :: padded 2 d.day)

end Date

namespace TimeOfDay

def isValid (t : TimeOfDay) : Bool :=
  t.hour ≤ 23 && t.minute ≤ 59 && t.second ≤ 60

/-- The digits after the point of a second, without trailing zeros. -/
def fraction (nanosecond : Nat) : List Char :=
  if nanosecond = 0 then []
  else '.' :: ((padded 9 nanosecond).reverse.dropWhile (· = '0')).reverse

def text (t : TimeOfDay) : List Char :=
  padded 2 t.hour ++ ':' ::
    (padded 2 t.minute ++ ':' :: (padded 2 t.second ++ fraction t.nanosecond))

end TimeOfDay

def Offset.text : Offset → List Char
  | .utc => ['Z']
  | .minutes behind count =>
    (if behind && count ≠ 0 then '-' else '+') ::
      (padded 2 (count / 60) ++ ':' :: padded 2 (count % 60))

def Moment.text : Moment → List Char
  | .date d => d.text
  | .time t => t.text
  | .dateTime d t offset => d.text ++ 'T' :: (t.text ++ (offset.map Offset.text).getD [])

def scanDigits : Nat → Scanner (List Char)
  | 0, cs => some ([], cs)
  | _ + 1, [] => none
  | n + 1, c :: cs =>
    if c.isDigit then (scanDigits n cs).map fun (ds, rest) => (c :: ds, rest) else none

def scanNumber (places : Nat) (cs : List Char) : Option (Nat × List Char) :=
  (scanDigits places cs).map fun (ds, rest) => (Decimal.value ds, rest)

def scanChar (c : Char) : List Char → Option (List Char)
  | [] => none
  | d :: cs => if d = c then some cs else none

def scanDate (cs : List Char) : Option (Date × List Char) := do
  let (year, cs) ← scanNumber 4 cs
  let cs ← scanChar '-' cs
  let (month, cs) ← scanNumber 2 cs
  let cs ← scanChar '-' cs
  let (day, cs) ← scanNumber 2 cs
  let d : Date := ⟨year, month, day⟩
  if d.isValid then some (d, cs) else none

/-- The nanoseconds of the digits after the point of a second; digits after the ninth do not
count. -/
def nanoseconds (ds : List Char) : Nat :=
  let kept := ds.take 9
  Decimal.value (kept ++ List.replicate (9 - kept.length) '0')

def scanFraction : Scanner Nat
  | '.' :: cs =>
    let ds := cs.takeWhile Char.isDigit
    if ds.isEmpty then none else some (nanoseconds ds, cs.dropWhile Char.isDigit)
  | cs => some (0, cs)

def scanTime (cs : List Char) : Option (TimeOfDay × List Char) := do
  let (hour, cs) ← scanNumber 2 cs
  let cs ← scanChar ':' cs
  let (minute, cs) ← scanNumber 2 cs
  let cs ← scanChar ':' cs
  let (second, cs) ← scanNumber 2 cs
  let (nanosecond, cs) ← scanFraction cs
  let t : TimeOfDay := ⟨hour, minute, second, nanosecond⟩
  if t.isValid then some (t, cs) else none

def scanOffsetMinutes (behind : Bool) (cs : List Char) : Option (Option Offset × List Char) := do
  let (hour, cs) ← scanNumber 2 cs
  let cs ← scanChar ':' cs
  let (minute, cs) ← scanNumber 2 cs
  if hour ≤ 23 ∧ minute ≤ 59 then some (some (.minutes behind (hour * 60 + minute)), cs) else none

def scanOffset : Scanner (Option Offset)
  | 'Z' :: cs => some (some .utc, cs)
  | 'z' :: cs => some (some .utc, cs)
  | '+' :: cs => scanOffsetMinutes false cs
  | '-' :: cs => scanOffsetMinutes true cs
  | cs => some (none, cs)

def isDateTimeMark (c : Char) : Bool :=
  c = 'T' || c = 't' || c = ' '

/-- What may follow a date: a mark and a time.  A blank that no time follows is left. -/
def scanAfterDate (d : Date) : Scanner Moment
  | c :: d₁ :: cs =>
    if isDateTimeMark c && d₁.isDigit then do
      let (t, cs) ← scanTime (d₁ :: cs)
      let (offset, cs) ← scanOffset cs
      return (.dateTime d t offset, cs)
    else some (.date d, c :: d₁ :: cs)
  | cs => some (.date d, cs)

def startsDate (cs : List Char) : Bool :=
  match scanDigits 4 cs with
  | some (_, '-' :: _) => true
  | _ => false

def startsTime (cs : List Char) : Bool :=
  match scanDigits 2 cs with
  | some (_, ':' :: _) => true
  | _ => false

def scanDated (cs : List Char) : Option (Moment × List Char) := do
  let (d, cs) ← scanDate cs
  scanAfterDate d cs

def scanTimed (cs : List Char) : Option (Moment × List Char) :=
  (scanTime cs).map fun (t, cs) => (.time t, cs)

end Toml

end ProxyConsole
