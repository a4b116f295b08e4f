import Mathlib.Data.List.TakeWhile
import ProxyConsole.Wire.Frame

/-!
# Taking one frame

What a receiver remembers of its buffer is a part without a line break, so a search may
go on after it.  One attempt to take a frame then depends on the buffer and the limit
alone: it passes over blank lines, and what it does next is decided by the first line
that is not blank.
-/

set_option autoImplicit false

namespace ProxyConsole.Framing

variable {α : Type} {c : Codec α}

/-- The searched part lies within the buffer and holds no line break. -/
structure Resumes (f : Framing) (buffer : List UInt8) : Prop where
  within : f.searched ≤ buffer.length
  unbroken : lineBreak ∉ buffer.take f.searched

theorem resumes_fresh (maxLength : Nat) (buffer : List UInt8) :
    Resumes ⟨maxLength, 0⟩ buffer := by
  constructor <;> simp

theorem Resumes.append {f : Framing} {buffer : List UInt8} (resumes : f.Resumes buffer)
    (chunk : List UInt8) : f.Resumes (buffer ++ chunk) := by
  constructor
  · have within := resumes.within
    rw [List.length_append]
    omega
  · rw [List.take_append_of_le_length resumes.within]
    exact resumes.unbroken

theorem Resumes.le_of_line {f : Framing} {line rest : List UInt8}
    (resumes : f.Resumes (line ++ lineBreak :: rest)) : f.searched ≤ line.length := by
  apply Nat.le_of_not_lt
  intro past
  apply resumes.unbroken
  have next : (line ++ lineBreak :: rest)[line.length]? = some lineBreak := by simp
  have kept : ((line ++ lineBreak :: rest).take f.searched)[line.length]? = some lineBreak := by
    rw [List.getElem?_take_of_lt past]
    exact next
  exact List.mem_of_getElem? kept

/-! ## Blank lines -/

theorem trim_eq_nil_iff {line : List UInt8} : trim line = [] ↔ line.all isBlank = true := by
  rw [trim, List.reverse_eq_nil_iff, List.dropWhile_eq_nil_iff, List.all_eq_true]
  constructor
  · intro blank b member
    cases shorter : line.dropWhile isBlank with
    | nil => exact List.dropWhile_eq_nil_iff.mp shorter b member
    | cons first rest =>
      have marked : isBlank first = false := by
        have kept : line.dropWhile isBlank ≠ [] := by
          rw [shorter]
          simp
        have head := List.head_dropWhile_not isBlank kept
        simpa only [shorter, List.head_cons] using head
      have claimed := blank first (by rw [shorter]; simp)
      rw [marked] at claimed
      cases claimed
  · intro blank b member
    have kept := List.mem_reverse.mp member
    exact blank b ((List.dropWhile_sublist isBlank).subset kept)

theorem trim_padded {before after core front tail : List UInt8} {first last : UInt8}
    (blank : ∀ b ∈ before, isBlank b = true) (blank' : ∀ b ∈ after, isBlank b = true)
    (opening : core = first :: tail) (closing : core = front ++ [last])
    (marked : isBlank first = false) (marked' : isBlank last = false) :
    trim (before ++ (core ++ after)) = core := by
  have kept : (core ++ after).dropWhile isBlank = core ++ after := by
    rw [opening, List.cons_append, List.dropWhile_cons_of_neg (by simp [marked])]
  have blankBack : ∀ b ∈ after.reverse, isBlank b = true :=
    fun b member => blank' b (List.mem_reverse.mp member)
  have keptBack : core.reverse.dropWhile isBlank = core.reverse := by
    rw [closing, List.reverse_append, List.reverse_singleton, List.singleton_append,
      List.dropWhile_cons_of_neg (by simp [marked'])]
  rw [trim, List.dropWhile_append_of_pos blank, kept, List.reverse_append,
    List.dropWhile_append_of_pos blankBack, keptBack, List.reverse_reverse]

/-- What the text of a line gives. -/
def decodeLine (c : Codec α) (line : List UInt8) : Except FrameError α :=
  (Json.decodeBytes c.decode (trim line)).mapError .undecodable

/-- All that an attempt to take a frame off a buffer can do. -/
inductive Takes (c : Codec α) (maxLength : Nat) : List UInt8 → Taken α → Prop where
  | waits (buffer : List UInt8) (unbroken : lineBreak ∉ buffer) (fits : buffer.length ≤ maxLength) :
      Takes c maxLength buffer ⟨.ok none, ⟨maxLength, buffer.length⟩, buffer⟩
  | overflows (buffer : List UInt8) (searched : Nat) (unbroken : lineBreak ∉ buffer)
      (long : maxLength < buffer.length) (within : searched ≤ buffer.length) :
      Takes c maxLength buffer
        ⟨.error (.tooLarge buffer.length maxLength), ⟨maxLength, searched⟩, buffer⟩
  | refuses (line rest : List UInt8) (whole : lineBreak ∉ line) (long : maxLength < line.length) :
      Takes c maxLength (line ++ lineBreak :: rest)
        ⟨.error (.tooLarge line.length maxLength), ⟨maxLength, 0⟩, line ++ lineBreak :: rest⟩
  | skips (line rest : List UInt8) (taken : Taken α) (whole : lineBreak ∉ line)
      (fits : line.length ≤ maxLength) (blank : line.all isBlank = true)
      (later : Takes c maxLength rest taken) :
      Takes c maxLength (line ++ lineBreak :: rest) taken
  | yields (line rest : List UInt8) (whole : lineBreak ∉ line) (fits : line.length ≤ maxLength)
      (marked : line.all isBlank = false) :
      Takes c maxLength (line ++ lineBreak :: rest)
        ⟨(decodeLine c line).map some, ⟨maxLength, 0⟩, rest⟩

/-! ## The search -/

theorem search_unbroken {buffer : List UInt8} (unbroken : lineBreak ∉ buffer) (searched : Nat) :
    (buffer.drop searched).findIdx? (· == lineBreak) = none := by
  rw [List.findIdx?_eq_none_iff]
  intro b member
  have other : b ≠ lineBreak := by
    rintro rfl
    exact unbroken (List.mem_of_mem_drop member)
  simpa using other

theorem search_line {line rest : List UInt8} (whole : lineBreak ∉ line) {searched : Nat}
    (within : searched ≤ line.length) :
    ((line ++ lineBreak :: rest).drop searched).findIdx? (· == lineBreak) =
      some (line.length - searched) := by
  rw [List.drop_append_of_le_length within, List.findIdx?_append, search_unbroken whole searched]
  simp [List.findIdx?_cons]

variable {f : Framing} {fuel : Nat}

theorem takeUpTo_unbroken {buffer : List UInt8} (unbroken : lineBreak ∉ buffer) :
    takeUpTo c f (fuel + 1) buffer =
      if f.maxLength < buffer.length then
        ⟨.error (.tooLarge buffer.length f.maxLength), f, buffer⟩
      else ⟨.ok none, { f with searched := buffer.length }, buffer⟩ := by
  rw [takeUpTo, search_unbroken unbroken]

theorem takeUpTo_line {line rest : List UInt8} (whole : lineBreak ∉ line)
    (within : f.searched ≤ line.length) :
    takeUpTo c f (fuel + 1) (line ++ lineBreak :: rest) =
      if f.maxLength < line.length then
        ⟨.error (.tooLarge line.length f.maxLength), { f with searched := 0 },
          line ++ lineBreak :: rest⟩
      else if line.all isBlank then takeUpTo c { f with searched := 0 } fuel rest
      else ⟨(decodeLine c line).map some, { f with searched := 0 }, rest⟩ := by
  have length : f.searched + (line.length - f.searched) = line.length := by omega
  have taken : (line ++ lineBreak :: rest).take line.length = line := List.take_left
  have dropped : (line ++ lineBreak :: rest).drop (line.length + 1) = rest := by simp
  rw [takeUpTo, search_line whole within]
  simp only [length, taken, dropped]
  split
  · rfl
  · cases text : trim line with
    | nil => rw [if_pos (trim_eq_nil_iff.mp text)]
    | cons first more =>
      have marked : ¬ line.all isBlank = true := by
        rw [← trim_eq_nil_iff, text]
        simp
      rw [if_neg marked, decodeLine, text]
      dsimp only
      cases Json.decodeBytes c.decode (first :: more) <;> rfl

/-- With fuel for every byte of the buffer, an attempt does one of the things it can do. -/
theorem takeUpTo_takes {buffer : List UInt8} (resumes : f.Resumes buffer)
    (enough : buffer.length < fuel) :
    Takes c f.maxLength buffer (takeUpTo c f fuel buffer) := by
  induction fuel generalizing f buffer with
  | zero => omega
  | succ fuel ih =>
    by_cases broken : lineBreak ∈ buffer
    · obtain ⟨line, rest, rfl, whole⟩ := List.eq_append_cons_of_mem broken
      rw [takeUpTo_line whole resumes.le_of_line]
      split
      · rename_i long
        exact .refuses line rest whole long
      · rename_i fits
        split
        · rename_i blank
          have shorter : rest.length < fuel := by
            simp only [List.length_append, List.length_cons] at enough
            omega
          have later := ih (resumes_fresh f.maxLength rest) shorter
          exact .skips line rest _ whole (Nat.le_of_not_lt fits) blank later
        · rename_i marked
          exact .yields line rest whole (Nat.le_of_not_lt fits) (by simpa using marked)
    · rw [takeUpTo_unbroken broken]
      split
      · rename_i long
        exact .overflows buffer f.searched broken long resumes.within
      · rename_i fits
        exact .waits buffer broken (Nat.le_of_not_lt fits)

theorem take_takes {buffer : List UInt8} (resumes : f.Resumes buffer) :
    Takes c f.maxLength buffer (take c f buffer) :=
  takeUpTo_takes resumes (Nat.lt_succ_self _)

/-- Fuel beyond the length of the buffer changes nothing: the search always ends by itself. -/
theorem takeUpTo_eq_take {buffer : List UInt8} (enough : buffer.length < fuel) :
    takeUpTo c f fuel buffer = take c f buffer := by
  have grows : ∀ (n : Nat) (f : Framing) (buffer : List UInt8), buffer.length < n →
      takeUpTo c f (n + 1) buffer = takeUpTo c f n buffer := by
    intro n
    induction n with
    | zero => intro f buffer bound; omega
    | succ n ih =>
      intro f buffer bound
      rw [takeUpTo, takeUpTo]
      split
      · rfl
      · rename_i offset found
        obtain ⟨inside, _, _⟩ := List.findIdx?_eq_some_iff_getElem.mp found
        have shorter : (buffer.drop (f.searched + offset + 1)).length < n := by
          rw [List.length_drop] at inside ⊢
          omega
        simp only [ih _ _ shorter]
  induction fuel with
  | zero => omega
  | succ fuel ih =>
    by_cases last : buffer.length = fuel
    · rw [take, last]
    · have bound : buffer.length < fuel := by omega
      rw [grows fuel f buffer bound]
      exact ih bound

theorem takeUpTo_shorter (fuel : Nat) (f : Framing) (buffer : List UInt8) :
    (takeUpTo c f fuel buffer).buffer.length < buffer.length ∨
      (takeUpTo c f fuel buffer).outcome = .ok none ∨
      ∃ size max, (takeUpTo c f fuel buffer).outcome = .error (.tooLarge size max) := by
  induction fuel generalizing f buffer with
  | zero => exact Or.inr (Or.inl rfl)
  | succ fuel ih =>
    rw [takeUpTo]
    split
    · split
      · exact Or.inr (Or.inr ⟨_, _, rfl⟩)
      · exact Or.inr (Or.inl rfl)
    · rename_i offset found
      obtain ⟨inside, _, _⟩ := List.findIdx?_eq_some_iff_getElem.mp found
      have shorter : (buffer.drop (f.searched + offset + 1)).length < buffer.length := by
        rw [List.length_drop] at inside ⊢
        omega
      dsimp only
      split
      · exact Or.inr (Or.inr ⟨_, _, rfl⟩)
      · split
        · rcases ih { f with searched := 0 } (buffer.drop (f.searched + offset + 1)) with
            less | waits | long
          · exact Or.inl (Nat.lt_trans less shorter)
          · exact Or.inr (Or.inl waits)
          · exact Or.inr (Or.inr long)
        · split <;> exact Or.inl shorter

end ProxyConsole.Framing
