import ProxyConsole.Proofs.Wire.Line

/-!
# Receiving a stream

A receiver appends each chunk that arrives to its buffer and takes frames off it until
there is nothing to take or a frame is too large.  Up to the first frame that is too
large, the outcomes are those of reading the stream line by line, so they do not depend
on how the stream was cut into chunks.
-/

set_option autoImplicit false

namespace ProxyConsole

/-- An error without the size that it reports. -/
def FrameError.sizeless : FrameError → FrameError
  | .tooLarge _ max => .tooLarge 0 max
  | e => e

namespace Framing

variable {α : Type}

/-! ## Reading by lines -/

/-- The outcomes of the lines of a stream, the last of which is not terminated. -/
def readLines (c : Codec α) (maxLength : Nat) : List (List UInt8) → List (Except FrameError α)
  | [] => []
  | [tail] =>
    if maxLength < tail.length then [.error (.tooLarge tail.length maxLength)] else []
  | line :: next :: lines =>
    if maxLength < line.length then [.error (.tooLarge line.length maxLength)]
    else if line.all isBlank then readLines c maxLength (next :: lines)
    else decodeLine c line :: readLines c maxLength (next :: lines)

/-- The outcomes of a stream that is there as a whole. -/
def reading (c : Codec α) (maxLength : Nat) (stream : List UInt8) : List (Except FrameError α) :=
  readLines c maxLength (stream.splitOn lineBreak)

/-! ## Receiving in chunks -/

/-- What a receiver has learned, and where it stands. -/
structure Received (α : Type) where
  outcomes : List (Except FrameError α)
  framing : Framing
  buffer : List UInt8

/-- Take frames until there is nothing to take or a frame is too large. -/
def drain (c : Codec α) (f : Framing) (buffer : List UInt8) : Received α :=
  let taken := take c f buffer
  match _outcome : taken.outcome with
  | .ok none => ⟨[], taken.framing, taken.buffer⟩
  | .error (.tooLarge size max) => ⟨[.error (.tooLarge size max)], taken.framing, taken.buffer⟩
  | .ok (some item) =>
    let later := drain c taken.framing taken.buffer
    ⟨.ok item :: later.outcomes, later.framing, later.buffer⟩
  | .error (.undecodable e) =>
    let later := drain c taken.framing taken.buffer
    ⟨.error (.undecodable e) :: later.outcomes, later.framing, later.buffer⟩
  | .error .unfinished => ⟨[.error .unfinished], taken.framing, taken.buffer⟩
termination_by buffer.length
decreasing_by
  all_goals
    rcases takeUpTo_shorter (c := c) (buffer.length + 1) f buffer with less | waits | ⟨_, _, long⟩
    · exact less
    · exact absurd (_outcome.symm.trans waits) (by simp)
    · exact absurd (_outcome.symm.trans long) (by simp)

/-- Append each chunk to the buffer and take what can be taken. -/
def receive (c : Codec α) (f : Framing) (buffer : List UInt8) : List (List UInt8) → Received α
  | [] => ⟨[], f, buffer⟩
  | chunk :: chunks =>
    let first := drain c f (buffer ++ chunk)
    let later := receive c first.framing first.buffer chunks
    ⟨first.outcomes ++ later.outcomes, later.framing, later.buffer⟩

/-- The outcomes up to and including the first frame that is too large. -/
def untilTooLarge : List (Except FrameError α) → List (Except FrameError α)
  | [] => []
  | .error (.tooLarge size max) :: _ => [.error (.tooLarge size max)]
  | outcome :: outcomes => outcome :: untilTooLarge outcomes

/-- One receiver comes from another by appending bytes and attempting to take frames, in any
order. -/
inductive Reaches (c : Codec α) (f : Framing) (buffer : List UInt8) :
    Framing → List UInt8 → Prop where
  | refl : Reaches c f buffer f buffer
  | appends {f' : Framing} {buffer' : List UInt8} (chunk : List UInt8)
      (earlier : Reaches c f buffer f' buffer') : Reaches c f buffer f' (buffer' ++ chunk)
  | takes {f' : Framing} {buffer' : List UInt8} (earlier : Reaches c f buffer f' buffer') :
      Reaches c f buffer (take c f' buffer').framing (take c f' buffer').buffer

/-- How a receiver with a limit reads a stream. -/
structure ReadsByLine (c : Codec α) (maxLength : Nat) : Prop where
  outcomes : ∀ chunks : List (List UInt8),
    (untilTooLarge (receive c (new maxLength) [] chunks).outcomes).map
        (Except.mapError FrameError.sizeless) =
      (reading c maxLength chunks.flatten).map (Except.mapError FrameError.sizeless)
  /-- An attempt passes over blank lines and consumes the one line that it yields, if any. -/
  attempts : ∀ f buffer, Reaches c (new maxLength) [] f buffer →
    Takes c maxLength buffer (take c f buffer)
  /-- After a frame that is too large, every attempt finds one, whatever is appended. -/
  stuck : ∀ f buffer size max, Reaches c (new maxLength) [] f buffer →
    (take c f buffer).outcome = .error (.tooLarge size max) →
    ∀ f' buffer', Reaches c (take c f buffer).framing (take c f buffer).buffer f' buffer' →
      ∃ size', (take c f' buffer').outcome = .error (.tooLarge size' maxLength)
  ends : ∀ (f : Framing) (buffer : List UInt8) (fuel : Nat), buffer.length < fuel →
    takeUpTo c f fuel buffer = take c f buffer
  within : ∀ f buffer, Reaches c (new maxLength) [] f buffer → f.searched ≤ buffer.length

variable {c : Codec α} {maxLength : Nat}

/-! ## Lines of a stream -/

theorem reading_unbroken {stream : List UInt8} (maxLength : Nat) (unbroken : lineBreak ∉ stream) :
    reading c maxLength stream =
      if maxLength < stream.length then [.error (.tooLarge stream.length maxLength)] else [] := by
  rw [reading, List.splitOn_eq_singleton unbroken, readLines]

theorem reading_line {line : List UInt8} (whole : lineBreak ∉ line) (rest : List UInt8) :
    reading c maxLength (line ++ lineBreak :: rest) =
      if maxLength < line.length then [.error (.tooLarge line.length maxLength)]
      else if line.all isBlank then reading c maxLength rest
      else decodeLine c line :: reading c maxLength rest := by
  have split := List.splitOn_append_cons_self_of_not_mem whole rest
  rw [reading, split, reading]
  cases lines : rest.splitOn lineBreak with
  | nil => exact absurd lines (List.splitOn_ne_nil lineBreak rest)
  | cons next more => rw [readLines]

/-- What an attempt adds to the outcomes before the receiver goes on. -/
def Taken.yield (taken : Taken α) : List (Except FrameError α) :=
  match taken.outcome with
  | .ok (some item) => [.ok item]
  | .error (.undecodable e) => [.error (.undecodable e)]
  | _ => []

/-- An attempt moves the front of what is read into its outcome, whatever follows. -/
theorem Takes.reading {buffer : List UInt8} {taken : Taken α}
    (takes : Takes c maxLength buffer taken) (more : List UInt8) :
    reading c maxLength (buffer ++ more) =
      Taken.yield taken ++ reading c maxLength (taken.buffer ++ more) := by
  induction takes with
  | waits buffer unbroken fits => rfl
  | overflows buffer searched unbroken long within => rfl
  | refuses line rest whole long => rfl
  | skips line rest taken whole fits blank later ih =>
    rw [List.append_assoc, List.cons_append, reading_line whole, if_neg (Nat.not_lt.mpr fits),
      if_pos blank]
    exact ih
  | yields line rest whole fits marked =>
    rw [List.append_assoc, List.cons_append, reading_line whole, if_neg (Nat.not_lt.mpr fits),
      if_neg (by simp [marked])]
    have outcome : (⟨(decodeLine c line).map some, ⟨maxLength, 0⟩, rest⟩ : Taken α).yield =
        [decodeLine c line] := by
      rw [decodeLine]
      cases Json.decodeBytes c.decode (trim line) <;> rfl
    rw [outcome]
    rfl

/-! ## Overlong lines -/

/-- The first line of the buffer, terminated or not, is longer than the limit. -/
structure Overlong (maxLength : Nat) (buffer : List UInt8) : Prop where
  long : maxLength < buffer.length
  unbroken : lineBreak ∉ buffer.take (maxLength + 1)

theorem Overlong.append {buffer : List UInt8} (overlong : Overlong maxLength buffer)
    (more : List UInt8) : Overlong maxLength (buffer ++ more) := by
  have long := overlong.long
  constructor
  · rw [List.length_append]
    omega
  · rw [List.take_append_of_le_length long]
    exact overlong.unbroken

theorem Overlong.of_unbroken {buffer : List UInt8} (unbroken : lineBreak ∉ buffer)
    (long : maxLength < buffer.length) : Overlong maxLength buffer :=
  ⟨long, fun member => unbroken (List.mem_of_mem_take member)⟩

theorem not_overlong_line {line rest : List UInt8} (fits : line.length ≤ maxLength) :
    ¬ Overlong maxLength (line ++ lineBreak :: rest) := by
  intro overlong
  apply overlong.unbroken
  have next : (line ++ lineBreak :: rest)[line.length]? = some lineBreak := by simp
  have kept : ((line ++ lineBreak :: rest).take (maxLength + 1))[line.length]? =
    some lineBreak := by
    rw [List.getElem?_take_of_lt (by omega)]
    exact next
  exact List.mem_of_getElem? kept

theorem Overlong.reading {buffer : List UInt8} (overlong : Overlong maxLength buffer) :
    ∃ size, reading c maxLength buffer = [.error (.tooLarge size maxLength)] := by
  by_cases broken : lineBreak ∈ buffer
  · obtain ⟨line, rest, rfl, whole⟩ := List.eq_append_cons_of_mem broken
    have long : maxLength < line.length := by
      apply Nat.lt_of_not_le
      intro fits
      exact not_overlong_line fits overlong
    exact ⟨line.length, by rw [reading_line whole, if_pos long]⟩
  · exact ⟨buffer.length, by rw [reading_unbroken maxLength broken, if_pos overlong.long]⟩

/-- What an attempt leaves behind, by its outcome. -/
structure Leaves (maxLength : Nat) (taken : Taken α) : Prop where
  limit : taken.framing.maxLength = maxLength
  resumes : taken.framing.Resumes taken.buffer
  waiting : taken.outcome = .ok none →
    lineBreak ∉ taken.buffer ∧ taken.buffer.length ≤ maxLength
  overlong : ∀ size max, taken.outcome = .error (.tooLarge size max) →
    max = maxLength ∧ Overlong maxLength taken.buffer
  finished : taken.outcome ≠ .error .unfinished

theorem decodeLine_error {line : List UInt8} {e : FrameError}
    (failed : (decodeLine c line).map some = .error e) : ∃ e', e = .undecodable e' := by
  rw [decodeLine] at failed
  cases decoded : Json.decodeBytes c.decode (trim line) with
  | ok item =>
    rw [decoded] at failed
    cases failed
  | error e' =>
    rw [decoded] at failed
    cases failed
    exact ⟨e', rfl⟩

theorem decodeLine_ne_none {line : List UInt8} : (decodeLine c line).map some ≠ .ok none := by
  rw [decodeLine]
  cases Json.decodeBytes c.decode (trim line) <;> simp [Except.mapError, Except.map]

theorem Takes.leaves {buffer : List UInt8} {taken : Taken α}
    (takes : Takes c maxLength buffer taken) : Leaves maxLength taken := by
  induction takes with
  | waits buffer unbroken fits =>
    refine ⟨rfl, ⟨Nat.le_refl _, ?_⟩, fun _ => ⟨unbroken, fits⟩, by simp, by simp⟩
    simpa only [List.take_length] using unbroken
  | overflows buffer searched unbroken long within =>
    refine ⟨rfl, ⟨within, fun member => unbroken (List.mem_of_mem_take member)⟩, by simp, ?_,
      by simp⟩
    intro size max outcome
    cases outcome
    exact ⟨rfl, .of_unbroken unbroken long⟩
  | refuses line rest whole long =>
    refine ⟨rfl, resumes_fresh _ _, by simp, ?_, by simp⟩
    intro size max outcome
    cases outcome
    exact ⟨rfl, (Overlong.of_unbroken whole long).append _⟩
  | skips line rest taken whole fits blank later ih => exact ih
  | yields line rest whole fits marked =>
    refine ⟨rfl, resumes_fresh _ _, fun outcome => absurd outcome decodeLine_ne_none, ?_, ?_⟩
    · intro size max outcome
      obtain ⟨_, other⟩ := decodeLine_error outcome
      cases other
    · intro outcome
      obtain ⟨_, other⟩ := decodeLine_error outcome
      cases other

theorem Takes.of_overlong {buffer : List UInt8} {taken : Taken α}
    (takes : Takes c maxLength buffer taken) (overlong : Overlong maxLength buffer) :
    (∃ size, taken.outcome = .error (.tooLarge size maxLength)) ∧ taken.buffer = buffer := by
  cases takes with
  | waits _ unbroken fits => exact absurd overlong.long (Nat.not_lt.mpr fits)
  | overflows _ searched unbroken long within => exact ⟨⟨_, rfl⟩, rfl⟩
  | refuses line rest whole long => exact ⟨⟨_, rfl⟩, rfl⟩
  | skips line rest _ whole fits blank later => exact absurd overlong (not_overlong_line fits)
  | yields line rest whole fits marked => exact absurd overlong (not_overlong_line fits)

/-! ## Taking what can be taken -/

/-- None of the outcomes is that a frame is too large. -/
def AllFit (outcomes : List (Except FrameError α)) : Prop :=
  ∀ size max, .error (.tooLarge size max) ∉ outcomes

theorem untilTooLarge_append {outcomes : List (Except FrameError α)} (fit : AllFit outcomes)
    (more : List (Except FrameError α)) :
    untilTooLarge (outcomes ++ more) = outcomes ++ untilTooLarge more := by
  induction outcomes with
  | nil => rfl
  | cons outcome rest ih =>
    have others : AllFit rest := fun size max member => fit size max (List.mem_cons_of_mem _ member)
    rw [List.cons_append, untilTooLarge, ih others, List.cons_append]
    intro size max same
    exact fit size max (List.mem_cons.mpr (Or.inl same.symm))

/-- Where a receiver stands that has taken all it can from a buffer: the rest is the start of a line
that may still fit, or a frame was too large. -/
structure Drained (c : Codec α) (maxLength : Nat) (buffer : List UInt8) (received : Received α) :
    Prop where
  limit : received.framing.maxLength = maxLength
  resumes : received.framing.Resumes received.buffer
  outcomes : ∃ fitting, AllFit fitting ∧
    (∀ more, reading c maxLength (buffer ++ more) =
      fitting ++ reading c maxLength (received.buffer ++ more)) ∧
    ((received.outcomes = fitting ∧ lineBreak ∉ received.buffer ∧
        received.buffer.length ≤ maxLength) ∨
      ∃ size, received.outcomes = fitting ++ [.error (.tooLarge size maxLength)] ∧
        Overlong maxLength received.buffer)

theorem Drained.cons {buffer rest : List UInt8} {received : Received α}
    {outcome : Except FrameError α} (drained : Drained c maxLength rest received)
    (fits : AllFit [outcome])
    (reads : ∀ more, reading c maxLength (buffer ++ more) =
      outcome :: reading c maxLength (rest ++ more)) :
    Drained c maxLength buffer
      ⟨outcome :: received.outcomes, received.framing, received.buffer⟩ := by
  obtain ⟨fitting, allFit, later, ending⟩ := drained.outcomes
  refine ⟨drained.limit, drained.resumes, outcome :: fitting, ?_, ?_, ?_⟩
  · intro size max member
    rcases List.mem_cons.mp member with first | other
    · exact fits size max (List.mem_singleton.mpr first)
    · exact allFit size max other
  · intro more
    rw [reads more, later more, List.cons_append]
  · rcases ending with ⟨same, tail⟩ | ⟨size, same, overlong⟩
    · exact Or.inl ⟨by rw [same], tail⟩
    · exact Or.inr ⟨size, by rw [same, List.cons_append], overlong⟩

theorem drain_drained {f : Framing} {buffer : List UInt8} (limit : f.maxLength = maxLength)
    (resumes : f.Resumes buffer) : Drained c maxLength buffer (drain c f buffer) := by
  induction size : buffer.length using Nat.strongRecOn generalizing f buffer with
  | _ n ih =>
    have takes : Takes c maxLength buffer (take c f buffer) := by
      rw [← limit]
      exact take_takes resumes
    have leaves := takes.leaves
    have reads := takes.reading
    have shorter := takeUpTo_shorter (c := c) (buffer.length + 1) f buffer
    rw [← take] at shorter
    rw [drain]
    unfold Taken.yield at reads
    split
    · rename_i outcome
      simp only [outcome, List.nil_append] at reads
      obtain ⟨unbroken, fits⟩ := leaves.waiting outcome
      exact ⟨leaves.limit, leaves.resumes, [], by simp [AllFit], reads,
        Or.inl ⟨rfl, unbroken, fits⟩⟩
    · rename_i size' max outcome
      simp only [outcome, List.nil_append] at reads
      obtain ⟨rfl, overlong⟩ := leaves.overlong size' max outcome
      exact ⟨leaves.limit, leaves.resumes, [], by simp [AllFit], reads,
        Or.inr ⟨size', rfl, overlong⟩⟩
    · rename_i item outcome
      simp only [outcome, List.singleton_append] at reads
      simp only [outcome] at shorter
      have less : (take c f buffer).buffer.length < n := by simpa [size] using shorter
      exact (ih _ less leaves.limit leaves.resumes rfl).cons (by simp [AllFit]) reads
    · rename_i e outcome
      simp only [outcome, List.singleton_append] at reads
      simp only [outcome] at shorter
      have less : (take c f buffer).buffer.length < n := by simpa [size] using shorter
      exact (ih _ less leaves.limit leaves.resumes rfl).cons (by simp [AllFit]) reads
    · rename_i outcome
      exact absurd outcome leaves.finished

/-! ## Chunk after chunk -/

theorem receive_reading {f : Framing} {buffer : List UInt8} (limit : f.maxLength = maxLength)
    (resumes : f.Resumes buffer) (unbroken : lineBreak ∉ buffer) (fits : buffer.length ≤ maxLength)
    (chunks : List (List UInt8)) :
    (untilTooLarge (receive c f buffer chunks).outcomes).map (Except.mapError FrameError.sizeless) =
      (reading c maxLength (buffer ++ chunks.flatten)).map
        (Except.mapError FrameError.sizeless) := by
  induction chunks generalizing f buffer with
  | nil =>
    rw [List.flatten_nil, List.append_nil, reading_unbroken maxLength unbroken,
      if_neg (Nat.not_lt.mpr fits)]
    rfl
  | cons chunk chunks ih =>
    have drained := drain_drained (c := c) limit (resumes.append chunk)
    obtain ⟨fitting, allFit, reads, ending⟩ := drained.outcomes
    rw [receive, List.flatten_cons, ← List.append_assoc, reads]
    rcases ending with ⟨outcomes, unbroken', fits'⟩ | ⟨size, outcomes, overlong⟩
    · simp only [outcomes, untilTooLarge_append allFit, List.map_append]
      rw [ih drained.limit drained.resumes unbroken' fits']
    · obtain ⟨size', whole⟩ := (overlong.append chunks.flatten).reading (c := c)
      simp only [outcomes, List.append_assoc, untilTooLarge_append allFit, List.map_append, whole]
      rfl

/-- Every receiver that comes from a new one remembers a part of its buffer without a line break. -/
theorem Reaches.sound {f f' : Framing} {buffer buffer' : List UInt8}
    (reaches : Reaches c f buffer f' buffer') (limit : f.maxLength = maxLength)
    (resumes : f.Resumes buffer) : f'.maxLength = maxLength ∧ f'.Resumes buffer' := by
  induction reaches with
  | refl => exact ⟨limit, resumes⟩
  | appends chunk earlier ih => exact ⟨ih.1, ih.2.append chunk⟩
  | takes earlier ih =>
    have takes := take_takes (c := c) ih.2
    rw [ih.1] at takes
    exact ⟨takes.leaves.limit, takes.leaves.resumes⟩

theorem Reaches.overlong {f f' : Framing} {buffer buffer' : List UInt8}
    (reaches : Reaches c f buffer f' buffer') (limit : f.maxLength = maxLength)
    (resumes : f.Resumes buffer) (overlong : Overlong maxLength buffer) :
    Overlong maxLength buffer' := by
  induction reaches with
  | refl => exact overlong
  | appends chunk earlier ih => exact ih.append chunk
  | takes earlier ih =>
    obtain ⟨limit', resumes'⟩ := earlier.sound limit resumes
    have takes := take_takes (c := c) resumes'
    rw [limit'] at takes
    rw [(takes.of_overlong ih).2]
    exact ih

theorem Reaches.of_new {f : Framing} {buffer : List UInt8}
    (reaches : Reaches c (new maxLength) [] f buffer) :
    f.maxLength = maxLength ∧ f.Resumes buffer :=
  reaches.sound rfl (resumes_fresh maxLength [])

/-- Receiving is reading line by line, for every stream, every limit and every way to cut the
stream. -/
theorem readsByLine (c : Codec α) (maxLength : Nat) : ReadsByLine c maxLength where
  outcomes chunks :=
    receive_reading rfl (resumes_fresh maxLength []) (by simp) (Nat.zero_le _) chunks
  attempts := by
    intro f buffer reaches
    obtain ⟨rfl, resumes⟩ := reaches.of_new
    exact take_takes resumes
  stuck := by
    intro f buffer size max reaches long f' buffer' later
    obtain ⟨rfl, resumes⟩ := reaches.of_new
    have leaves := (take_takes (c := c) resumes).leaves
    have overlong := later.overlong leaves.limit leaves.resumes (leaves.overlong size max long).2
    obtain ⟨limit, resumes'⟩ := later.sound leaves.limit leaves.resumes
    have again := take_takes (c := c) resumes'
    rw [limit] at again
    exact (again.of_overlong overlong).1
  ends _ _ _ enough := takeUpTo_eq_take enough
  within := by
    intro f buffer reaches
    exact reaches.of_new.2.within

end Framing

end ProxyConsole
