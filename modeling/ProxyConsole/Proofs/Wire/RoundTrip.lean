import ProxyConsole.Wire.Envelope
import ProxyConsole.Proofs.Json.Record
import ProxyConsole.Proofs.Wire.Reception

/-!
# From sender to receiver

Items that a sender accepts reach a receiver with no smaller limit in order and
unchanged, however the bytes between them are cut.  Each item is one line without blanks
at its ends, so it neither breaks the stream nor is taken for a blank line; an item that
is refused adds nothing.
-/

set_option autoImplicit false

namespace ProxyConsole

/-! ## Envelopes -/

theorem RequestId.faithful : RequestId.codec.Faithful := by
  intro id
  obtain ⟨node, written, decoded⟩ := Codec.faithful_uint64 id.val
  exact ⟨node, written, by simp only [codec, decoded, Except.map]⟩

theorem Verb.faithful : Verb.codec.Faithful :=
  Codec.faithful_variant fun v => by cases v <;> decide

theorem RelayedFailure.faithful : RelayedFailure.codec.Faithful :=
  Codec.faithful_variant fun f => by cases f <;> decide

theorem OutboundEnvelope.faithful : OutboundEnvelope.codec.Faithful := by
  refine Record.faithful (by decide) ?_
  rintro ⟨id, verb, path, body⟩
  have restored : Restores ⟨id, verb, path, body⟩ record.fields record.blank _ :=
    .cons (Field.restores_of RequestId.faithful ..) <|
    .cons (Field.restores_of Verb.faithful ..) <|
    .cons (Field.restores_of Codec.faithful_string ..) <|
    .cons (Field.restores_optional Codec.faithful_string nofun ..) .nil
  cases body <;> exact restored

theorem InboundEnvelope.faithful : InboundEnvelope.codec.Faithful := by
  refine Record.faithful (by decide) ?_
  rintro ⟨id, success, status, errorMessage, failure, body⟩
  have restored : Restores ⟨id, success, status, errorMessage, failure, body⟩ record.fields
      record.blank _ :=
    .cons (Field.restores_of RequestId.faithful ..) <|
    .cons (Field.restores_of Codec.faithful_bool ..) <|
    .cons (Field.restores_of Codec.faithful_uint16 ..) <|
    .cons (Field.restores_optional Codec.faithful_string nofun ..) <|
    .cons (Field.restores_optional RelayedFailure.faithful nofun ..) <|
    .cons (Field.restores_of Codec.faithful_string ..) .nil
  cases errorMessage <;> cases failure <;> exact restored

namespace Framing

variable {α : Type} {c : Codec α} {maxLength : Nat}

/-! ## One item as a line -/

theorem payload_eq_bytes (c : Codec α) (item : α) : payload c item = (c.encode item).bytes := rfl

theorem isBlank_eq_false {b : UInt8} (shown : 0x20 < b) : isBlank b = false := by
  have differs := Json.beq_of_shown shown
  rw [isBlank, differs 0x20 (by decide), differs 0x09 (by decide), differs 0x0A (by decide),
    differs 0x0C (by decide), differs 0x0D (by decide)]
  rfl

/-- The text of an item is a line of its own with nothing to trim. -/
structure Line (line : List UInt8) : Prop where
  whole : lineBreak ∉ line
  marked : line.all isBlank = false
  trimmed : trim line = line

theorem line_payload (faithful : c.Faithful) (item : α) : Line (payload c item) := by
  obtain ⟨node, written, _⟩ := faithful item
  have scans := written.scans
  rw [← payload_eq_bytes] at scans
  obtain ⟨first, tail, opening, shown, _⟩ := scans.head
  obtain ⟨front, last, closing, shown'⟩ := scans.last
  constructor
  · intro broken
    exact absurd (scans.printable _ broken) (by decide)
  · rw [opening, List.all_cons, isBlank_eq_false shown, Bool.false_and]
  · have padded := trim_padded (List.forall_mem_nil _) (List.forall_mem_nil _) opening closing
      (isBlank_eq_false shown) (isBlank_eq_false shown')
    rwa [List.append_nil] at padded

theorem decodeLine_payload (faithful : c.Faithful) (item : α) :
    decodeLine c (payload c item) = .ok item := by
  rw [decodeLine, (line_payload faithful item).trimmed, payload_eq_bytes, faithful.decodeBytes]
  rfl

/-! ## Sending -/

/-- The items that a sender accepts, and its buffer after them. -/
structure Sent (α : Type) where
  accepted : List α
  buffer : List UInt8

/-- Put items one after another; an item that is refused leaves the buffer as it is. -/
def send (c : Codec α) (f : Framing) : List α → List UInt8 → Sent α
  | [], buffer => ⟨[], buffer⟩
  | item :: items, buffer =>
    match put c f item buffer with
    | .error _ => send c f items buffer
    | .ok longer =>
      let later := send c f items longer
      ⟨item :: later.accepted, later.buffer⟩

/-- Whether the text of an item is within a limit. -/
def Fits (c : Codec α) (maxLength : Nat) (item : α) : Prop :=
  (Utf8.encode (c.text item)).length ≤ maxLength

theorem encode_text (c : Codec α) (item : α) : Utf8.encode (c.text item) = payload c item := by
  rw [Utf8.encode, Codec.text, Json.compactText, String.toList_ofList, payload]

instance (c : Codec α) (maxLength : Nat) (item : α) : Decidable (Fits c maxLength item) :=
  inferInstanceAs (Decidable (_ ≤ _))

theorem put_of_fits {f : Framing} {item : α} (fits : Fits c f.maxLength item)
    (buffer : List UInt8) :
    put c f item buffer = .ok (buffer ++ Utf8.encode (c.text item) ++ [lineBreak]) := by
  have short : ¬ f.maxLength < (payload c item).length := by
    rw [← encode_text]
    exact Nat.not_lt.mpr fits
  rw [put, if_neg short, encode_text]

theorem put_of_not_fits {f : Framing} {item : α} (long : ¬ Fits c f.maxLength item)
    (buffer : List UInt8) :
    put c f item buffer =
      .error (.tooLarge (Utf8.encode (c.text item)).length f.maxLength) := by
  have tooLong : f.maxLength < (payload c item).length := by
    rw [← encode_text]
    exact Nat.lt_of_not_le long
  rw [put, if_pos tooLong, encode_text]

/-- A sender accepts exactly the items that fit, and its buffer grows by their lines. -/
theorem send_eq (c : Codec α) (f : Framing) (items : List α) (buffer : List UInt8) :
    send c f items buffer =
      ⟨items.filter (Fits c f.maxLength),
        buffer ++ (items.filter (Fits c f.maxLength)).flatMap
          fun item => payload c item ++ [lineBreak]⟩ := by
  induction items generalizing buffer with
  | nil => simp [send]
  | cons item items ih =>
    by_cases fits : Fits c f.maxLength item
    · rw [send, put_of_fits fits, List.filter_cons_of_pos (by simpa using fits), encode_text]
      dsimp only
      rw [ih]
      simp
    · rw [send, put_of_not_fits fits, List.filter_cons_of_neg (by simpa using fits)]
      exact ih buffer

/-! ## Receiving what was sent -/

theorem reading_items (faithful : c.Faithful) {items : List α}
    (fit : ∀ item ∈ items, Fits c maxLength item) (rest : List UInt8) :
    reading c maxLength
        (items.flatMap (fun item => payload c item ++ [lineBreak]) ++ rest) =
      items.map .ok ++ reading c maxLength rest := by
  induction items with
  | nil => rfl
  | cons item items ih =>
    obtain ⟨whole, marked, _⟩ := line_payload faithful item
    have short : ¬ maxLength < (payload c item).length := by
      rw [← encode_text]
      exact Nat.not_lt.mpr (fit item List.mem_cons_self)
    have others := ih fun item' member => fit item' (List.mem_cons_of_mem _ member)
    rw [List.flatMap_cons, List.append_assoc, List.append_assoc, List.singleton_append,
      reading_line whole, if_neg short, if_neg (by simp [marked]), decodeLine_payload faithful,
      others]
    rfl

/-- A receiver that finds no frame too large ends up with all outcomes of the stream and the
start of a line. -/
theorem receive_of_allFit (maxLength : Nat) {f : Framing} {buffer : List UInt8}
    (limit : f.maxLength = maxLength)
    (resumes : f.Resumes buffer) (unbroken : lineBreak ∉ buffer) (short : buffer.length ≤ maxLength)
    (chunks : List (List UInt8))
    (allFit : AllFit (reading c maxLength (buffer ++ chunks.flatten))) :
    (receive c f buffer chunks).buffer.length ≤ maxLength ∧
      lineBreak ∉ (receive c f buffer chunks).buffer ∧
      ∀ more, reading c maxLength (buffer ++ chunks.flatten ++ more) =
        (receive c f buffer chunks).outcomes ++
          reading c maxLength ((receive c f buffer chunks).buffer ++ more) := by
  induction chunks generalizing f buffer with
  | nil =>
    refine ⟨short, unbroken, fun more => ?_⟩
    rw [List.flatten_nil, List.append_nil, receive, List.nil_append]
  | cons chunk chunks ih =>
    have drained := drain_drained (c := c) limit (resumes.append chunk)
    obtain ⟨fitting, _, reads, ending⟩ := drained.outcomes
    rw [List.flatten_cons, ← List.append_assoc, reads] at allFit
    rcases ending with ⟨outcomes, unbroken', short'⟩ | ⟨size, _, overlong⟩
    · have later : AllFit (reading c maxLength
          ((drain c f (buffer ++ chunk)).buffer ++ chunks.flatten)) :=
        fun size max member => allFit size max (List.mem_append_right _ member)
      obtain ⟨shortEnd, unbrokenEnd, readsEnd⟩ :=
        ih drained.limit drained.resumes unbroken' short' later
      rw [receive]
      refine ⟨shortEnd, unbrokenEnd, fun more => ?_⟩
      have parts : buffer ++ (chunk :: chunks).flatten ++ more =
          (buffer ++ chunk) ++ (chunks.flatten ++ more) := by
        simp only [List.flatten_cons, List.append_assoc]
      rw [parts, reads, ← List.append_assoc, readsEnd more, outcomes, List.append_assoc]
    · obtain ⟨size', long⟩ := (overlong.append chunks.flatten).reading (c := c)
      rw [long] at allFit
      exact absurd (List.mem_append_right _ (List.mem_singleton_self _)) (allFit size' maxLength)

theorem eq_nil_of_reading {items : List (Except FrameError α)} {stream tail : List UInt8}
    (unbroken : lineBreak ∉ tail)
    (reads : ∀ more, reading c maxLength (stream ++ more) =
      items ++ reading c maxLength (tail ++ more))
    (whole : ∀ more, reading c maxLength (stream ++ more) = items ++ reading c maxLength more) :
    tail = [] := by
  have same : ∀ more, reading c maxLength (tail ++ more) = reading c maxLength more := by
    intro more
    exact List.append_cancel_left ((reads more).symm.trans (whole more))
  -- as much as just fits by itself is too large after a tail
  have filler : lineBreak ∉ List.replicate maxLength (0x20 : UInt8) := by
    intro member
    exact absurd (List.eq_of_mem_replicate member) (by decide)
  have alone := reading_unbroken (c := c) maxLength filler
  rw [List.length_replicate, if_neg (Nat.lt_irrefl _)] at alone
  have joined : lineBreak ∉ tail ++ List.replicate maxLength (0x20 : UInt8) := by
    rw [List.mem_append]
    rintro (inTail | inFiller)
    · exact unbroken inTail
    · exact filler inFiller
  have together := same (List.replicate maxLength 0x20)
  rw [alone, reading_unbroken maxLength joined, List.length_append,
    List.length_replicate] at together
  apply List.eq_nil_of_length_eq_zero
  by_contra left
  rw [if_pos (by omega)] at together
  cases together

/-- How items of a codec travel from a sender to a receiver. -/
structure Travels (c : Codec α) : Prop where
  refused : ∀ f item buffer,
    (∃ size max, put c f item buffer = .error (.tooLarge size max)) ↔
      f.maxLength < (Utf8.encode (c.text item)).length
  accepted : ∀ f item buffer longer, put c f item buffer = .ok longer →
    longer = buffer ++ Utf8.encode (c.text item) ++ [lineBreak]
  /-- Whatever is sent is received unchanged and in order, and nothing else is. -/
  received : ∀ (sender : Framing) maxLength items chunks, sender.maxLength ≤ maxLength →
    chunks.flatten = (send c sender items []).buffer →
    (receive c (new maxLength) [] chunks).outcomes =
        (send c sender items []).accepted.map .ok ∧
      (receive c (new maxLength) [] chunks).buffer = []

theorem travels_of_faithful (faithful : c.Faithful) : Travels c where
  refused := by
    intro f item buffer
    constructor
    · rintro ⟨size, max, refused⟩
      apply Nat.lt_of_not_le
      intro fits
      rw [put_of_fits fits] at refused
      cases refused
    · intro long
      exact ⟨_, _, put_of_not_fits (Nat.not_le.mpr long) buffer⟩
  accepted := by
    intro f item buffer longer accepted
    by_cases fits : Fits c f.maxLength item
    · rw [put_of_fits fits] at accepted
      exact (Except.ok.inj accepted).symm
    · rw [put_of_not_fits fits] at accepted
      cases accepted
  received := by
    intro sender maxLength items chunks wider stream
    rw [send_eq] at stream ⊢
    dsimp only at stream ⊢
    rw [List.nil_append] at stream
    generalize sent : items.filter (Fits c sender.maxLength) = kept at stream ⊢
    have fit : ∀ item ∈ kept, Fits c maxLength item := by
      intro item member
      rw [← sent, List.mem_filter] at member
      have narrow : Fits c sender.maxLength item := by simpa using member.2
      exact Nat.le_trans narrow wider
    have whole := fun more => reading_items faithful fit more
    rw [← stream] at whole
    have empty : reading c maxLength [] = [] := by
      rw [reading_unbroken maxLength List.not_mem_nil, if_neg (by simp)]
    have all := whole []
    rw [List.append_nil, empty, List.append_nil] at all
    have allFit : AllFit (reading c maxLength ([] ++ chunks.flatten)) := by
      rw [List.nil_append, all]
      intro size max member
      obtain ⟨item, _, other⟩ := List.mem_map.mp member
      cases other
    obtain ⟨short, unbroken, reads⟩ := receive_of_allFit maxLength
      (f := new maxLength) rfl (resumes_fresh maxLength []) (by simp) (Nat.zero_le _) chunks
      allFit
    rw [List.nil_append] at reads
    have outcomes := reads []
    rw [List.append_nil, all, List.append_nil, reading_unbroken maxLength unbroken,
      if_neg (Nat.not_lt.mpr short), List.append_nil] at outcomes
    refine ⟨outcomes.symm, eq_nil_of_reading unbroken reads ?_⟩
    intro more
    rw [whole more, outcomes]

/-- Both kinds of envelopes travel unchanged. -/
theorem envelopes_travel : Travels OutboundEnvelope.codec ∧ Travels InboundEnvelope.codec :=
  ⟨travels_of_faithful OutboundEnvelope.faithful, travels_of_faithful InboundEnvelope.faithful⟩

end Framing

end ProxyConsole
