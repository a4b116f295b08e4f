import ProxyConsole.Proofs.Json.Harmless
import ProxyConsole.Proofs.Wire.RoundTrip

/-!
# Tolerant receivers

A receiver takes an envelope from every text that says the same: in whatever order its
members stand, however it is laid out, with members that the receiver does not know, and
with or without the members that have a default.
-/

set_option autoImplicit false

namespace ProxyConsole

open Json Relation

/-! ## Texts as lines -/

theorem Framing.isBlank_of_isSpace {b : UInt8} (space : isSpace b = true) : isBlank b = true := by
  simp only [isSpace, Bool.or_eq_true, beq_iff_eq] at space
  rcases space with ((rfl | rfl) | rfl) | rfl <;> rfl

theorem Framing.decodeLine_isText {α : Type} {members : List (Literal × Node)} {bytes : List UInt8}
    (stands : IsText (.object members none) bytes) (c : Codec α) :
    decodeLine c bytes = (decodeBytes c.decode bytes).mapError .undecodable := by
  have whole := stands.decodeBytes c.decode
  obtain ⟨text, after, value, blank', rfl⟩ := stands
  obtain ⟨before, core, blank, rfl, inner, tail, front, opening, closing⟩ := value.braces
  have trimmed := trim_padded (fun b member => isBlank_of_isSpace (blank b member))
    (fun b member => isBlank_of_isSpace (blank' b member)) opening closing rfl rfl
  have alone : IsText (.object members none) core :=
    ⟨core, [], inner, List.forall_mem_nil _, by simp⟩
  rw [decodeLine, List.append_assoc, trimmed, alone.decodeBytes, ← List.append_assoc, whole]

/-! ## Receivers -/

/-- A receiver that does not notice harmless differences.  What it accepts and begins with a
brace is a text of an object; and every text of an object with members that differ
harmlessly from these, however it is laid out, is accepted as the same item, by itself and
as a line. -/
structure Tolerant {α : Type} (c : Codec α) (names : List String)
    (defaults : List (String × Node)) : Prop where
  object : ∀ bytes item, decodeBytes c.decode bytes = .ok item →
    (skipSpace bytes).head? = some 0x7B → ∃ members, IsText (.object members none) bytes
  same : ∀ bytes bytes' members members' item, decodeBytes c.decode bytes = .ok item →
    IsText (.object members none) bytes →
    ReflTransGen (HarmlessChange names defaults) members members' →
    IsText (.object members' none) bytes' →
    decodeBytes c.decode bytes' = .ok item ∧ Framing.decodeLine c bytes' = .ok item

theorem Record.tolerant {σ : Type} {r : Record σ} {defaults : List (String × Node)}
    (independent : r.Independent) (idle : ∀ d ∈ defaults, r.Idle d.1 d.2) :
    Tolerant r.codec (r.fields.map Field.name) defaults where
  object bytes item decoded brace := Record.isText_of_decodeBytes decoded brace
  same := by
    intro bytes bytes' members members' item decoded stands changes stands'
    have read : r.decode (.object members none) = .ok item := by
      rw [← stands.decodeBytes r.decode]
      exact decoded
    have decoded' : decodeBytes r.codec.decode bytes' = .ok item := by
      rw [stands'.decodeBytes]
      exact HarmlessChange.decode_all independent idle changes read
    refine ⟨decoded', ?_⟩
    rw [Framing.decodeLine_isText stands', decoded']
    rfl

/-! ## Envelopes -/

namespace OutboundEnvelope

theorem independent : record.Independent :=
  Record.independent_of_pairwise (by simp [record, Field.commutes_of, Field.commutes_optional])

end OutboundEnvelope

namespace InboundEnvelope

theorem independent : record.Independent :=
  Record.independent_of_pairwise (by
    simp [record, Field.commutes_of, Field.commutes_optional, Field.optional_commutes,
      Field.optionals_commute])

end InboundEnvelope

/-- Both kinds of envelope are received whatever the order of their members and the blanks in their
text, with members under further names, and with or without the members that have a default. -/
theorem envelopes_tolerant :
    Tolerant OutboundEnvelope.codec ["request_id", "verb", "path", "body"] [("body", .null)] ∧
      Tolerant InboundEnvelope.codec
        ["request_id", "success", "status_code", "error_message", "failure", "body"]
        [("status_code", .number ⟨.ok (.integer 0), none⟩), ("body", .string ⟨.ok "", none⟩),
          ("error_message", .null), ("failure", .null)] := by
  constructor
  · refine Record.tolerant OutboundEnvelope.independent ?_
    rw [List.forall_mem_singleton]
    exact ⟨⟨_, rfl, rfl⟩, by decide⟩
  · refine Record.tolerant InboundEnvelope.independent ?_
    simp only [List.forall_mem_cons]
    refine ⟨⟨⟨_, rfl, rfl⟩, by decide⟩, ⟨⟨_, rfl, rfl⟩, by decide⟩, ⟨⟨_, rfl, rfl⟩, by decide⟩,
      ⟨⟨_, rfl, rfl⟩, by decide⟩, List.forall_mem_nil _⟩

end ProxyConsole
