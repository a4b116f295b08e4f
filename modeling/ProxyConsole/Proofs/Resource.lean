import ProxyConsole.Proofs.Json.Collection
import ProxyConsole.Proofs.Names

/-!
# Resources are read back

Every resource is read back from what it is written as, whatever its texts, numbers and
lists are.  Of all proxies this holds as far as they stand in the order of their keys,
in which they are always read.  What a core reports about itself is read in whatever
order its members stand.
-/

set_option autoImplicit false

namespace ProxyConsole

open Json

theorem Codec.faithful_texts : Codec.string.list.Faithful :=
  faithful_list faithful_string

/-! ## The core -/

theorem VersionInfo.faithful : codec.Faithful :=
  Record.faithful (by decide) fun _ =>
    .cons (Field.restores_of Codec.faithful_string ..) <|
    .cons (Field.restores_of Codec.faithful_bool ..) .nil

theorem TunSettings.faithful : record.codec.Faithful :=
  Record.faithful (by decide) fun _ =>
    .cons (Field.restores_of Codec.faithful_bool ..) <|
    .cons (Field.restores_of (Codec.faithful_option Codec.faithful_string nofun) ..) .nil

theorem Mode.faithful : codec.Faithful := by
  intro m
  have parsed : parse m.name = .ok m :=
    parse_ok_iff.mpr (Text.spells_self (by cases m <;> decide))
  exact ⟨.string (.ofText m.name), .string m.name, by
    simp only [codec, Codec.string, decodeString, Literal.ofText, liftFault, bind, Except.bind,
      parsed]⟩

theorem LogLevel.faithful : codec.Faithful := by
  intro l
  have parsed : parse l.name = .ok l :=
    parse_ok_iff.mpr (Text.spells_self (by cases l <;> decide))
  exact ⟨.string (.ofText l.name), .string l.name, by
    simp only [codec, Codec.string, decodeString, Literal.ofText, liftFault, bind, Except.bind,
      parsed]⟩

theorem RuntimeConfig.faithful : codec.Faithful :=
  Record.faithful (by decide) fun _ =>
    .cons (Field.restores_of Codec.faithful_uint16 ..) <|
    .cons (Field.restores_of Codec.faithful_uint16 ..) <|
    .cons (Field.restores_of Codec.faithful_uint16 ..) <|
    .cons (Field.restores_of Codec.faithful_bool ..) <|
    .cons (Field.restores_of Mode.faithful ..) <|
    .cons (Field.restores_of LogLevel.faithful ..) <|
    .cons (Field.restores_of Codec.faithful_bool ..) <|
    .cons (Field.restores_of TunSettings.faithful ..) .nil

theorem Mode.orderless : codec.Orderless :=
  Codec.orderless_of_scalar nofun

theorem LogLevel.orderless : codec.Orderless :=
  Codec.orderless_of_scalar nofun

theorem VersionInfo.orderless : codec.Orderless :=
  Record.orderless (Record.independent_of_pairwise (by simp [record, Field.commutes_of]))
    (by simp [record, Field.orderless_of, Codec.orderless_string, Codec.orderless_bool])

theorem TunSettings.orderless : record.codec.Orderless :=
  Record.orderless (Record.independent_of_pairwise (by simp [record, Field.commutes_of]))
    (by simp [record, Field.orderless_of, Codec.orderless_bool, Codec.orderless_string,
      Codec.orderless_option])

theorem RuntimeConfig.orderless : codec.Orderless :=
  Record.orderless (Record.independent_of_pairwise (by simp [record, Field.commutes_of]))
    (by simp [record, Field.orderless_of, Codec.orderless_bool, Codec.orderless_uint16,
      Mode.orderless, LogLevel.orderless, TunSettings.orderless])

/-! ## Proxies -/

theorem DelayHistory.faithful : record.codec.Faithful :=
  Record.faithful (by decide) fun _ =>
    .cons (Field.restores_of Codec.faithful_string ..) <|
    .cons (Field.restores_of Codec.faithful_uint32 ..) .nil

theorem DelayResult.faithful : codec.Faithful :=
  Record.faithful (by decide) fun _ =>
    .cons (Field.restores_of Codec.faithful_uint32 ..) .nil

theorem ProxyNode.faithful : codec.Faithful := by
  refine Record.faithful (by decide) ?_
  rintro ⟨name, kind, now, all, history⟩
  have restored : Restores ⟨name, kind, now, all, history⟩ record.fields record.blank _ :=
    .cons (Field.restores_of Codec.faithful_string ..) <|
    .cons (Field.restores_of Codec.faithful_string ..) <|
    .cons (Field.restores_optional Codec.faithful_string nofun ..) <|
    .cons (Field.restores_of Codec.faithful_texts ..) <|
    .cons (Field.restores_of (Codec.faithful_list DelayHistory.faithful) ..) .nil
  cases now <;> exact restored

theorem ProxiesSnapshot.keeps {s : ProxiesSnapshot} (ascending : Ascending s.proxies) :
    codec.Keeps s :=
  Record.keeps (by decide) <|
    .cons (Field.restores_of_keeps
      (Codec.keeps_map ascending fun e _ => ProxyNode.faithful e.2) ..) .nil

theorem ProxiesSnapshot.ascending_of_decode {node : Node} {s : ProxiesSnapshot}
    (decoded : codec.decode node = .ok s) : Ascending s.proxies := by
  have stored : ∀ f ∈ record.fields, ∀ node (s t : ProxiesSnapshot), Ascending s.proxies →
      f.store node s = .ok t → Ascending t.proxies := by
    intro f member node s t _ stored
    cases List.mem_singleton.mp member
    simp only [Field.of, Codec.map] at stored
    cases read : decodeMap ProxyNode.codec.decode node with
    | error e =>
      rw [read] at stored
      cases stored
    | ok entries =>
      rw [read] at stored
      cases stored
      exact decodeMap_ascending read
  have blank : Ascending record.blank.proxies := List.Pairwise.nil
  exact @Record.decode_preserves _ _ (fun s => Ascending s.proxies) blank stored node s decoded

/-! ## Connections and rules -/

theorem ConnectionMetadata.faithful : record.codec.Faithful :=
  Record.faithful (by decide) fun _ =>
    .cons (Field.restores_of Codec.faithful_string ..) <|
    .cons (Field.restores_of Codec.faithful_string ..) <|
    .cons (Field.restores_of Codec.faithful_string ..) <|
    .cons (Field.restores_of Codec.faithful_string ..) <|
    .cons (Field.restores_of Codec.faithful_string ..) <|
    .cons (Field.restores_of Codec.faithful_string ..) <|
    .cons (Field.restores_of Codec.faithful_string ..) .nil

theorem ConnectionInfo.faithful : record.codec.Faithful :=
  Record.faithful (by decide) fun _ =>
    .cons (Field.restores_of Codec.faithful_string ..) <|
    .cons (Field.restores_of ConnectionMetadata.faithful ..) <|
    .cons (Field.restores_of Codec.faithful_uint64 ..) <|
    .cons (Field.restores_of Codec.faithful_uint64 ..) <|
    .cons (Field.restores_of Codec.faithful_string ..) <|
    .cons (Field.restores_of Codec.faithful_texts ..) <|
    .cons (Field.restores_of Codec.faithful_string ..) <|
    .cons (Field.restores_of Codec.faithful_string ..) .nil

theorem ConnectionsSnapshot.faithful : codec.Faithful :=
  Record.faithful (by decide) fun _ =>
    .cons (Field.restores_of Codec.faithful_uint64 ..) <|
    .cons (Field.restores_of Codec.faithful_uint64 ..) <|
    .cons (Field.restores_of (Codec.faithful_list ConnectionInfo.faithful) ..) .nil

theorem Rule.faithful : record.codec.Faithful :=
  Record.faithful (by decide) fun _ =>
    .cons (Field.restores_of Codec.faithful_string ..) <|
    .cons (Field.restores_of Codec.faithful_string ..) <|
    .cons (Field.restores_of Codec.faithful_string ..) .nil

theorem RuleList.faithful : codec.Faithful :=
  Record.faithful (by decide) fun _ =>
    .cons (Field.restores_of (Codec.faithful_list Rule.faithful) ..) .nil

end ProxyConsole
