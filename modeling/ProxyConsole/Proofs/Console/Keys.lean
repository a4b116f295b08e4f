import ProxyConsole.Proofs.Console.Editing
import ProxyConsole.Proofs.Settings.Reading

/-!
# Settings by name

Every number of the settings has a key, and so has the endpoint.  A value that is set
under such a key goes there and nowhere else; under any other key nothing that is set is
seen.
-/

set_option autoImplicit false

namespace ProxyConsole

open Console Toml

/-! ## Keys -/

/-- A number of the settings with its key. -/
structure NumberSetting where
  key : String
  get : Settings → Nat
  set : Settings → Nat → Settings

namespace NumberSetting

variable {α : Type} (toNat : α → Nat) (ofNat : Nat → α)

/-- A number that is held as a value of another type. -/
def of (key : String) (get : Settings → α) (set : Settings → α → Settings) : NumberSetting where
  key := key
  get s := toNat (get s)
  set s n := set s (ofNat n)

abbrev wide := of UInt64.toNat UInt64.ofNat

abbrev narrow := of UInt32.toNat UInt32.ofNat

end NumberSetting

def numberSettings : List NumberSetting :=
  [ .wide "max_frame_length" (·.maxFrameLength) (fun s n => { s with maxFrameLength := n }),
    .wide "timeouts.quick_ms" (·.timeouts.quick)
      (fun s n => { s with timeouts := { s.timeouts with quick := n } }),
    .wide "timeouts.normal_ms" (·.timeouts.normal)
      (fun s n => { s with timeouts := { s.timeouts with normal := n } }),
    .wide "timeouts.long_ms" (·.timeouts.long)
      (fun s n => { s with timeouts := { s.timeouts with long := n } }),
    .narrow "retry.max_attempts" (·.retry.maxAttempts)
      (fun s n => { s with retry := { s.retry with maxAttempts := n } }),
    .wide "retry.backoff_ms" (·.retry.backoff)
      (fun s n => { s with retry := { s.retry with backoff := n } }),
    .wide "cache.config_ttl_ms" (·.cache.config)
      (fun s n => { s with cache := { s.cache with config := n } }),
    .wide "cache.proxies_ttl_ms" (·.cache.proxies)
      (fun s n => { s with cache := { s.cache with proxies := n } }),
    .wide "readiness.interval_ms" (·.readiness.interval)
      (fun s n => { s with readiness := { s.readiness with interval := n } }),
    .wide "readiness.probe_timeout_ms" (·.readiness.probeTimeout)
      (fun s n => { s with readiness := { s.readiness with probeTimeout := n } }),
    .wide "readiness.max_wait_ms" (·.readiness.maxWait)
      (fun s n => { s with readiness := { s.readiness with maxWait := n } }) ]

/-! ## The parts of the settings -/

theorem Timeouts.independent : Timeouts.record.Independent :=
  Record.independent_of_pairwise (by simp [Timeouts.record, Field.commutes_of])

theorem Timeouts.part_quick :
    Timeouts.record.Part "quick_ms" Codec.uint64 quick (fun s v => { s with quick := v }) :=
  Record.part_of rfl (by simp [Timeouts.record, Field.ignores_of]) (fun _ _ => rfl) (fun _ => rfl)
    (fun _ _ _ => rfl)

theorem Timeouts.part_normal :
    Timeouts.record.Part "normal_ms" Codec.uint64 normal (fun s v => { s with normal := v }) :=
  Record.part_of rfl (by simp [Timeouts.record, Field.ignores_of]) (fun _ _ => rfl) (fun _ => rfl)
    (fun _ _ _ => rfl)

theorem Timeouts.part_long :
    Timeouts.record.Part "long_ms" Codec.uint64 long (fun s v => { s with long := v }) :=
  Record.part_of rfl (by simp [Timeouts.record, Field.ignores_of]) (fun _ _ => rfl) (fun _ => rfl)
    (fun _ _ _ => rfl)

theorem Retry.independent : Retry.record.Independent :=
  Record.independent_of_pairwise (by simp [Retry.record, Field.commutes_of])

theorem Retry.part_maxAttempts :
    Retry.record.Part "max_attempts" Codec.uint32 maxAttempts (fun s v =>
      { s with maxAttempts := v }) :=
  Record.part_of rfl (by simp [Retry.record, Field.ignores_of]) (fun _ _ => rfl) (fun _ => rfl)
    (fun _ _ _ => rfl)

theorem Retry.part_backoff :
    Retry.record.Part "backoff_ms" Codec.uint64 backoff (fun s v => { s with backoff := v }) :=
  Record.part_of rfl (by simp [Retry.record, Field.ignores_of]) (fun _ _ => rfl) (fun _ => rfl)
    (fun _ _ _ => rfl)

theorem Lifetimes.independent : Lifetimes.record.Independent :=
  Record.independent_of_pairwise (by simp [Lifetimes.record, Field.commutes_of])

theorem Lifetimes.part_config :
    Lifetimes.record.Part "config_ttl_ms" Codec.uint64 config (fun s v => { s with config := v }) :=
  Record.part_of rfl (by simp [Lifetimes.record, Field.ignores_of]) (fun _ _ => rfl) (fun _ => rfl)
    (fun _ _ _ => rfl)

theorem Lifetimes.part_proxies :
    Lifetimes.record.Part "proxies_ttl_ms" Codec.uint64 proxies (fun s v =>
      { s with proxies := v }) :=
  Record.part_of rfl (by simp [Lifetimes.record, Field.ignores_of]) (fun _ _ => rfl) (fun _ => rfl)
    (fun _ _ _ => rfl)

theorem Polling.independent : Polling.record.Independent :=
  Record.independent_of_pairwise (by simp [Polling.record, Field.commutes_of])

theorem Polling.part_interval :
    Polling.record.Part "interval_ms" Codec.uint64 interval (fun s v => { s with interval := v }) :=
  Record.part_of rfl (by simp [Polling.record, Field.ignores_of]) (fun _ _ => rfl) (fun _ => rfl)
    (fun _ _ _ => rfl)

theorem Polling.part_probeTimeout :
    Polling.record.Part "probe_timeout_ms" Codec.uint64 probeTimeout (fun s v =>
      { s with probeTimeout := v }) :=
  Record.part_of rfl (by simp [Polling.record, Field.ignores_of]) (fun _ _ => rfl) (fun _ => rfl)
    (fun _ _ _ => rfl)

theorem Polling.part_maxWait :
    Polling.record.Part "max_wait_ms" Codec.uint64 maxWait (fun s v => { s with maxWait := v }) :=
  Record.part_of rfl (by simp [Polling.record, Field.ignores_of]) (fun _ _ => rfl) (fun _ => rfl)
    (fun _ _ _ => rfl)

namespace Settings

theorem independent : record.Independent :=
  Record.independent_of_pairwise (by simp [record, Field.commutes_of])

theorem part_endpoint :
    record.Part "endpoint" Codec.string endpoint (fun s v => { s with endpoint := v }) :=
  Record.part_of rfl (by simp [record, Field.ignores_of]) (fun _ _ => rfl) (fun _ => rfl)
    (fun _ _ _ => rfl)

theorem part_maxFrameLength :
    record.Part "max_frame_length" Codec.uint64 maxFrameLength (fun s v =>
      { s with maxFrameLength := v }) :=
  Record.part_of rfl (by simp [record, Field.ignores_of]) (fun _ _ => rfl) (fun _ => rfl)
    (fun _ _ _ => rfl)

theorem part_timeouts :
    record.Part "timeouts" Timeouts.record.codec timeouts (fun s v => { s with timeouts := v }) :=
  Record.part_of rfl (by simp [record, Field.ignores_of]) (fun _ _ => rfl) (fun _ => rfl)
    (fun _ _ _ => rfl)

theorem part_retry :
    record.Part "retry" Retry.record.codec retry (fun s v => { s with retry := v }) :=
  Record.part_of rfl (by simp [record, Field.ignores_of]) (fun _ _ => rfl) (fun _ => rfl)
    (fun _ _ _ => rfl)

theorem part_cache :
    record.Part "cache" Lifetimes.record.codec cache (fun s v => { s with cache := v }) :=
  Record.part_of rfl (by simp [record, Field.ignores_of]) (fun _ _ => rfl) (fun _ => rfl)
    (fun _ _ _ => rfl)

theorem part_readiness :
    record.Part "readiness" Polling.record.codec readiness (fun s v => { s with readiness := v }) :=
  Record.part_of rfl (by simp [record, Field.ignores_of]) (fun _ _ => rfl) (fun _ => rfl)
    (fun _ _ _ => rfl)

end Settings

/-! ## Numbers -/

/-- A number goes where its key says, and is shown there. -/
structure NumberSetting.Addressed (n : NumberSetting) : Prop where
  edited : ∀ {v : Toml} {entries entries' : List (String × Toml)} {s s' : Settings},
    Writable Rising (.table entries) → setAt v (keyNames n.key) entries = .ok entries' →
    Settings.record.decode (Toml.table entries).node = .ok s →
    Settings.record.decode (Toml.table entries').node = .ok s' →
    ∃ k : Nat, v = .integer k ∧ n.get s' = k ∧ s' = n.set s k
  shown : ∀ {s : Settings} {t : Toml}, s.toToml? = some t →
    valueAt? t.sorted (keyNames n.key) = some (.integer (n.get s))

theorem decodeNat_node {limit k : Nat} {v : Toml} (decoded : Json.decodeNat limit v.node = .ok k) :
    v = .integer k ∧ k < limit := by
  cases v with
  | integer i =>
    simp only [Toml.node, Json.decodeNat] at decoded
    split at decoded
    · rename_i range
      cases decoded
      exact ⟨by rw [Int.toNat_of_nonneg range.1], by omega⟩
    · cases decoded
  | _ => cases decoded

theorem ofJson?_nat {n : Nat} {u : Toml} (taken : Toml.ofJson? (.nat n) = some u) :
    u = .integer n := by
  rw [Json.nat, Toml.ofJson?] at taken
  split at taken
  · exact (Option.some.inj taken).symm
  · cases taken

/-- A codec of numbers that are held as values of another type. -/
structure Codec.OfNumbers {α : Type} (c : Codec α) (toNat : α → Nat) (ofNat : Nat → α) : Prop where
  decodes : ∀ (v : Toml) a, c.decode v.node = .ok a → ∃ k : Nat, v = .integer k ∧ a = ofNat k ∧
    toNat a = k
  encodes : ∀ a, c.encode a = .nat (toNat a)

theorem Codec.ofNumbers_uint64 : Codec.uint64.OfNumbers UInt64.toNat UInt64.ofNat where
  decodes v a decoded := by
    obtain ⟨k, read, rfl⟩ := Except.map_eq_ok decoded
    obtain ⟨rfl, small⟩ := decodeNat_node read
    exact ⟨k, rfl, rfl, UInt64.toNat_ofNat_of_lt' small⟩
  encodes _ := rfl

theorem Codec.ofNumbers_uint32 : Codec.uint32.OfNumbers UInt32.toNat UInt32.ofNat where
  decodes v a decoded := by
    obtain ⟨k, read, rfl⟩ := Except.map_eq_ok decoded
    obtain ⟨rfl, small⟩ := decodeNat_node read
    exact ⟨k, rfl, rfl, UInt32.toNat_ofNat_of_lt' small⟩
  encodes _ := rfl

theorem NumberSetting.Addressed.of_addresses {α : Type} {c : Codec α} {toNat : α → Nat}
    {ofNat : Nat → α}
    (numbers : c.OfNumbers toNat ofNat) {key : String} {get : Settings → α}
    {set : Settings → α → Settings}
    {names : List String} (named : keyNames key = names)
    (addresses : Settings.record.Addresses names c get set) :
    (NumberSetting.of toNat ofNat key get set).Addressed where
  edited writable edits before after := by
    rw [NumberSetting.of, named] at edits
    obtain ⟨a, decoded, rfl⟩ := addresses.edited writable edits before after
    obtain ⟨k, rfl, rfl, same⟩ := numbers.decodes _ a decoded
    refine ⟨k, rfl, ?_, rfl⟩
    change toNat (get (set _ (ofNat k))) = k
    rw [addresses.get_set, same]
  shown taken := by
    obtain ⟨u, shown, value⟩ := addresses.shown taken
    rw [numbers.encodes] at shown
    obtain rfl := ofJson?_nat shown
    rw [NumberSetting.of, named]
    exact value

section Sections

variable {σ τ : Type} {r : Record σ}

theorem Record.Part.addresses_field {α : Type} {r' : Record τ} {name field : String} {c : Codec α}
    {get : σ → τ} {set : σ → τ → σ} {get' : τ → α} {set' : τ → α → τ}
    (part : r.Part name r'.codec get set) (independent : r.Independent)
    (blank : r'.decode (Toml.table []).node = .ok (get r.blank)) (inner : r'.Part field c get' set')
    (independent' : r'.Independent) :
    r.Addresses [name, field] c (fun s => get' (get s)) (fun s a => set s (set' (get s) a)) :=
  part.through independent blank (List.cons_ne_nil _ _) (inner.addresses independent')

end Sections

namespace Settings

theorem addresses_endpoint :
    record.Addresses ["endpoint"] Codec.string endpoint (fun s v => { s with endpoint := v }) :=
  part_endpoint.addresses independent

section Fields

variable {α : Type} {field : String} {c : Codec α}

theorem addresses_timeouts {get : Timeouts → α} {set : Timeouts → α → Timeouts}
    (part : Timeouts.record.Part field c get set) :
    record.Addresses ["timeouts", field] c (fun s => get s.timeouts)
      (fun s a => { s with timeouts := set s.timeouts a }) :=
  part_timeouts.addresses_field independent rfl part Timeouts.independent

theorem addresses_retry {get : Retry → α} {set : Retry → α → Retry}
    (part : Retry.record.Part field c get set) :
    record.Addresses ["retry", field] c (fun s => get s.retry)
      (fun s a => { s with retry := set s.retry a }) :=
  part_retry.addresses_field independent rfl part Retry.independent

theorem addresses_cache {get : Lifetimes → α} {set : Lifetimes → α → Lifetimes}
    (part : Lifetimes.record.Part field c get set) :
    record.Addresses ["cache", field] c (fun s => get s.cache)
      (fun s a => { s with cache := set s.cache a }) :=
  part_cache.addresses_field independent rfl part Lifetimes.independent

theorem addresses_readiness {get : Polling → α} {set : Polling → α → Polling}
    (part : Polling.record.Part field c get set) :
    record.Addresses ["readiness", field] c (fun s => get s.readiness)
      (fun s a => { s with readiness := set s.readiness a }) :=
  part_readiness.addresses_field independent rfl part Polling.independent

end Fields

theorem numbers_addressed : ∀ n ∈ numberSettings, n.Addressed := by
  simp only [numberSettings, List.forall_mem_cons]
  refine ⟨?_, ?_, ?_, ?_, ?_, ?_, ?_, ?_, ?_, ?_, ?_, List.forall_mem_nil _⟩
  · exact .of_addresses Codec.ofNumbers_uint64 rfl (part_maxFrameLength.addresses independent)
  · exact .of_addresses Codec.ofNumbers_uint64 rfl (addresses_timeouts Timeouts.part_quick)
  · exact .of_addresses Codec.ofNumbers_uint64 rfl (addresses_timeouts Timeouts.part_normal)
  · exact .of_addresses Codec.ofNumbers_uint64 rfl (addresses_timeouts Timeouts.part_long)
  · exact .of_addresses Codec.ofNumbers_uint32 rfl (addresses_retry Retry.part_maxAttempts)
  · exact .of_addresses Codec.ofNumbers_uint64 rfl (addresses_retry Retry.part_backoff)
  · exact .of_addresses Codec.ofNumbers_uint64 rfl (addresses_cache Lifetimes.part_config)
  · exact .of_addresses Codec.ofNumbers_uint64 rfl (addresses_cache Lifetimes.part_proxies)
  · exact .of_addresses Codec.ofNumbers_uint64 rfl (addresses_readiness Polling.part_interval)
  · exact .of_addresses Codec.ofNumbers_uint64 rfl (addresses_readiness Polling.part_probeTimeout)
  · exact .of_addresses Codec.ofNumbers_uint64 rfl (addresses_readiness Polling.part_maxWait)

end Settings

/-! ## Other keys -/

/-- A field of a scalar stores no table. -/
def Field.RefusesTables {σ : Type} (f : Field σ) : Prop :=
  ∀ entries s t, f.store (Toml.table entries).node s ≠ .ok t

theorem Field.refusesTables_of {σ α : Type} {c : Codec α} {name : String} {get : σ → α}
    {set : σ → α → σ}
    {required : Bool} (refuses : ∀ entries a, c.decode (Toml.table entries).node ≠ .ok a) :
    (Field.of name c get set required).RefusesTables := by
  intro entries s t stored
  obtain ⟨a, decoded, _⟩ := Except.map_eq_ok stored
  exact refuses entries a decoded

theorem Codec.uint64_refuses (entries : List (String × Toml)) (a : UInt64) :
    Codec.uint64.decode (Toml.table entries).node ≠ .ok a :=
  nofun

theorem Codec.uint32_refuses (entries : List (String × Toml)) (a : UInt32) :
    Codec.uint32.decode (Toml.table entries).node ≠ .ok a :=
  nofun

theorem Codec.string_refuses (entries : List (String × Toml)) (a : String) :
    Codec.string.decode (Toml.table entries).node ≠ .ok a :=
  nofun

theorem Record.overlooks_others {σ : Type} {r : Record σ} (independent : r.Independent)
    (scalars : ∀ f ∈ r.fields, f.RefusesTables) {names : List String} (marked : names ≠ [])
    (other : ∀ f ∈ r.fields, names ≠ [f.name]) : r.Overlooks names := by
  obtain ⟨name, more, rfl⟩ := List.exists_cons_of_ne_nil marked
  cases known : r.field? name with
  | none => exact overlooks_unknown independent known
  | some f =>
    obtain ⟨inside, called⟩ := name_of_field? known
    refine overlooks_below independent known (scalars f inside) ?_
    rintro rfl
    exact other f inside (by rw [called])

theorem Timeouts.scalars : ∀ f ∈ Timeouts.record.fields, f.RefusesTables := by
  simp [Timeouts.record, Field.refusesTables_of, Codec.uint64_refuses]

theorem Retry.scalars : ∀ f ∈ Retry.record.fields, f.RefusesTables := by
  simp [Retry.record, Field.refusesTables_of, Codec.uint64_refuses, Codec.uint32_refuses]

theorem Lifetimes.scalars : ∀ f ∈ Lifetimes.record.fields, f.RefusesTables := by
  simp [Lifetimes.record, Field.refusesTables_of, Codec.uint64_refuses]

theorem Polling.scalars : ∀ f ∈ Polling.record.fields, f.RefusesTables := by
  simp [Polling.record, Field.refusesTables_of, Codec.uint64_refuses]

namespace Settings

/-- The names that lead to a setting. -/
def names : List (List String) :=
  ["endpoint"] :: numberSettings.map fun n => keyNames n.key

/-- A section overlooks all names that lead to none of its settings. -/
theorem overlooks_section {τ : Type} {r : Record τ} {name : String} {get : Settings → τ}
    {set : Settings → τ → Settings} (part : record.Part name r.codec get set)
    (blank : r.decode (Toml.table []).node = .ok (get record.blank)) (independent' : r.Independent)
    (scalars : ∀ f ∈ r.fields, f.RefusesTables) (listed : ∀ f ∈ r.fields, [name, f.name] ∈ names)
    {more : List String} (other : name :: more ∉ names) : record.Overlooks (name :: more) := by
  by_cases ended : more = []
  · rw [ended]
    exact part.overlooks independent
  · refine part.overlooks_through independent blank ended
      (Record.overlooks_others independent' scalars ended ?_)
    rintro f inside rfl
    exact other (listed f inside)

theorem overlooks {path : List String} (marked : path ≠ []) (other : path ∉ names) :
    record.Overlooks path := by
  obtain ⟨name, more, rfl⟩ := List.exists_cons_of_ne_nil marked
  have below : ∀ {f : Field Settings}, record.field? name = some f → f.RefusesTables →
      [name] ∈ names → record.Overlooks (name :: more) := by
    intro f known refuses listed
    refine Record.overlooks_below independent known refuses ?_
    rintro rfl
    exact other listed
  cases known : record.field? name with
  | none => exact Record.overlooks_unknown independent known
  | some f =>
    obtain ⟨inside, rfl⟩ := Record.name_of_field? known
    simp only [record, List.mem_cons, List.not_mem_nil, or_false] at inside
    rcases inside with rfl | rfl | rfl | rfl | rfl | rfl
    · exact below known (Field.refusesTables_of Codec.string_refuses) (by decide)
    · exact below known (Field.refusesTables_of Codec.uint64_refuses) (by decide)
    · exact overlooks_section part_timeouts rfl Timeouts.independent Timeouts.scalars (by decide)
        other
    · exact overlooks_section part_retry rfl Retry.independent Retry.scalars (by decide) other
    · exact overlooks_section part_cache rfl Lifetimes.independent Lifetimes.scalars (by decide)
        other
    · exact overlooks_section part_readiness rfl Polling.independent Polling.scalars (by decide)
        other

end Settings

end ProxyConsole
