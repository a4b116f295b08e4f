import ProxyConsole.Cache

/-!
# What the cache does to its slots

A fetch is launched into the slot of its signature.  When it is over it is retired: the slot is
touched only if it still waits for this very fetch.
-/

set_option autoImplicit false

namespace ProxyConsole.Cache

variable {α : Type}

/-- A new fetch runs, and the slot of its signature waits for it. -/
def launch (c : Cache α) (signature : String) : Cache α :=
  { c.setSlot signature { c.slots signature with inFlight := some c.flights.length } with
    flights := c.flights ++ [.running] }

/-- Nothing is known any more under the signatures that are hit. -/
def forget (c : Cache α) (hits : String → Bool) : Cache α :=
  { c with slots := fun s => if hits s then {} else c.slots s }

/-- What is kept under a signature whose slot waited for the fetch that ends. -/
def keep (now : Nat) (old : Option (CacheEntry α)) : Except CallError α → Option (CacheEntry α)
  | .ok value => some ⟨value, now⟩
  | .error _ => old

theorem isRunning_iff {c : Cache α} {flight : Nat} :
    c.isRunning flight = true ↔ c.flights[flight]? = some .running := by
  unfold isRunning
  split
  · rename_i running
    simp [running]
  · rename_i other
    simpa using other

theorem joinable?_eq_some {c : Cache α} {signature : String} {flight : Nat} :
    c.joinable? signature = some flight ↔
      (c.slots signature).inFlight = some flight ∧ c.flights[flight]? = some .running := by
  unfold joinable?
  rw [Option.filter_eq_some_iff, isRunning_iff]

theorem fresh?_eq_some {c : Cache α} {now ttl : Nat} {signature : String} {value : α} :
    c.fresh? now ttl signature = some value ↔
      ∃ moment, (c.slots signature).entry = some ⟨value, moment⟩ ∧ now - moment < ttl := by
  unfold fresh?
  cases kept : (c.slots signature).entry with
  | none => simp
  | some entry =>
    obtain ⟨stored, moment⟩ := entry
    simp only [Option.ite_none_right_eq_some, Option.some.injEq, CacheEntry.mk.injEq]
    constructor
    · rintro ⟨young, rfl⟩
      exact ⟨moment, ⟨rfl, rfl⟩, young⟩
    · rintro ⟨_, ⟨rfl, rfl⟩, young⟩
      exact ⟨young, rfl⟩

theorem peek_eq_some {c : Cache α} {signature : String} {value : α} :
    c.peek signature = some value ↔ ∃ moment, (c.slots signature).entry = some ⟨value, moment⟩ := by
  unfold peek
  rw [Option.map_eq_some_iff]
  constructor
  · rintro ⟨entry, kept, rfl⟩
    exact ⟨entry.capturedAt, kept⟩
  · rintro ⟨moment, kept⟩
    exact ⟨_, kept, rfl⟩

theorem inspect_cases (c : Cache α) (now ttl : Nat) (signature : String) :
    (∃ value, c.fresh? now ttl signature = some value ∧
        c.inspect now ttl signature = (.hit value, c)) ∨
      (c.fresh? now ttl signature = none ∧ ∃ flight, c.joinable? signature = some flight ∧
        c.inspect now ttl signature = (.follow flight, c)) ∨
      (c.fresh? now ttl signature = none ∧ c.joinable? signature = none ∧
        c.inspect now ttl signature = (.lead c.flights.length, c.launch signature)) := by
  unfold inspect
  cases young : c.fresh? now ttl signature with
  | some value => exact Or.inl ⟨value, rfl, rfl⟩
  | none =>
    cases running : c.joinable? signature with
    | some flight => exact Or.inr (Or.inl ⟨rfl, flight, rfl, rfl⟩)
    | none => exact Or.inr (Or.inr ⟨rfl, rfl, rfl⟩)

/-! ## Slots -/

theorem slots_setSlot (c : Cache α) (signature other : String) (slot : CacheSlot α) :
    (c.setSlot signature slot).slots other = if other = signature then slot else c.slots other :=
  rfl

theorem slots_launch (c : Cache α) (signature other : String) :
    (c.launch signature).slots other =
      if other = signature then { c.slots signature with inFlight := some c.flights.length }
      else c.slots other :=
  rfl

theorem slots_forget (c : Cache α) (hits : String → Bool) (signature : String) :
    (c.forget hits).slots signature = if hits signature then {} else c.slots signature :=
  rfl

theorem land_overtaken {c : Cache α} {now flight : Nat} {signature : String}
    {result : Except CallError α} (overtaken : (c.slots signature).inFlight ≠ some flight) :
    (c.land now signature flight result).slots = c.slots := by
  simp [land, awaits, overtaken]

theorem land_awaited {c : Cache α} {now flight : Nat} {signature : String}
    {result : Except CallError α} (awaited : (c.slots signature).inFlight = some flight) :
    (c.land now signature flight result).slots =
      (c.setSlot signature
        { entry := match result with
            | .ok value => some ⟨value, now⟩
            | .error _ => (c.slots signature).entry }).slots := by
  cases result <;> simp [land, awaits, awaited]

theorem abandon_overtaken {c : Cache α} {flight : Nat} {signature : String}
    (overtaken : (c.slots signature).inFlight ≠ some flight) :
    (c.abandon signature flight).slots = c.slots := by
  simp [abandon, awaits, overtaken]

theorem abandon_awaited {c : Cache α} {flight : Nat} {signature : String}
    (awaited : (c.slots signature).inFlight = some flight) :
    (c.abandon signature flight).slots =
      (c.setSlot signature { c.slots signature with inFlight := none }).slots := by
  simp [abandon, awaits, awaited]

theorem slot_land (c : Cache α) (now flight : Nat) (signature : String)
    (result : Except CallError α) :
    (c.land now signature flight result).slots signature =
      if (c.slots signature).inFlight = some flight then
        ⟨keep now (c.slots signature).entry result, none⟩
      else c.slots signature := by
  split
  · rename_i awaited
    rw [land_awaited awaited, slots_setSlot, if_pos rfl]
    cases result <;> rfl
  · rename_i overtaken
    rw [land_overtaken overtaken]

theorem slot_abandon (c : Cache α) (flight : Nat) (signature : String) :
    (c.abandon signature flight).slots signature =
      if (c.slots signature).inFlight = some flight then ⟨(c.slots signature).entry, none⟩
      else c.slots signature := by
  split
  · rename_i awaited
    rw [abandon_awaited awaited, slots_setSlot, if_pos rfl]
  · rename_i overtaken
    rw [abandon_overtaken overtaken]

theorem slots_land_other {c : Cache α} {signature other : String} (different : other ≠ signature)
    (now flight : Nat) (result : Except CallError α) :
    (c.land now signature flight result).slots other = c.slots other := by
  by_cases awaited : (c.slots signature).inFlight = some flight
  · rw [land_awaited awaited, slots_setSlot, if_neg different]
  · rw [land_overtaken awaited]

theorem slots_abandon_other {c : Cache α} {signature other : String}
    (different : other ≠ signature) (flight : Nat) :
    (c.abandon signature flight).slots other = c.slots other := by
  by_cases awaited : (c.slots signature).inFlight = some flight
  · rw [abandon_awaited awaited, slots_setSlot, if_neg different]
  · rw [abandon_overtaken awaited]

theorem inFlight_land (c : Cache α) (now flight : Nat) (signature other : String)
    (result : Except CallError α) :
    ((c.land now signature flight result).slots other).inFlight =
      if other = signature ∧ (c.slots signature).inFlight = some flight then none
      else (c.slots other).inFlight := by
  by_cases awaited : (c.slots signature).inFlight = some flight
  · rw [land_awaited awaited, slots_setSlot]
    by_cases same : other = signature <;> simp [same, awaited]
  · rw [land_overtaken awaited]
    simp [awaited]

theorem inFlight_abandon (c : Cache α) (flight : Nat) (signature other : String) :
    ((c.abandon signature flight).slots other).inFlight =
      if other = signature ∧ (c.slots signature).inFlight = some flight then none
      else (c.slots other).inFlight := by
  by_cases awaited : (c.slots signature).inFlight = some flight
  · rw [abandon_awaited awaited, slots_setSlot]
    by_cases same : other = signature <;> simp [same, awaited]
  · rw [abandon_overtaken awaited]
    simp [awaited]

theorem entry_launch (c : Cache α) (signature other : String) :
    ((c.launch signature).slots other).entry = (c.slots other).entry := by
  rw [slots_launch]
  split
  · rename_i same
    rw [same]
  · rfl

theorem entry_abandon (c : Cache α) (flight : Nat) (signature other : String) :
    ((c.abandon signature flight).slots other).entry = (c.slots other).entry := by
  by_cases awaited : (c.slots signature).inFlight = some flight
  · rw [abandon_awaited awaited, slots_setSlot]
    split
    · rename_i same
      rw [same]
    · rfl
  · rw [abandon_overtaken awaited]

theorem entry_land_error (c : Cache α) (now flight : Nat) (signature other : String)
    (e : CallError) :
    ((c.land now signature flight (.error e)).slots other).entry = (c.slots other).entry := by
  by_cases awaited : (c.slots signature).inFlight = some flight
  · rw [land_awaited awaited, slots_setSlot]
    split
    · rename_i same
      rw [same]
    · rfl
  · rw [land_overtaken awaited]

/-! ## Fetches -/

theorem flights_launch (c : Cache α) (signature : String) :
    (c.launch signature).flights = c.flights ++ [.running] :=
  rfl

theorem flights_land (c : Cache α) (now flight : Nat) (signature : String)
    (result : Except CallError α) :
    (c.land now signature flight result).flights = c.flights.set flight (.landed result) := by
  unfold land
  split <;> rfl

theorem flights_abandon (c : Cache α) (flight : Nat) (signature : String) :
    (c.abandon signature flight).flights = c.flights.set flight .abandoned := by
  unfold abandon
  split <;> rfl

theorem invalidate_eq_forget (c : Cache α) (signature : String) :
    c.invalidate signature = c.forget (fun s => s = signature) := by
  simp [invalidate, setSlot, forget]

theorem clear_eq_forget (c : Cache α) : c.clear = c.forget (fun _ => true) := by
  simp [clear, forget]

end ProxyConsole.Cache
