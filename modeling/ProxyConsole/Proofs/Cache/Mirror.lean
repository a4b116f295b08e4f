import ProxyConsole.Proofs.Cache.Followers

/-!
# Sessions that agree on a signature

A session mirrors another one for a signature if it is what remains of the latter when
the callers of every other signature are taken away.  The fetches that remain have other
numbers, so the two agree up to a renaming of the fetches that the signature minds: the
one that its slot waits for, and those that its callers run or follow.
-/

set_option autoImplicit false

namespace ProxyConsole.Cache

/-- The fetch that a caller runs or follows. -/
def CallerPhase.flight? : CallerPhase → Option Nat
  | .fetching flight _ => some flight
  | .following flight => some flight
  | .over => none

def CallerPhase.rename (name : Nat → Nat) : CallerPhase → CallerPhase
  | .fetching flight landing => .fetching (name flight) landing
  | .following flight => .following (name flight)
  | .over => .over

def Caller.rename (name : Nat → Nat) (caller : Caller) : Caller :=
  { caller with phase := caller.phase.rename name }

/-- A caller runs a fetch. -/
def Caller.runs (flight : Nat) (caller : Caller) : Bool :=
  match caller.phase with
  | .fetching own _ => own = flight
  | _ => false

namespace Session

open ProxyConsole.Positions

/-- The callers of a signature, in order. -/
def company (s : Session) (signature : String) : List Caller :=
  s.callers.filter fun caller => caller.wish.signature = signature

/-- The place among the callers of a signature that belongs to the caller at an index. -/
def place (s : Session) (signature : String) (index : Nat) : Nat :=
  (s.callers.take index).countP fun caller => caller.wish.signature = signature

/-- The slot of a signature waits for a fetch, or a caller of the signature runs or follows it. -/
def Minds (s : Session) (signature : String) (flight : Nat) : Prop :=
  (s.cache.slots signature).inFlight = some flight ∨
    ∃ caller ∈ s.company signature, caller.phase.flight? = some flight

/-- A session is what remains of another one for a signature, up to the names of fetches. -/
structure Mirrors (signature : String) (name : Nat → Nat) (t s : Session) : Prop where
  now : t.now = s.now
  callers : t.callers = (s.company signature).map (Caller.rename name)
  entry : (t.cache.slots signature).entry = (s.cache.slots signature).entry
  inFlight : (t.cache.slots signature).inFlight = (s.cache.slots signature).inFlight.map name
  flights : ∀ f, s.Minds signature f → t.cache.flights[name f]? = s.cache.flights[f]?
  apart : ∀ f g, s.Minds signature f → s.Minds signature g → name f = name g → f = g

/-! ## Places -/

theorem mem_company {s : Session} {signature : String} {caller : Caller} :
    caller ∈ s.company signature ↔ caller ∈ s.callers ∧ caller.wish.signature = signature := by
  simp [company]

theorem company_enter_own (s : Session) (wish : Wish) :
    (s.enter wish).company wish.signature = s.company wish.signature ++ [⟨wish, .over⟩] := by
  simp [company, enter]

theorem company_enter_other {s : Session} {wish : Wish} {signature : String}
    (other : wish.signature ≠ signature) :
    (s.enter wish).company signature = s.company signature := by
  simp [company, enter, other]

theorem place_last (s : Session) (signature : String) :
    s.place signature s.callers.length = (s.company signature).length := by
  simp [place, company, List.countP_eq_length_filter]

theorem place_enter (s : Session) (wish : Wish) (signature : String) :
    (s.enter wish).place signature s.callers.length = (s.company signature).length := by
  simp [place, company, enter, List.countP_eq_length_filter]

section At

variable {s : Session} {signature : String} {i : Nat} {caller : Caller}

theorem company_place (found : s.callers[i]? = some caller)
    (own : caller.wish.signature = signature) :
    (s.company signature)[s.place signature i]? = some caller :=
  getElem?_filter found (by simpa using own)

theorem company_setPhase_own (found : s.callers[i]? = some caller)
    (own : caller.wish.signature = signature) (phase : CallerPhase) :
    (s.setPhase i caller phase).company signature =
      (s.company signature).set (s.place signature i) ⟨caller.wish, phase⟩ :=
  filter_set_of_pos found (by simpa using own) (by simpa using own)

theorem company_setPhase_other (found : s.callers[i]? = some caller)
    (other : caller.wish.signature ≠ signature) (phase : CallerPhase) :
    (s.setPhase i caller phase).company signature = s.company signature :=
  filter_set_of_neg found (by simpa using other) (by simpa using other)

end At

/-! ## What a signature minds -/

section Minds

variable {events : List SessionEvent} {signature other : String} {f k : Nat}

theorem Minds.known (minds : (after events).Minds signature f) :
    ∃ outcome, (after events).cache.flights[f]? = some outcome := by
  rcases minds with awaited | ⟨⟨wish, phase⟩, member, part⟩
  · obtain ⟨_, i, led⟩ := ((linked events).marker f signature).mp awaited
    exact ⟨_, (linked events).runs i f signature led⟩
  · obtain ⟨present, rfl⟩ := mem_company.mp member
    obtain ⟨i, found⟩ := List.mem_iff_getElem?.mp present
    cases phase with
    | fetching g landing =>
      cases part
      exact ⟨_, (linked events).runs i f wish.signature ⟨_, landing, found, rfl, rfl⟩⟩
    | following g =>
      cases part
      cases fate_of_follows ⟨wish, found, rfl⟩ with
      | runs running =>
        obtain ⟨j, led⟩ := running
        exact ⟨_, (linked events).runs j f wish.signature led⟩
      | shared result shared => exact ⟨_, shared.landed⟩
      | deserted deserted => exact ⟨_, deserted.abandoned⟩
    | _ => cases part

theorem Minds.own (minds : (after events).Minds signature f)
    (led : (after events).Leads k f other) : other = signature := by
  have running := (linked events).runs k f other led
  have same : ∀ {i : Nat}, (after events).Leads i f signature → other = signature := by
    intro i led'
    obtain rfl := (linked events).apart k i f other signature led led'
    exact (leads_unique led led').2
  rcases minds with awaited | ⟨⟨wish, phase⟩, member, part⟩
  · obtain ⟨_, i, led'⟩ := ((linked events).marker f signature).mp awaited
    exact same led'
  · obtain ⟨present, rfl⟩ := mem_company.mp member
    obtain ⟨i, found⟩ := List.mem_iff_getElem?.mp present
    cases phase with
    | fetching g landing =>
      cases part
      exact same ⟨_, landing, found, rfl, rfl⟩
    | following g =>
      cases part
      cases fate_of_follows ⟨wish, found, rfl⟩ with
      | runs running' =>
        obtain ⟨j, led'⟩ := running'
        exact same led'
      | shared result shared =>
        have landed := shared.landed
        rw [running] at landed
        cases landed
      | deserted deserted =>
        have abandoned := deserted.abandoned
        rw [running] at abandoned
        cases abandoned
    | _ => cases part

end Minds

theorem minds_of_caller {s : Session} {signature : String} {i f : Nat} {caller : Caller}
    (found : s.callers[i]? = some caller) (own : caller.wish.signature = signature)
    (part : caller.phase.flight? = some f) : s.Minds signature f :=
  Or.inr ⟨caller, mem_company.mpr ⟨List.mem_of_getElem? found, own⟩, part⟩

theorem minds_setPhase {s : Session} {signature : String} {i f : Nat} {caller : Caller}
    {phase : CallerPhase} (found : s.callers[i]? = some caller)
    (own : caller.wish.signature = signature)
    (minds : (s.setPhase i caller phase).Minds signature f) :
    s.Minds signature f ∨ phase.flight? = some f := by
  rcases minds with awaited | ⟨member, among, part⟩
  · exact Or.inl (Or.inl awaited)
  · rw [company_setPhase_own found own] at among
    rcases List.mem_or_eq_of_mem_set among with earlier | rfl
    · exact Or.inl (Or.inr ⟨member, earlier, part⟩)
    · exact Or.inr part

theorem phase_rename_congr {name name' : Nat → Nat} {phase : CallerPhase}
    (same : ∀ f, phase.flight? = some f → name' f = name f) :
    phase.rename name' = phase.rename name := by
  cases phase with
  | fetching f landing => simp only [CallerPhase.rename, same f rfl]
  | following f => simp only [CallerPhase.rename, same f rfl]
  | _ => rfl

/-! ## Moves of the callers of other signatures -/

namespace Mirrors

variable {signature : String} {name : Nat → Nat} {t s s' : Session}

/-- Whatever leaves the signature alone leaves the mirror image as it is. -/
theorem apartFrom (mirrors : Mirrors signature name t s) (now : s'.now = s.now)
    (company : s'.company signature = s.company signature)
    (slot : s'.cache.slots signature = s.cache.slots signature)
    (flights : ∀ f, s.Minds signature f → s'.cache.flights[f]? = s.cache.flights[f]?) :
    Mirrors signature name t s' := by
  have minds : ∀ f, s'.Minds signature f ↔ s.Minds signature f := by
    intro f
    simp only [Minds, company, slot]
  refine ⟨mirrors.now.trans now.symm, ?_, ?_, ?_, ?_, ?_⟩
  · rw [company]
    exact mirrors.callers
  · rw [slot]
    exact mirrors.entry
  · rw [slot]
    exact mirrors.inFlight
  · intro f minded
    have minded' := (minds f).mp minded
    rw [mirrors.flights f minded', flights f minded']
  · intro f g minded minded'
    exact mirrors.apart f g ((minds f).mp minded) ((minds g).mp minded')

theorem lookUp_other {i : Nat} {caller : Caller} (mirrors : Mirrors signature name t s)
    (known : ∀ f, s.Minds signature f → ∃ outcome, s.cache.flights[f]? = some outcome)
    (found : s.callers[i]? = some caller) (other : caller.wish.signature ≠ signature) :
    Mirrors signature name t (s.lookUp i caller) := by
  rcases s.lookUp_cases i caller with ⟨_, _, looked⟩ | ⟨_, _, _, looked⟩ | ⟨_, _, looked⟩ <;>
    rw [looked]
  · exact mirrors.apartFrom rfl (company_setPhase_other found other _) rfl (fun _ _ => rfl)
  · exact mirrors.apartFrom rfl (company_setPhase_other found other _) rfl (fun _ _ => rfl)
  · refine mirrors.apartFrom rfl
      (company_setPhase_other (s := { s with cache := _, fetched := _ }) found other _) ?_ ?_
    · exact (slots_launch ..).trans (if_neg (Ne.symm other))
    · intro f minded
      obtain ⟨outcome, launched⟩ := known f minded
      rw [launched]
      exact getElem?_concat_of_some _ launched

end Mirrors

/-! ## Moves of the callers of the signature -/

namespace Mirrors

variable {signature : String} {name : Nat → Nat} {t s : Session} {i : Nat} {caller : Caller}

theorem caller_at (mirrors : Mirrors signature name t s) (found : s.callers[i]? = some caller)
    (own : caller.wish.signature = signature) :
    t.callers[s.place signature i]? = some (caller.rename name) := by
  rw [mirrors.callers, List.getElem?_map, company_place found own]
  rfl

theorem setPhase (mirrors : Mirrors signature name t s) (found : s.callers[i]? = some caller)
    (own : caller.wish.signature = signature) {image : Caller} (wish : image.wish = caller.wish)
    (phase : CallerPhase) (minded : ∀ f, phase.flight? = some f → s.Minds signature f) :
    Mirrors signature name (t.setPhase (s.place signature i) image (phase.rename name))
      (s.setPhase i caller phase) := by
  have before : ∀ {f : Nat}, (s.setPhase i caller phase).Minds signature f →
      s.Minds signature f := by
    intro f minds
    exact (minds_setPhase found own minds).elim id (minded f)
  refine ⟨mirrors.now, ?_, mirrors.entry, mirrors.inFlight, ?_, ?_⟩
  · rw [company_setPhase_own found own, List.map_set, ← mirrors.callers]
    simp only [Session.setPhase, wish]
    rfl
  · intro f minds
    exact mirrors.flights f (before minds)
  · intro f g minds minds'
    exact mirrors.apart f g (before minds) (before minds')

theorem finish (mirrors : Mirrors signature name t s) (found : s.callers[i]? = some caller)
    (own : caller.wish.signature = signature) {image : Caller} (wish : image.wish = caller.wish)
    (result : Except CallError String) :
    Mirrors signature name (t.finish (s.place signature i) image result)
      (s.finish i caller result) := by
  have settled := mirrors.setPhase found own wish .over (by simp [CallerPhase.flight?])
  exact ⟨settled.now, settled.callers, settled.entry, settled.inFlight, settled.flights,
    settled.apart⟩

theorem fresh? (mirrors : Mirrors signature name t s) (ttl : Nat) :
    t.cache.fresh? t.now ttl signature = s.cache.fresh? s.now ttl signature := by
  simp only [Cache.fresh?, mirrors.entry, mirrors.now]

theorem joinable? (mirrors : Mirrors signature name t s) :
    t.cache.joinable? signature = (s.cache.joinable? signature).map name := by
  simp only [Cache.joinable?, mirrors.inFlight]
  cases awaited : (s.cache.slots signature).inFlight with
  | none => rfl
  | some f =>
    have running : t.cache.isRunning (name f) = s.cache.isRunning f := by
      simp only [Cache.isRunning, mirrors.flights f (Or.inl awaited)]
    simp only [Option.map_some, Option.filter_some, running]
    split <;> rfl

theorem awaits_iff (mirrors : Mirrors signature name t s) {f : Nat}
    (minded : s.Minds signature f) :
    (t.cache.slots signature).inFlight = some (name f) ↔
      (s.cache.slots signature).inFlight = some f := by
  rw [mirrors.inFlight]
  cases awaited : (s.cache.slots signature).inFlight with
  | none => simp
  | some g =>
    simp only [Option.map_some, Option.some.injEq]
    constructor
    · exact mirrors.apart g f (Or.inl awaited) minded
    · rintro rfl
      rfl

/-- The company changes nothing when a fetch is launched, and the names go on. -/
theorem launch (mirrors : Mirrors signature name t s)
    (known : ∀ f, s.Minds signature f → ∃ outcome, s.cache.flights[f]? = some outcome)
    (starts starts' : List Nat) :
    Mirrors signature (Function.update name s.cache.flights.length t.cache.flights.length)
      { t with cache := t.cache.launch signature, fetched := starts' }
      { s with cache := s.cache.launch signature, fetched := starts } := by
  have old : ∀ {f : Nat}, s.Minds signature f → f ≠ s.cache.flights.length ∧
      name f ≠ t.cache.flights.length := by
    intro f minded
    obtain ⟨outcome, launched⟩ := known f minded
    have image := (mirrors.flights f minded).trans launched
    exact ⟨Nat.ne_of_lt (List.getElem?_eq_some_iff.mp launched).1,
      Nat.ne_of_lt (List.getElem?_eq_some_iff.mp image).1⟩
  have cases_ : ∀ {f : Nat}, Minds { s with cache := s.cache.launch signature, fetched := starts }
      signature f → f = s.cache.flights.length ∨ s.Minds signature f := by
    rintro f (awaited | part)
    · rw [slots_launch, if_pos rfl] at awaited
      cases awaited
      exact Or.inl rfl
    · exact Or.inr (Or.inr part)
  refine ⟨mirrors.now, ?_, ?_, ?_, ?_, ?_⟩
  · refine mirrors.callers.trans (List.map_congr_left ?_)
    intro caller member
    have same : caller.phase.rename name = caller.phase.rename
        (Function.update name s.cache.flights.length t.cache.flights.length) :=
      phase_rename_congr fun f part =>
        (Function.update_of_ne (old (Or.inr ⟨caller, member, part⟩)).1 _ _).symm
    simp only [Caller.rename, same]
  · rw [entry_launch, entry_launch]
    exact mirrors.entry
  · simp only [slots_launch, if_pos, Option.map_some, Function.update_self]
  · intro f minded
    rcases cases_ minded with rfl | earlier
    · simp only [Function.update_self, flights_launch, List.getElem?_concat_length]
    · obtain ⟨outcome, launched⟩ := known f earlier
      have image := (mirrors.flights f earlier).trans launched
      rw [Function.update_of_ne (old earlier).1]
      simp only [flights_launch]
      rw [getElem?_concat_of_some _ launched, getElem?_concat_of_some _ image]
  · intro f g minded minded' same
    rcases cases_ minded with rfl | earlier <;> rcases cases_ minded' with rfl | earlier'
    · rfl
    · rw [Function.update_self, Function.update_of_ne (old earlier').1] at same
      exact absurd same.symm (old earlier').2
    · rw [Function.update_self, Function.update_of_ne (old earlier).1] at same
      exact absurd same (old earlier).2
    · rw [Function.update_of_ne (old earlier).1, Function.update_of_ne (old earlier').1] at same
      exact mirrors.apart f g earlier earlier' same

theorem retire (mirrors : Mirrors signature name t s) {f : Nat} (minded : s.Minds signature f)
    {c d : Cache String} {outcome : Flight String} {entry : Option (CacheEntry String)}
    (slot : c.slots signature = if (s.cache.slots signature).inFlight = some f then ⟨entry, none⟩
      else s.cache.slots signature)
    (slot' : d.slots signature = if (t.cache.slots signature).inFlight = some (name f) then
      ⟨entry, none⟩ else t.cache.slots signature)
    (flights : c.flights = s.cache.flights.set f outcome)
    (flights' : d.flights = t.cache.flights.set (name f) outcome) :
    Mirrors signature name { t with cache := d } { s with cache := c } := by
  have awaits := mirrors.awaits_iff minded
  have before : ∀ {g : Nat}, Minds { s with cache := c } signature g → s.Minds signature g := by
    rintro g (awaited | part)
    · simp only [slot] at awaited
      split at awaited
      · cases awaited
      · exact Or.inl awaited
    · exact Or.inr part
  refine ⟨mirrors.now, mirrors.callers, ?_, ?_, ?_, ?_⟩
  · simp only [slot, slot', awaits]
    split
    · rfl
    · exact mirrors.entry
  · simp only [slot, slot', awaits]
    split
    · rfl
    · exact mirrors.inFlight
  · intro g minds
    have minded' := before minds
    have image := mirrors.flights g minded'
    simp only [flights, flights']
    by_cases same : f = g
    · subst same
      rw [List.getElem?_set, List.getElem?_set, if_pos rfl, if_pos rfl]
      have outside : t.cache.flights.length ≤ name f ↔ s.cache.flights.length ≤ f := by
        rw [← List.getElem?_eq_none_iff, image, List.getElem?_eq_none_iff]
      have inside : name f < t.cache.flights.length ↔ f < s.cache.flights.length := by
        rw [← Nat.not_le, outside, Nat.not_le]
      simp only [inside]
    · have different : name f ≠ name g := fun equal => same (mirrors.apart f g minded minded' equal)
      rw [List.getElem?_set_ne different, List.getElem?_set_ne same]
      exact image
  · intro g h minds minds'
    exact mirrors.apart g h (before minds) (before minds')

theorem land (mirrors : Mirrors signature name t s) {f : Nat} (minded : s.Minds signature f)
    (result : Except CallError String) :
    Mirrors signature name
      { t with cache := t.cache.land t.now signature (name f) result }
      { s with cache := s.cache.land s.now signature f result } := by
  refine mirrors.retire minded (slot_land ..) ?_ (flights_land ..) (flights_land ..)
  rw [slot_land, mirrors.now, mirrors.entry]

theorem abandon (mirrors : Mirrors signature name t s) {f : Nat} (minded : s.Minds signature f) :
    Mirrors signature name { t with cache := t.cache.abandon signature (name f) }
      { s with cache := s.cache.abandon signature f } := by
  refine mirrors.retire minded (slot_abandon ..) ?_ (flights_abandon ..) (flights_abandon ..)
  rw [slot_abandon, mirrors.entry]

end Mirrors

end Session

end ProxyConsole.Cache
