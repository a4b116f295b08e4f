import ProxyConsole.Proofs.Cache.Mirror

/-!
# Signatures do not interfere

Take everything out of a run that is of no concern to a signature: the callers of other
signatures with all their moves, and what is forgotten of other signatures only.  The
callers that remain do the same in the shorter run at the same moments, and the same
value is kept for them.
-/

set_option autoImplicit false

namespace ProxyConsole.Cache

/-- What a caller goes through.  Callers are known by their places among the callers of their
signature. -/
inductive Episode where
  | hits (caller : Nat) (value : String)
  | follows (caller : Nat) (leader : Option Nat)
  | leads (caller : Nat)
  | fetches (caller : Nat)
  | returns (caller moment : Nat) (result : Except CallError String)

namespace Session

open ProxyConsole.Positions

/-- The caller whose turn an event is, with its wish. -/
def turn? (s : Session) : SessionEvent → Option (Nat × Wish)
  | .arrive wish => some (s.callers.length, wish)
  | .advance index => s.callers[index]?.map fun caller => (index, caller.wish)
  | _ => none

/-- The caller whose turn it is looks its signature up: it has arrived, or the fetch that it had
joined was given up. -/
def looks (s : Session) : SessionEvent → Bool
  | .arrive _ => true
  | .advance index =>
    match s.callers[index]? with
    | some ⟨_, .following flight⟩ =>
      match s.cache.flights[flight]? with
      | some .running => false
      | some (.landed _) => false
      | _ => true
    | _ => false
  | _ => false

/-- The role in which a caller comes out of a look-up. -/
def role (s : Session) (wish : Wish) (place : Nat) : Episode :=
  match (s.cache.inspect s.now wish.ttl wish.signature).1 with
  | .hit value => .hits place value
  | .follow flight => .follows place ((s.company wish.signature).findIdx? (Caller.runs flight))
  | .lead _ => .leads place

/-- What the callers of a signature go through in an event. -/
def episodes (s : Session) (signature : String) (event : SessionEvent) : List Episode :=
  match s.turn? event with
  | none => []
  | some (index, wish) =>
    if wish.signature = signature then
      let place := s.place signature index
      (if s.looks event then [s.role wish place] else []) ++
        ((s.happen event).fetched.drop s.fetched.length).map (fun _ => .fetches place) ++
        ((s.happen event).returned.drop s.returned.length).map
          fun r => .returns place r.moment r.result
    else []

/-- The caller at an index asks for a signature. -/
def asks (s : Session) (signature : String) (index : Nat) : Bool :=
  s.callers[index]?.any fun caller => caller.wish.signature = signature

/-- An event, as far as it concerns a signature. -/
def kept (s : Session) (signature : String) : SessionEvent → Option SessionEvent
  | .arrive wish => if wish.signature = signature then some (.arrive wish) else none
  | .advance index =>
    if s.asks signature index then some (.advance (s.place signature index)) else none
  | .leave index => if s.asks signature index then some (.leave (s.place signature index)) else none
  | .invalidate other => if other = signature then some (.invalidate other) else none
  | .invalidateStarting start =>
    if start.toList.isPrefixOf signature.toList then some (.invalidateStarting start) else none
  | .clear => some .clear
  | .pass moment => some (.pass moment)

/-- What is noted of each event of a run. -/
def chronicle {β : Type} (note : Session → SessionEvent → List β) :
    Session → List SessionEvent → List β
  | _, [] => []
  | s, event :: rest => note s event ++ chronicle note (s.happen event) rest

/-- A run, as far as it concerns a signature. -/
def alone (signature : String) (events : List SessionEvent) : List SessionEvent :=
  chronicle (fun s event => (s.kept signature event).toList) {} events

/-- What the callers of a signature go through in a run. -/
def story (signature : String) (events : List SessionEvent) : List Episode :=
  chronicle (fun s event => s.episodes signature event) {} events

/-- What the callers of a signature cannot tell from a run without anybody else. -/
structure Independent (signature : String) (events : List SessionEvent) : Prop where
  wishes : (after (alone signature events)).callers.map Caller.wish =
    ((after events).callers.map Caller.wish).filter fun wish => wish.signature = signature
  /-- The callers go through the same: the same role at each look-up, with the same leader
  where they follow, the same fetches, and the same results at the same moments. -/
  story : story signature (alone signature events) = story signature events
  peek : ∀ before, before <+: events → alone signature before <+: alone signature events ∧
    (after (alone signature before)).now = (after before).now ∧
    ((after (alone signature before)).perform (.peek signature)).1 =
      ((after before).perform (.peek signature)).1
  leader : ∀ caller leader, .follows caller leader ∈ Session.story signature events →
    ∃ place, leader = some place

/-! ## Chronicles -/

section Chronicle

variable {β : Type} {note : Session → SessionEvent → List β}

theorem chronicle_append (s : Session) (events later : List SessionEvent) :
    chronicle note s (events ++ later) =
      chronicle note s events ++ chronicle note (s.runEvents events) later := by
  induction events generalizing s with
  | nil => rfl
  | cons event rest tail =>
    have ran : s.runEvents (event :: rest) = (s.happen event).runEvents rest := rfl
    simp only [List.cons_append, chronicle, tail, ran, List.append_assoc]

theorem chronicle_singleton (s : Session) (event : SessionEvent) :
    chronicle note s [event] = note s event := by
  simp only [chronicle, List.append_nil]

end Chronicle

theorem alone_concat (signature : String) (events : List SessionEvent) (event : SessionEvent) :
    alone signature (events ++ [event]) =
      alone signature events ++ ((after events).kept signature event).toList := by
  rw [alone, chronicle_append, chronicle_singleton]
  rfl

theorem story_concat (signature : String) (events : List SessionEvent) (event : SessionEvent) :
    story signature (events ++ [event]) =
      story signature events ++ (after events).episodes signature event := by
  rw [story, chronicle_append, chronicle_singleton]
  rfl

theorem alone_mono {signature : String} {before events : List SessionEvent}
    (first : before <+: events) : alone signature before <+: alone signature events := by
  obtain ⟨rest, rfl⟩ := first
  rw [alone, alone, chronicle_append]
  exact List.prefix_append _ _

/-! ## Callers of other signatures -/

section Other

variable {events : List SessionEvent} {signature : String} {name : Nat → Nat} {t : Session}

theorem Mirrors.arrive_other {wish : Wish} (mirrors : Mirrors signature name t (after events))
    (other : wish.signature ≠ signature) :
    Mirrors signature name t ((after events).happen (.arrive wish)) := by
  rw [happen_arrive]
  have entered : Mirrors signature name t ((after events).enter wish) :=
    mirrors.apartFrom rfl (company_enter_other other) rfl (fun _ _ => rfl)
  refine entered.lookUp_other ?_ ((after events).enter_found wish) other
  intro f minded
  rw [Minds, company_enter_other other] at minded
  exact Minds.known minded

theorem Mirrors.advance_other {i : Nat} {wish : Wish} {phase : CallerPhase}
    (mirrors : Mirrors signature name t (after events))
    (found : (after events).callers[i]? = some ⟨wish, phase⟩) (other : wish.signature ≠ signature) :
    Mirrors signature name t ((after events).happen (.advance i)) := by
  have turn := advance_turn found
  generalize (after events).happen (.advance i) = s' at turn ⊢
  cases turn with
  | still => exact mirrors
  | lands f landing due =>
    refine mirrors.apartFrom rfl (company_setPhase_other (s := { after events with cache := _ })
      found other _) (slots_land_other (Ne.symm other) ..) ?_
    intro g minded
    have apart : f ≠ g := by
      rintro rfl
      exact other (minded.own ⟨_, landing, found, rfl, rfl⟩)
    change (Cache.land ..).flights[g]? = _
    rw [flights_land, List.getElem?_set_ne apart]
  | shares f result landed =>
    exact mirrors.apartFrom rfl (company_setPhase_other found other _) rfl (fun _ _ => rfl)
  | again f still unended => exact mirrors.lookUp_other (fun _ minded => minded.known) found other

theorem Mirrors.leave_other {i : Nat} {wish : Wish} {phase : CallerPhase}
    (mirrors : Mirrors signature name t (after events))
    (found : (after events).callers[i]? = some ⟨wish, phase⟩) (other : wish.signature ≠ signature) :
    Mirrors signature name t ((after events).happen (.leave i)) := by
  cases phase with
  | fetching f landing =>
    rw [leave_fetching found]
    refine mirrors.apartFrom rfl (company_setPhase_other (s := { after events with cache := _ })
      found other _) (slots_abandon_other (Ne.symm other) ..) ?_
    intro g minded
    have apart : f ≠ g := by
      rintro rfl
      exact other (minded.own ⟨_, landing, found, rfl, rfl⟩)
    change (Cache.abandon ..).flights[g]? = _
    rw [flights_abandon, List.getElem?_set_ne apart]
  | _ =>
    rw [leave_idle found (by simp)]
    exact mirrors.apartFrom rfl (company_setPhase_other found other _) rfl (fun _ _ => rfl)

end Other

/-! ## Callers of the signature -/

/-- Two sessions go on to sessions that agree again, and the same is noted of both. -/
structure Parallel (signature : String) (t t' s s' : Session) : Prop where
  mirrors : ∃ name, Mirrors signature name t' s'
  fetched : ∃ more, s'.fetched = s.fetched ++ more ∧ t'.fetched = t.fetched ++ more
  returned : ∃ more, s'.returned = s.returned ++ more ∧ t'.returned = t.returned ++ more

section Own

variable {signature : String} {name : Nat → Nat} {t s : Session} {i : Nat}

theorem Mirrors.still (mirrors : Mirrors signature name t s) : Parallel signature t t s s :=
  ⟨⟨name, mirrors⟩, ⟨[], by simp⟩, ⟨[], by simp⟩⟩

theorem Mirrors.finishes {caller image : Caller} (mirrors : Mirrors signature name t s)
    (found : s.callers[i]? = some caller) (own : caller.wish.signature = signature)
    (wish : image.wish = caller.wish) (result : Except CallError String) :
    Parallel signature t (t.finish (s.place signature i) image result) s
      (s.finish i caller result) where
  mirrors := ⟨name, mirrors.finish found own wish result⟩
  fetched := ⟨[], (List.append_nil _).symm, (List.append_nil _).symm⟩
  returned := by
    refine ⟨[⟨caller.wish.id, s.now, result⟩], rfl, ?_⟩
    rw [← wish, ← mirrors.now]
    rfl

theorem Mirrors.lookUp_own {caller image : Caller} (mirrors : Mirrors signature name t s)
    (known : ∀ f, s.Minds signature f → ∃ outcome, s.cache.flights[f]? = some outcome)
    (found : s.callers[i]? = some caller) (own : caller.wish.signature = signature)
    (wish : image.wish = caller.wish) :
    Parallel signature t (t.lookUp (s.place signature i) image) s (s.lookUp i caller) := by
  subst own
  have young := mirrors.fresh? caller.wish.ttl
  have joinable := mirrors.joinable?
  rcases s.lookUp_cases i caller with
    ⟨value, young', looked⟩ | ⟨old, f, running, looked⟩ | ⟨old, free, looked⟩
  · rw [looked, lookUp_of_young (by rw [wish, young, young'])]
    exact mirrors.finishes found rfl wish _
  · have minded : s.Minds caller.wish.signature f := Or.inl (joinable?_eq_some.mp running).1
    rw [looked, lookUp_of_joinable (by rw [wish, young, old])
      (by rw [wish, joinable, running]; rfl)]
    have followed := mirrors.setPhase found rfl wish (.following f) (by
      intro g part
      cases part
      exact minded)
    exact ⟨⟨name, followed⟩, ⟨[], (List.append_nil _).symm, (List.append_nil _).symm⟩,
      ⟨[], (List.append_nil _).symm, (List.append_nil _).symm⟩⟩
  · rw [looked, lookUp_of_free (by rw [wish, young, old]) (by rw [wish, joinable, free]; rfl)]
    have launched := mirrors.launch known (s.fetched ++ [caller.wish.id])
      (t.fetched ++ [image.wish.id])
    have led := launched.setPhase found rfl wish (.fetching s.cache.flights.length
      (s.now + caller.wish.fetchTime)) (by
        intro g part
        cases part
        exact Or.inl (by rw [slots_launch, if_pos rfl]))
    have landing : t.now + image.wish.fetchTime = s.now + caller.wish.fetchTime := by
      rw [mirrors.now, wish]
    simp only [CallerPhase.rename, Function.update_self] at led
    rw [wish] at led landing
    rw [wish, landing]
    exact ⟨⟨_, led⟩, ⟨[caller.wish.id], rfl, rfl⟩,
      ⟨[], (List.append_nil _).symm, (List.append_nil _).symm⟩⟩

theorem Mirrors.place_enter (mirrors : Mirrors signature name t s) (wish : Wish) :
    (s.enter wish).place signature s.callers.length = t.callers.length := by
  rw [Session.place_enter, mirrors.callers, List.length_map]

theorem Mirrors.arrive_own {wish : Wish} (mirrors : Mirrors signature name t s)
    (known : ∀ f, s.Minds signature f → ∃ outcome, s.cache.flights[f]? = some outcome)
    (own : wish.signature = signature) :
    Parallel signature t (t.happen (.arrive wish)) s (s.happen (.arrive wish)) := by
  subst own
  rw [happen_arrive, happen_arrive, ← mirrors.place_enter wish]
  have minds : ∀ f, (s.enter wish).Minds wish.signature f → s.Minds wish.signature f := by
    rintro f (awaited | ⟨caller, member, part⟩)
    · exact Or.inl awaited
    · rw [company_enter_own] at member
      rcases List.mem_append.mp member with earlier | last
      · exact Or.inr ⟨caller, earlier, part⟩
      · cases List.mem_singleton.mp last
        cases part
  have entered : Mirrors wish.signature name (t.enter wish) (s.enter wish) := by
    refine ⟨mirrors.now, ?_, mirrors.entry, mirrors.inFlight,
      fun f minded => mirrors.flights f (minds f minded),
      fun f g minded minded' => mirrors.apart f g (minds f minded) (minds g minded')⟩
    rw [company_enter_own, List.map_append, ← mirrors.callers]
    rfl
  have looked := entered.lookUp_own (fun f minded => known f (minds f minded)) (s.enter_found wish)
    rfl (show Caller.wish ⟨wish, .over⟩ = wish from rfl)
  exact ⟨looked.mirrors, looked.fetched, looked.returned⟩

theorem Mirrors.advance_own {wish : Wish} {phase : CallerPhase}
    (mirrors : Mirrors signature name t s)
    (known : ∀ f, s.Minds signature f → ∃ outcome, s.cache.flights[f]? = some outcome)
    (found : s.callers[i]? = some ⟨wish, phase⟩) (own : wish.signature = signature) :
    Parallel signature t (t.happen (.advance (s.place signature i))) s
      (s.happen (.advance i)) := by
  have image := mirrors.caller_at found own
  cases phase with
  | fetching f landing =>
    have minded : s.Minds signature f := minds_of_caller found own rfl
    rw [advance_fetching found, advance_fetching image]
    by_cases due : landing ≤ s.now
    · rw [if_pos due, if_pos (by rwa [mirrors.now])]
      subst own
      have ended := (mirrors.land minded wish.fetchResult).finishes found rfl
        (show Caller.wish ⟨wish, .fetching (name f) landing⟩ = wish from rfl) wish.fetchResult
      exact ⟨ended.mirrors, ended.fetched, ended.returned⟩
    · rw [if_neg due, if_neg (by rwa [mirrors.now])]
      exact mirrors.still
  | following f =>
    have same := mirrors.flights f (minds_of_caller found own rfl)
    by_cases running : s.cache.flights[f]? = some .running
    · rw [advance_running found running, advance_running image (same.trans running)]
      exact mirrors.still
    by_cases landed : ∃ result, s.cache.flights[f]? = some (.landed result)
    · obtain ⟨result, landed⟩ := landed
      rw [advance_landed found landed, advance_landed image (same.trans landed)]
      exact mirrors.finishes found own rfl result
    · have unended := not_exists.mp landed
      rw [advance_gone found running unended,
        advance_gone image (by rwa [same]) (fun result => by rw [same]; exact unended result)]
      exact mirrors.lookUp_own known found own rfl
  | _ =>
    rw [advance_over found, advance_over image]
    exact mirrors.still

theorem Mirrors.leave_own {wish : Wish} {phase : CallerPhase} (mirrors : Mirrors signature name t s)
    (found : s.callers[i]? = some ⟨wish, phase⟩) (own : wish.signature = signature) :
    ∃ name', Mirrors signature name' (t.happen (.leave (s.place signature i)))
      (s.happen (.leave i)) := by
  have image := mirrors.caller_at found own
  cases phase with
  | fetching f landing =>
    have minded : s.Minds signature f := minds_of_caller found own rfl
    rw [leave_fetching found, leave_fetching image]
    have abandoned := mirrors.abandon minded
    rw [← own] at abandoned ⊢
    exact ⟨name, abandoned.setPhase found rfl rfl .over (by simp [CallerPhase.flight?])⟩
  | _ =>
    rw [leave_idle found (by simp), leave_idle image (by simp [CallerPhase.rename])]
    exact ⟨name, mirrors.setPhase found own rfl .over (by simp [CallerPhase.flight?])⟩

theorem Mirrors.forget (mirrors : Mirrors signature name t s) (hits : String → Bool)
    {c d : Cache String} (hit : hits signature = true) (cache : c = s.cache.forget hits)
    (cache' : d = t.cache.forget hits) :
    Mirrors signature name { t with cache := d } { s with cache := c } := by
  subst cache cache'
  have before : ∀ f, Minds { s with cache := s.cache.forget hits } signature f →
      s.Minds signature f := by
    rintro f (awaited | part)
    · rw [slots_forget, if_pos hit] at awaited
      cases awaited
    · exact Or.inr part
  refine ⟨mirrors.now, mirrors.callers, ?_, ?_, fun f minded => mirrors.flights f (before f minded),
    fun f g minded minded' => mirrors.apart f g (before f minded) (before g minded')⟩
  · rw [slots_forget, slots_forget, if_pos hit, if_pos hit]
  · rw [slots_forget, slots_forget, if_pos hit, if_pos hit]
    rfl

theorem Mirrors.forget_other (mirrors : Mirrors signature name t s) (hits : String → Bool)
    {c : Cache String} (missed : hits signature = false) (cache : c = s.cache.forget hits) :
    Mirrors signature name t { s with cache := c } := by
  subst cache
  refine mirrors.apartFrom rfl rfl ?_ (fun _ _ => rfl)
  rw [slots_forget, missed]
  rfl

end Own

/-! ## What is noted -/

section Notes

variable {signature : String} {name : Nat → Nat} {t s : Session} {i : Nat} {wish : Wish}

theorem Mirrors.own_callers (mirrors : Mirrors signature name t s) :
    ∀ caller ∈ t.callers, caller.wish.signature = signature := by
  intro caller member
  rw [mirrors.callers] at member
  obtain ⟨original, among, rfl⟩ := List.mem_map.mp member
  exact (mem_company.mp among).2

theorem Mirrors.company_eq (mirrors : Mirrors signature name t s) :
    t.company signature = (s.company signature).map (Caller.rename name) := by
  rw [← mirrors.callers, company, List.filter_eq_self]
  intro caller member
  simpa using mirrors.own_callers caller member

theorem Mirrors.place_eq (mirrors : Mirrors signature name t s) {j : Nat}
    (inside : j ≤ t.callers.length) : t.place signature j = j := by
  have every : (t.callers.take j).countP (fun caller => caller.wish.signature = signature) =
      (t.callers.take j).length := by
    rw [List.countP_eq_length]
    intro caller member
    simpa using mirrors.own_callers caller (List.mem_of_mem_take member)
  rw [place, every, List.length_take, Nat.min_eq_left inside]

theorem Mirrors.leader_eq (mirrors : Mirrors signature name t s) {f : Nat}
    (minded : s.Minds signature f) :
    (t.company signature).findIdx? (Caller.runs (name f)) =
      (s.company signature).findIdx? (Caller.runs f) := by
  rw [mirrors.company_eq, List.findIdx?_map]
  refine findIdx?_congr ?_
  intro caller member
  obtain ⟨wish, phase⟩ := caller
  cases phase with
  | fetching g landing =>
    have same : name g = name f ↔ g = f :=
      ⟨mirrors.apart g f (Or.inr ⟨_, member, rfl⟩) minded, fun equal => by rw [equal]⟩
    simp only [Function.comp_apply, Caller.runs, Caller.rename, CallerPhase.rename, same]
  | _ => rfl

theorem Mirrors.role_eq (mirrors : Mirrors wish.signature name t s) (place : Nat) :
    t.role wish place = s.role wish place := by
  have young := mirrors.fresh? wish.ttl
  have joinable := mirrors.joinable?
  rcases s.cache.inspect_cases s.now wish.ttl wish.signature with
    ⟨value, young', looked⟩ | ⟨old, f, running, looked⟩ | ⟨old, free, looked⟩
  · simp only [role, inspect, young, young']
  · rw [running, Option.map_some] at joinable
    simp only [role, inspect, young, old, joinable, running]
    rw [mirrors.leader_eq (Or.inl (joinable?_eq_some.mp running).1)]
  · rw [free, Option.map_none] at joinable
    simp only [role, inspect, young, old, joinable, free]

theorem Mirrors.looks_eq {phase : CallerPhase} (mirrors : Mirrors signature name t s)
    (found : s.callers[i]? = some ⟨wish, phase⟩) (own : wish.signature = signature) :
    t.looks (.advance (s.place signature i)) = s.looks (.advance i) := by
  have image := mirrors.caller_at found own
  cases phase with
  | following f =>
    have same := mirrors.flights f (minds_of_caller found own rfl)
    simp only [looks, found, image, Caller.rename, CallerPhase.rename, same]
  | _ => simp only [looks, found, image, Caller.rename, CallerPhase.rename]

/-- The same is noted of a turn in both. -/
theorem Parallel.episodes_eq {event event' : SessionEvent}
    (parallel : Parallel signature t (t.happen event') s (s.happen event))
    (mirrors : Mirrors signature name t s) (own : wish.signature = signature)
    (turn : s.turn? event = some (i, wish)) {j : Nat} (turn' : t.turn? event' = some (j, wish))
    (inside : j ≤ t.callers.length) (place : s.place signature i = j)
    (looks : t.looks event' = s.looks event) :
    t.episodes signature event' = s.episodes signature event := by
  subst own
  obtain ⟨started, starts, starts'⟩ := parallel.fetched
  obtain ⟨gone, returns, returns'⟩ := parallel.returned
  simp only [episodes, turn, turn', if_pos, mirrors.place_eq inside, place, looks, starts, starts',
    returns, returns', List.drop_left, mirrors.role_eq]

end Notes

/-! ## One event -/

theorem asks_iff {s : Session} {signature : String} {i : Nat} :
    s.asks signature i = true ↔
      ∃ wish phase, s.callers[i]? = some ⟨wish, phase⟩ ∧ wish.signature = signature := by
  unfold asks
  cases s.callers[i]? with
  | none => simp
  | some caller =>
    obtain ⟨wish, phase⟩ := caller
    simp

theorem episodes_other {s : Session} {signature : String} {event : SessionEvent}
    (other : ∀ i wish, s.turn? event = some (i, wish) → wish.signature ≠ signature) :
    s.episodes signature event = [] := by
  unfold episodes
  cases turn : s.turn? event with
  | none => rfl
  | some caller => exact if_neg (other caller.1 caller.2 turn)

section Step

variable {events : List SessionEvent} {signature : String} {name : Nat → Nat} {t : Session}
  {event event' : SessionEvent}

/-- What is taken out is nothing to the callers of the signature. -/
theorem Mirrors.happen_removed (mirrors : Mirrors signature name t (after events))
    (removed : (after events).kept signature event = none) :
    Mirrors signature name t ((after events).happen event) ∧
      (after events).episodes signature event = [] := by
  have unasked : ∀ {i : Nat} {wish : Wish} {phase : CallerPhase},
      ¬ (after events).asks signature i = true →
      (after events).callers[i]? = some ⟨wish, phase⟩ → wish.signature ≠ signature :=
    fun unasked found own => unasked (asks_iff.mpr ⟨_, _, found, own⟩)
  cases event with
  | arrive wish =>
    have other : wish.signature ≠ signature := by simpa [kept] using removed
    refine ⟨mirrors.arrive_other other, episodes_other ?_⟩
    rintro i wish' turn
    cases turn
    exact other
  | advance i =>
    have unasked' : ¬ (after events).asks signature i = true := by simpa [kept] using removed
    cases found : (after events).callers[i]? with
    | none =>
      rw [advance_absent found]
      exact ⟨mirrors, episodes_other (by simp [turn?, found])⟩
    | some caller =>
      have other := unasked unasked' found
      refine ⟨mirrors.advance_other found other, episodes_other ?_⟩
      rintro j wish' turn
      simp only [turn?, found, Option.map_some, Option.some.injEq, Prod.mk.injEq] at turn
      rw [← turn.2]
      exact other
  | leave i =>
    have unasked' : ¬ (after events).asks signature i = true := by simpa [kept] using removed
    refine ⟨?_, rfl⟩
    cases found : (after events).callers[i]? with
    | none => rwa [leave_absent found]
    | some caller => exact mirrors.leave_other found (unasked unasked' found)
  | invalidate other =>
    have different : other ≠ signature := by simpa [kept] using removed
    exact ⟨mirrors.forget_other (fun s => s = other)
      (by simpa using Ne.symm different) (invalidate_eq_forget _ _), rfl⟩
  | invalidateStarting start =>
    have missed : ¬ start.toList.isPrefixOf signature.toList = true := by
      simpa [kept] using removed
    exact ⟨mirrors.forget_other (fun s => start.toList.isPrefixOf s.toList)
      (Bool.eq_false_iff.mpr missed) rfl, rfl⟩
  | clear => cases removed
  | pass moment => cases removed

theorem Mirrors.happen_kept (mirrors : Mirrors signature name t (after events))
    (kept : (after events).kept signature event = some event') :
    (∃ name', Mirrors signature name' (t.happen event') ((after events).happen event)) ∧
      t.episodes signature event' = (after events).episodes signature event := by
  have known : ∀ f, (after events).Minds signature f →
      ∃ outcome, (after events).cache.flights[f]? = some outcome := fun _ minded => minded.known
  cases event with
  | arrive wish =>
    obtain ⟨own, rfl⟩ : wish.signature = signature ∧ .arrive wish = event' := by
      simpa [Session.kept] using kept
    have parallel := mirrors.arrive_own known own
    refine ⟨parallel.mirrors, parallel.episodes_eq mirrors own rfl rfl (Nat.le_refl _) ?_ rfl⟩
    rw [place_last, mirrors.callers, List.length_map]
  | advance i =>
    obtain ⟨asked, rfl⟩ : (after events).asks signature i = true ∧
        .advance ((after events).place signature i) = event' := by simpa [Session.kept] using kept
    obtain ⟨wish, phase, found, own⟩ := asks_iff.mp asked
    have image := mirrors.caller_at found own
    have parallel := mirrors.advance_own known found own
    refine ⟨parallel.mirrors, parallel.episodes_eq mirrors own
      (show Session.turn? _ (.advance i) = some (i, wish) by simp [turn?, found])
      (by simp [turn?, image, Caller.rename])
      (Nat.le_of_lt (List.getElem?_eq_some_iff.mp image).1) rfl (mirrors.looks_eq found own)⟩
  | leave i =>
    obtain ⟨asked, rfl⟩ : (after events).asks signature i = true ∧
        .leave ((after events).place signature i) = event' := by simpa [Session.kept] using kept
    obtain ⟨wish, phase, found, own⟩ := asks_iff.mp asked
    exact ⟨mirrors.leave_own found own, rfl⟩
  | invalidate other =>
    obtain ⟨rfl, rfl⟩ : other = signature ∧ .invalidate other = event' := by
      simpa [Session.kept] using kept
    exact ⟨⟨name, mirrors.forget (fun s => s = other) (by simp)
      (invalidate_eq_forget _ _) (invalidate_eq_forget _ _)⟩, rfl⟩
  | invalidateStarting start =>
    obtain ⟨hit, rfl⟩ : start.toList.isPrefixOf signature.toList = true ∧
        .invalidateStarting start = event' := by simpa [Session.kept] using kept
    exact ⟨⟨name, mirrors.forget (fun s => start.toList.isPrefixOf s.toList) hit rfl rfl⟩,
      rfl⟩
  | clear =>
    cases kept
    exact ⟨⟨name, mirrors.forget (fun _ => true) rfl (clear_eq_forget _)
      (clear_eq_forget _)⟩, rfl⟩
  | pass moment =>
    cases kept
    have later : Mirrors signature name { t with now := max t.now moment }
        { after events with now := max (after events).now moment } :=
      ⟨by rw [mirrors.now], mirrors.callers, mirrors.entry, mirrors.inFlight, mirrors.flights,
        mirrors.apart⟩
    exact ⟨⟨name, later⟩, rfl⟩

end Step

/-! ## The run -/

/-- What remains of a run mirrors it, and its callers go through the same. -/
theorem mirrors_alone (signature : String) (events : List SessionEvent) :
    (∃ name, Mirrors signature name (after (alone signature events)) (after events)) ∧
      story signature (alone signature events) = story signature events := by
  induction events using List.reverseRecOn with
  | nil =>
    have nobody : ∀ f, ¬ (after []).Minds signature f := by
      rintro f (awaited | ⟨caller, member, _⟩)
      · cases awaited
      · cases member
    exact ⟨⟨id, rfl, rfl, rfl, rfl, fun f minded => absurd minded (nobody f),
      fun f _ minded => absurd minded (nobody f)⟩, rfl⟩
  | append_singleton events event earlier =>
    obtain ⟨⟨name, mirrors⟩, same⟩ := earlier
    rw [alone_concat, after_concat, story_concat]
    cases kept : (after events).kept signature event with
    | none =>
      obtain ⟨mirrors', nothing⟩ := mirrors.happen_removed kept
      rw [nothing, Option.toList_none, List.append_nil, List.append_nil]
      exact ⟨⟨name, mirrors'⟩, same⟩
    | some event' =>
      obtain ⟨mirrors', noted⟩ := mirrors.happen_kept kept
      rw [Option.toList_some, after_concat, story_concat, same, noted]
      exact ⟨mirrors', rfl⟩

theorem leader_of_follows {events : List SessionEvent} {signature : String} {caller : Nat}
    {leader : Option Nat} (follows : .follows caller leader ∈ story signature events) :
    ∃ place, leader = some place := by
  induction events using List.reverseRecOn with
  | nil => cases follows
  | append_singleton events event earlier =>
    rw [story_concat] at follows
    rcases List.mem_append.mp follows with before | now
    · exact earlier before
    · obtain ⟨place, wish, role⟩ : ∃ place wish,
          (after events).role wish place = .follows caller leader := by
        unfold episodes at now
        split at now
        · cases now
        · rename_i index wish turn
          split at now
          · simp only [List.mem_append, List.mem_map] at now
            rcases now with (now | ⟨_, _, impossible⟩) | ⟨_, _, impossible⟩
            · split at now
              · exact ⟨_, wish, (List.mem_singleton.mp now).symm⟩
              · cases now
            · cases impossible
            · cases impossible
          · cases now
      unfold Session.role at role
      rcases (after events).cache.inspect_cases (after events).now wish.ttl wish.signature with
        ⟨value, _, looked⟩ | ⟨_, f, running, looked⟩ | ⟨_, _, looked⟩
      · rw [looked] at role
        cases role
      · rw [looked] at role
        cases role
        obtain ⟨_, i, leading, landing, found, phase, own⟩ := joinable_running running
        have member : leading ∈ (after events).company wish.signature :=
          mem_company.mpr ⟨List.mem_of_getElem? found, own⟩
        rw [← Option.isSome_iff_exists, List.findIdx?_isSome, List.any_eq_true]
        exact ⟨leading, member, by simp [Caller.runs, phase]⟩
      · rw [looked] at role
        cases role

/-- Under every schedule, the callers of a signature notice nothing of what happens under other
signatures. -/
theorem independent_after (signature : String) (events : List SessionEvent) :
    Independent signature events where
  wishes := by
    obtain ⟨⟨name, mirrors⟩, _⟩ := mirrors_alone signature events
    rw [mirrors.callers, List.map_map, List.filter_map]
    rfl
  story := (mirrors_alone signature events).2
  peek before first := by
    obtain ⟨⟨name, mirrors⟩, _⟩ := mirrors_alone signature before
    refine ⟨alone_mono first, mirrors.now, ?_⟩
    have entry := congrArg (Option.map CacheEntry.value) mirrors.entry
    exact entry
  leader _ _ follows := leader_of_follows follows

/-- Two callers share the fetch of the first, whatever goes on under the other signature. -/
example : story "a" [.arrive ⟨1, "a", 9, 5, .ok "x"⟩, .arrive ⟨2, "b", 9, 1, .ok "y"⟩,
    .arrive ⟨3, "a", 9, 5, .ok "z"⟩, .invalidateStarting "b", .pass 5, .advance 0, .advance 2] =
    [.leads 0, .fetches 0, .follows 1 (some 0), .returns 0 5 (.ok "x"),
      .returns 1 5 (.ok "x")] := by
  cbv

end Session

end ProxyConsole.Cache
