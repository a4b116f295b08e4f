import ProxyConsole.Proofs.Client.Polling

/-!
# Readiness

A wait for the backend returns the version at the first probe that brings it, a refusal
at the first one that is refused, and when its time is over what the last probe came to.
The time of the wait bounds the number of its probes and the moment at which it ends,
and no probe leaves anything behind.
-/

set_option autoImplicit false

namespace ProxyConsole

namespace Wait

variable {w : Wait} {prompt : Prop} {k : Chronicle}

/-! ## The row of the probes -/

theorem Row.moment_ge (row : w.Row prompt k)
    (lasted : ∀ x ∈ k.past, x.course.began ≤ x.ended) {i : Nat} {b : Begun}
    (found : k.log.attempts[i]? = some b) : w.started + i * w.interval ≤ b.moment := by
  induction i generalizing b with
  | zero =>
    have later := (row.first b found).later
    omega
  | succ i ih =>
    obtain ⟨t, ended⟩ := CallLog.past_of_attempts found
    obtain ⟨x, passed, rfl⟩ := Chronicle.exists_passage ended
    have began := ih (CallLog.attempts_of_past ended)
    have later := (row.later i _ b ended found).later
    have lasted' : x.trial.begun.moment ≤ x.trial.ended := lasted x (List.mem_of_getElem? passed)
    rw [Nat.succ_mul]
    omega

theorem Row.count (row : w.Row prompt k) (lasted : ∀ x ∈ k.past, x.course.began ≤ x.ended)
    (paced : 0 < w.interval) :
    k.log.attempts.length ≤ max 1 ((w.maxWait + w.interval - 1) / w.interval) := by
  obtain few | ⟨n, many⟩ : k.log.attempts.length ≤ 1 ∨ ∃ n, k.log.attempts.length = n + 2 := by
    cases k.log.attempts.length with
    | zero => exact .inl (Nat.zero_le 1)
    | succ n =>
      cases n with
      | zero => exact .inl (Nat.le_refl 1)
      | succ n => exact .inr ⟨n, rfl⟩
  · exact Nat.le_trans few (Nat.le_max_left _ _)
  · -- the last probe but one left time for another one
    have inside : n + 1 < k.log.attempts.length := by omega
    obtain ⟨t, ended⟩ := CallLog.past_of_attempts (List.getElem?_eq_getElem inside)
    obtain ⟨x, passed, rfl⟩ := Chronicle.exists_passage ended
    have follows := row.later n _ _ ended (List.getElem?_eq_getElem inside)
    have began := row.moment_ge lasted (CallLog.attempts_of_past ended)
    have left := follows.polls.left
    have lasted' : x.trial.begun.moment ≤ x.trial.ended := lasted x (List.mem_of_getElem? passed)
    refine Nat.le_trans ?_ (Nat.le_max_right _ _)
    rw [many, Nat.le_div_iff_mul_le paced, Nat.add_mul]
    omega

theorem Row.moment_le (row : w.Row prompt k) (prompted : prompt) {b : Begun}
    (member : b ∈ k.log.attempts) : b.moment ≤ w.started + w.maxWait := by
  obtain ⟨i, found⟩ := List.mem_iff_getElem?.mp member
  cases i with
  | zero =>
    rw [(row.first b found).exact prompted]
    exact Nat.le_add_right _ _
  | succ i =>
    obtain ⟨t, ended⟩ := CallLog.past_of_attempts found
    have follows := row.later i t b ended found
    rw [follows.exact prompted]
    exact Nat.le_of_lt follows.polls.left

theorem Row.polls_of_next (row : w.Row prompt k) {i : Nat} {x : Passage}
    (ended : k.past[i]? = some x)
    (next : i + 1 < k.log.attempts.length) : w.Polls x.ended x.ending :=
  (row.later i x.trial _ (Chronicle.past_of_passage ended) (List.getElem?_eq_getElem next)).polls

theorem Row.polls {past : List Passage} {last : Passage}
    (row : w.Row prompt ⟨past ++ [last], none⟩) : ∀ x ∈ past, w.Polls x.ended x.ending := by
  intro x member
  obtain ⟨i, found⟩ := List.mem_iff_getElem?.mp member
  have inside := (List.getElem?_eq_some_iff.mp found).1
  refine row.polls_of_next (i := i) ?_ ?_
  · exact (List.getElem?_append_left inside).trans found
  · simp [Chronicle.log, CallLog.attempts]
    exact inside

theorem Row.polls_under_way {past : List Passage} {course : Course}
    (row : w.Row prompt ⟨past, some course⟩) : ∀ x ∈ past, w.Polls x.ended x.ending := by
  intro x member
  obtain ⟨i, found⟩ := List.mem_iff_getElem?.mp member
  have inside := (List.getElem?_eq_some_iff.mp found).1
  refine row.polls_of_next (i := i) found ?_
  simp [Chronicle.log, CallLog.attempts]
  exact inside

/-! ## What a wait returns -/

theorem outcome_ok {ending : Ending} {v : VersionInfo} (ready : w.outcome ending = .ok v) :
    ∃ e body, ending = .answered e ∧ e.classify = .ok body ∧
      VersionInfo.codec.ofText body = .ok v := by
  cases ending with
  | answered e =>
    simp only [outcome, Ending.received] at ready
    cases accepted : e.classify with
    | error error =>
      rw [accepted] at ready
      cases ready
    | ok body =>
      rw [accepted] at ready
      refine ⟨e, body, rfl, accepted, ?_⟩
      simp only [Except.bind, decode] at ready
      split at ready
      · cases ready
        assumption
      · cases ready
  | _ => cases ready

/-- The only failure that ends a wait at once is a refusal of the backend. -/
theorem outcome_refused {ending : Ending} {error : CallError}
    (failed : w.outcome ending = .error error) (closed : keepsPolling error = false) :
    ∃ e status message, ending = .answered e ∧
      e.classify = .error (.backendRejected status message) ∧
        error = .backendRejected status message := by
  cases ending with
  | refused e =>
    simp only [outcome, Ending.received, CallError.ofTransport] at failed
    split at failed <;> cases failed <;> cases closed
  | cancelled =>
    cases failed
    cases closed
  | expired =>
    cases failed
    cases closed
  | answered e =>
    simp only [outcome, Ending.received] at failed
    cases received : e.classify with
    | ok body =>
      rw [received] at failed
      simp only [Except.bind, decode] at failed
      split at failed
      · cases failed
      · cases failed
        cases closed
    | error error' =>
      rw [received] at failed
      cases failed
      cases error with
      | backendRejected status message => exact ⟨e, status, message, rfl, received, rfl⟩
      | validation reason =>
        unfold InboundEnvelope.classify at received
        split at received
        · dsimp only at received
          split at received <;> cases received
        · split at received <;> cases received
      | _ => cases closed

/-- What a wait returns after its last probe, and why. -/
inductive Returns (w : Wait) (prompt : Prop) (last : Passage) :
    Except CallError VersionInfo → Prop where
  | ready (e : InboundEnvelope) (body : String) (v : VersionInfo)
      (answered : last.ending = .answered e)
      (accepted : e.classify = .ok body) (decoded : VersionInfo.codec.ofText body = .ok v) :
      Returns w prompt last (.ok v)
  | refused (e : InboundEnvelope) (status : UInt16) (message : String)
      (answered : last.ending = .answered e)
      (rejected : e.classify = .error (.backendRejected status message)) :
      Returns w prompt last (.error (.backendRejected status message))
  /-- The failure of the last probe for which there was time. -/
  | exhausted (error : CallError) (failed : w.outcome last.ending = .error error)
      (undecided : keepsPolling error = true)
      (late : w.started + w.maxWait ≤ last.ended + w.interval)
      (brief : prompt → last.ended ≤ w.started + w.maxWait + w.probeTimeout) :
      Returns w prompt last (.error error)
  | calledOff (moment : Nat) (polls : w.Polls last.ended last.ending)
      (off : w.calledOff = some moment) (early : prompt → moment ≤ last.ended + w.interval) :
      Returns w prompt last (.error (.backendNotReady "readiness wait cancelled"))

/-- A probe that is the last one decides what the wait returns. -/
theorem returns_of_final {last : Passage} (final : ¬ w.Polls last.ended last.ending)
    (brief : prompt → last.ended ≤ w.started + w.maxWait + w.probeTimeout) :
    w.Returns prompt last (w.outcome last.ending) := by
  cases outcome : w.outcome last.ending with
  | ok v =>
    obtain ⟨e, body, answered, accepted, decoded⟩ := outcome_ok outcome
    exact .ready e body v answered accepted decoded
  | error error =>
    cases undecided : keepsPolling error with
    | false =>
      obtain ⟨e, status, message, answered, rejected, rfl⟩ := outcome_refused outcome undecided
      exact .refused e status message answered rejected
    | true =>
      refine .exhausted error outcome undecided ?_ brief
      exact Nat.le_of_not_lt fun left => final ⟨⟨error, outcome, undecided⟩, left⟩

end Wait

namespace Client

variable {w : Wait} {sound prompt : Prop} {cl : Client} {index : Nat} {happenings : List Happening}
  {job : Job}

/-! ## The law -/

/-- What a wait, the job at an index, does while some happenings follow, with the chronicle
of its probes: `cl` is the client in which it was started, `ordinary` says that the ids have
not come round, and nothing has delayed it if `prompt`. -/
structure ReadinessLaw (w : Wait) (ordinary prompt : Prop) (cl : Client) (index : Nat)
    (happenings : List Happening) (k : Chronicle) : Prop where
  sends : cl.posted index happenings = k.sends Wait.request
  alone : ∀ b ∈ k.log.attempts,
    (cl.live happenings).sends.filter (·.ticket = b.ticket) = [Wait.request.sending b.ticket]
  tickets : (k.log.attempts.map Begun.ticket).Nodup
  first : ∀ b, k.log.attempts[0]? = some b → w.Opens prompt b
  /-- Each probe but the first begins an interval after the end of the one before, if that left
  it open whether the backend is up, the time is not over by then and the wait has not been
  called off before. -/
  later : ∀ i t b, k.log.past[i]? = some t → k.log.attempts[i + 1]? = some b → w.Follows prompt t b
  count : 0 < w.interval →
    k.log.attempts.length ≤ max 1 ((w.maxWait + w.interval - 1) / w.interval)
  /-- A probe is decided by what the transport did with its request and by what the
  correlator was told of its id, a response to it or a cancellation, and by nothing else. -/
  explained : ordinary → ∀ x ∈ k.past, x.course.Explains w.probeTimeout x.ended x.ending
  own : ∀ x ∈ k.past, ∀ e, x.ending = .answered e → e.requestId = x.course.ticket.id
  brief : prompt → ∀ x ∈ k.past, x.ended ≤ x.course.began + w.probeTimeout
  result : ∀ r, (cl.live happenings).jobs[index]? = some (.over r) → ∃ earlier last answer,
    k = ⟨earlier ++ [last], none⟩ ∧ (∀ x ∈ earlier, w.Polls x.ended x.ending) ∧
      w.Returns prompt last answer ∧ r = answer.map .version
  decides : ∀ x ∈ k.past, ¬ w.Polls x.ended x.ending →
    (cl.live happenings).jobs[index]? = some (.over ((w.outcome x.ending).map .version)) ∨
      (cl.live happenings).jobs[index]? = some .gone
  /-- Once it is called off before the end of a pause no probe follows, and that is what it
  returns.  Called off at the very end it may still send the next one. -/
  calledOff : prompt → 0 < w.interval → ∀ moment i x, w.calledOff = some moment →
    k.past[i]? = some x → w.Polls x.ended x.ending → moment < x.ended + w.interval →
      k.log.attempts.length = i + 1 ∧
      (∀ r, (cl.live happenings).jobs[index]? = some (.over r) → r = .error Wait.calledOffError) ∧
      (max moment x.ended < (cl.live happenings).now →
        (cl.live happenings).jobs[index]? = some (.over (.error Wait.calledOffError)) ∨
          (cl.live happenings).jobs[index]? = some .gone)
  /-- The wait ends, unless it is given up or there is a moment without a free id. -/
  ends : prompt → .event (.abandon index) ∉ happenings →
    (∀ part, part <+: happenings → (cl.live part).correlator.allocate ≠ none) →
    w.started + w.maxWait + w.probeTimeout < (cl.live happenings).now →
      ∃ r, (cl.live happenings).jobs[index]? = some (.over r)
  lapses : ∀ x ∈ k.past, x.course.ticket ∉ (cl.live happenings).correlator.pending
  lapsesAll : ((∃ r, (cl.live happenings).jobs[index]? = some (.over r)) ∨
      (cl.live happenings).jobs[index]? = some .gone) →
    ∀ b ∈ k.log.attempts, b.ticket ∉ (cl.live happenings).correlator.pending

namespace WaitKept

variable (kept : WaitKept w sound prompt cl index happenings job)

include kept

theorem lasted : ∀ x ∈ (cl.chronicle probePlace index happenings).past, x.course.began ≤ x.ended :=
  fun x member => (kept.tells.past x member).lasted

theorem brief_of_member {x : Passage} (member : x ∈ (cl.chronicle probePlace index happenings).past)
    (prompted : prompt) : x.ended ≤ w.started + w.maxWait + w.probeTimeout := by
  have began :=
    Wait.Row.moment_le kept.row prompted (Chronicle.mem_attempts.mpr (.inl ⟨x, member, rfl⟩))
  have brief := (kept.tells.past x member).brief prompted
  change x.course.began ≤ _ at began
  omega

theorem result {r : Except CallError Reply}
    (returned : (cl.live happenings).jobs[index]? = some (.over r)) :
    ∃ earlier last answer, cl.chronicle probePlace index happenings = ⟨earlier ++ [last], none⟩ ∧
      (∀ x ∈ earlier, w.Polls x.ended x.ending) ∧ w.Returns prompt last answer ∧
      r = answer.map .version := by
  obtain rfl := Option.some.inj (kept.found.symm.trans returned)
  have stage := kept.stage
  have row := kept.row
  have brief := fun x => kept.brief_of_member (x := x)
  generalize cl.chronicle probePlace index happenings = k at stage row brief
  cases stage with
  | returned past last final =>
    exact ⟨past, last, _, rfl, Wait.Row.polls row, Wait.returns_of_final final
      (brief last (List.mem_append_right _ (List.mem_singleton.mpr rfl))), rfl⟩
  | calledOff past last moment polls off passed early =>
    exact ⟨past, last, _, rfl, Wait.Row.polls row, .calledOff moment polls off early, rfl⟩

theorem decides {x : Passage} (member : x ∈ (cl.chronicle probePlace index happenings).past)
    (final : ¬ w.Polls x.ended x.ending) :
    (cl.live happenings).jobs[index]? = some (.over ((w.outcome x.ending).map .version)) ∨
      (cl.live happenings).jobs[index]? = some .gone := by
  have stage := kept.stage
  have row := kept.row
  rw [kept.found]
  generalize cl.chronicle probePlace index happenings = k at stage row member
  -- a probe that decides is the last one
  have newest : ∀ {past : List Passage} {last : Passage}, k = ⟨past ++ [last], none⟩ →
    x = last := by
    rintro past last rfl
    rcases List.mem_append.mp member with earlier | newest
    · exact absurd (Wait.Row.polls row x earlier) final
    · exact List.mem_singleton.mp newest
  cases stage with
  | fresh => cases member
  | probing a past course => exact absurd (Wait.Row.polls_under_way row x member) final
  | pausing past last polls =>
    obtain rfl := newest rfl
    exact absurd polls final
  | starved past rested =>
    obtain rfl | ⟨past, last, rfl⟩ := List.eq_nil_or_concat' past
    · cases member
    · obtain rfl := newest rfl
      exact absurd (rested x List.getLast?_concat).polls final
  | returned past last =>
    obtain rfl := newest rfl
    exact .inl rfl
  | calledOff past last moment polls =>
    obtain rfl := newest rfl
    exact absurd polls final
  | gone k => exact .inr rfl

/-- A wait that is called off before the end of a pause sends no further probe. -/
theorem length_of_calledOff (prompted : prompt) (paced : 0 < w.interval) {moment i : Nat}
    {x : Passage} (off : w.calledOff = some moment)
    (ended : (cl.chronicle probePlace index happenings).past[i]? = some x)
    (early : moment < x.ended + w.interval) :
    (cl.chronicle probePlace index happenings).log.attempts.length = i + 1 := by
  have passed := Chronicle.past_of_passage ended
  have least := (List.getElem?_eq_some_iff.mp (CallLog.attempts_of_past passed)).1
  refine Nat.le_antisymm (Nat.le_of_not_lt fun more => ?_) least
  have follows := kept.row.later i _ _ passed (List.getElem?_eq_getElem more)
  have later := follows.later
  have before := follows.on prompted moment off
  change x.ended + w.interval ≤ _ at later
  change _ ≤ max moment x.ended at before
  omega

theorem calledOff (prompted : prompt) (paced : 0 < w.interval) {moment i : Nat} {x : Passage}
    (off : w.calledOff = some moment)
    (ended : (cl.chronicle probePlace index happenings).past[i]? = some x)
    (polls : w.Polls x.ended x.ending) (early : moment < x.ended + w.interval) :
    (∀ r, (cl.live happenings).jobs[index]? = some (.over r) → r = .error Wait.calledOffError) ∧
      (max moment x.ended < (cl.live happenings).now →
        (cl.live happenings).jobs[index]? = some (.over (.error Wait.calledOffError)) ∨
          (cl.live happenings).jobs[index]? = some .gone) := by
  have whole := kept.length_of_calledOff prompted paced off ended early
  have stage := kept.stage
  rw [kept.found]
  generalize cl.chronicle probePlace index happenings = k at stage ended whole
  -- the probe is the last one
  have newest : ∀ {past : List Passage} {last : Passage}, k = ⟨past ++ [last], none⟩ →
    x = last := by
    rintro past last rfl
    have length : past.length = i := by
      simpa [Chronicle.log, CallLog.attempts] using whole
    rw [← length, List.getElem?_concat_length] at ended
    exact (Option.some.inj ended).symm
  cases stage with
  | fresh => cases ended
  | probing a past course =>
    have length : past.length = i := by
      simpa [Chronicle.log, CallLog.attempts] using whole
    have inside := (List.getElem?_eq_some_iff.mp ended).1
    exact absurd inside (by rw [length]; exact Nat.lt_irrefl i)
  | pausing past last _ _ inTime on =>
    obtain rfl := newest rfl
    refine ⟨by simp, fun late => ?_⟩
    have now := on prompted moment off
    omega
  | starved past rested =>
    obtain rfl | ⟨past, last, rfl⟩ := List.eq_nil_or_concat' past
    · cases ended
    · obtain rfl := newest rfl
      have later := (rested x List.getLast?_concat).on prompted moment off
      omega
  | returned past last final =>
    obtain rfl := newest rfl
    exact absurd polls final
  | calledOff past last moment' _ _ _ _ => exact ⟨by simp, fun _ => .inl rfl⟩
  | gone k => exact ⟨by simp, fun _ => .inr rfl⟩

theorem ends (prompted : prompt) (present : .event (.abandon index) ∉ happenings)
    (free : ∀ part, part <+: happenings → (cl.live part).correlator.allocate ≠ none)
    (late : w.started + w.maxWait + w.probeTimeout < (cl.live happenings).now) :
    ∃ r, (cl.live happenings).jobs[index]? = some (.over r) := by
  have stage := kept.stage
  have row := kept.row
  have present' := kept.tells.present
  generalize cl.chronicle probePlace index happenings = k at stage row present'
  cases stage with
  | fresh started onTime =>
    have now := onTime prompted
    omega
  | probing a past course =>
    obtain ⟨course', current, guides⟩ := present' a rfl
    obtain rfl := Option.some.inj current
    have began :=
      Wait.Row.moment_le row prompted (Chronicle.mem_attempts.mpr (.inr ⟨course, rfl, rfl⟩))
    have inTime := guides.early prompted
    have deadline := guides.deadline
    change course.began ≤ _ at began
    omega
  | pausing past last polls ended inTime on =>
    have now := inTime prompted
    have left := polls.left
    omega
  | starved past rested =>
    obtain ⟨part, leads, full⟩ := kept.starved rfl
    exact absurd full (free part leads)
  | returned past last final => exact ⟨_, kept.found⟩
  | calledOff past last moment polls off passed brief => exact ⟨_, kept.found⟩
  | gone k => exact absurd (kept.gone rfl) present

theorem law (orderly : (cl.live happenings).Orderly) :
    ReadinessLaw w sound prompt cl index happenings (cl.chronicle probePlace index happenings) where
  sends := kept.sends
  alone b member := by
    have among : Wait.request.sending b.ticket ∈ cl.posted index happenings := by
      rw [kept.sends]
      exact List.mem_map_of_mem member
    exact posted_alone orderly among
  tickets := by
    have distinct : ((cl.posted index happenings).map Sending.ticket).Nodup := posted_nodup orderly
    rw [kept.sends, Chronicle.sends, List.map_map] at distinct
    exact distinct
  first := kept.row.first
  later := kept.row.later
  count paced := Wait.Row.count kept.row kept.lasted paced
  explained so x member := (kept.tells.past x member).explained so
  own x member := (kept.tells.past x member).own
  brief so x member := (kept.tells.past x member).brief so
  result _ returned := kept.result returned
  decides _ member final := kept.decides member final
  calledOff prompted paced _ _ _ off ended polls early :=
    ⟨kept.length_of_calledOff prompted paced off ended early,
      kept.calledOff prompted paced off ended polls early⟩
  ends := kept.ends
  lapses x member := (kept.tells.past x member).lapsed.pending
  lapsesAll left b member := by
    have idle : probePlace.at? job = none := by
      rw [kept.found] at left
      rcases left with ⟨r, same⟩ | same
      · cases same
        rfl
      · cases same
        rfl
    have tells := kept.tells
    rw [idle] at tells
    exact (tells.lapsed member).pending

end WaitKept

/-- Every wait for the backend obeys the law, whatever the configuration, whenever it is
called off, what happened before and whatever happens from then on. -/
theorem readinessLaw_waitReady (settings : Settings) (before : List Happening)
    (callOffAfter : Option Nat) (later : List Happening) :
    ReadinessLaw (settings.waitAt (live { settings } before).now callOffAfter)
      (Ordinary settings (before ++ .event (.start (.waitReady callOffAfter)) :: later))
      ((opening settings before (.waitReady callOffAfter)).keepsUp
        (live { settings } before).jobs.length later = true)
      (opening settings before (.waitReady callOffAfter))
      (live { settings } before).jobs.length later
      ((opening settings before (.waitReady callOffAfter)).chronicle probePlace
        (live { settings } before).jobs.length later) := by
  obtain ⟨job, kept⟩ := wait_kept_run settings before callOffAfter later
  exact kept.law (orderly_opening settings before _ later)

/-- A wait that sends two probes, neither of them answered, and is called off at the end
of the pause between them. -/
def calledOffLate : List Happening :=
  [.event (.advance 0), .event (.pass 5), .event (.advance 0), .event (.pass 15),
    .event (.favour false), .event (.advance 0), .event (.pass 20), .event (.advance 0),
    .event (.advance 0), .event (.pass 21)]

/-- Settings that leave time for four probes. -/
def patient : Settings :=
  { readiness := { interval := 10, probeTimeout := 5, maxWait := 40 } }

/-- The second probe, which may still begin, is the last one. -/
theorem readinessLaw_calledOffLate :
    let cl := opening patient [] (.waitReady (some 15))
    let k := cl.chronicle probePlace 0 calledOffLate
    Ordinary patient ([] ++ .event (.start (.waitReady (some 15))) :: calledOffLate) ∧
      cl.keepsUp 0 calledOffLate = true ∧
      k.log.attempts.length = 2 ∧
      (∀ x ∈ k.past, x.course.Explains 5 x.ended x.ending ∧ x.ended ≤ x.course.began + 5) ∧
      ((cl.live calledOffLate).jobs[0]? = some (.over (.error Wait.calledOffError)) ∨
        (cl.live calledOffLate).jobs[0]? = some .gone) := by
  have ordinary :
      Ordinary patient ([] ++ .event (.start (.waitReady (some 15))) :: calledOffLate) :=
    ⟨by decide, by simp [calledOffLate]⟩
  have prompt : (opening patient [] (.waitReady (some 15))).keepsUp 0 calledOffLate = true := by
    decide
  have law := readinessLaw_waitReady patient [] (some 15) calledOffLate
  obtain ⟨x, second, ended, ending⟩ :
      ∃ x, ((opening patient [] (.waitReady (some 15))).chronicle probePlace 0
        calledOffLate).past[1]? = some x ∧ x.ended = 20 ∧ x.ending = .expired :=
    ⟨_, rfl, rfl, rfl⟩
  have polls : (patient.waitAt 0 (some 15)).Polls x.ended x.ending := by
    rw [ended, ending]
    exact ⟨⟨_, rfl, rfl⟩, by decide⟩
  obtain ⟨count, _, settles⟩ :=
    law.calledOff prompt (by decide) 15 1 x rfl second polls (by rw [ended]; decide)
  refine ⟨ordinary, prompt, count, ?_, settles ?_⟩
  · intro x member
    exact ⟨law.explained ordinary x member, law.brief prompt x member⟩
  · rw [ended]
    decide

end Client

end ProxyConsole
