import ProxyConsole.Proofs.Client.FirstAttempt

/-!
# One attempt from its beginning to its end

An attempt has one deadline for its send and its wait together.  Under any schedule of
responses and cancellations, what it returns is what its course decides, and it returns
in time.  Whatever it comes to, and also if it is given up midway, its id is not pending
afterwards.
-/

set_option autoImplicit false

namespace ProxyConsole

/-- A single attempt, as a call. -/
def attemptPlan (request : Request) (timeout : Nat) : CallPlan Reply where
  request := request
  timeout := timeout
  attempts := 1
  backoff := 0
  decode body := .ok (.text body)

/-- What a single attempt returns for the way it ends. -/
def Ending.returned (request : Request) (timeout : Nat) : Ending → Except CallError Reply
  | .refused e =>
    .error (if e.kind = .notReady then .backendNotReady e.message else .transport e)
  | .answered e => e.classify.map .text
  | .cancelled =>
    .error (.transport ⟨.closed, "pending request cancelled before a response arrived"⟩)
  | .expired => .error (.timedOut request.path (Duration.ofMillis timeout))

theorem attemptPlan_outcome (request : Request) (timeout : Nat) (ending : Ending) :
    (attemptPlan request timeout).outcome ending = ending.returned request timeout := by
  cases ending with
  | refused e =>
    simp only [CallPlan.outcome, Ending.received, CallError.ofTransport, Ending.returned]
    cases e.kind <;> rfl
  | answered e =>
    simp only [CallPlan.outcome, Ending.received, Ending.returned]
    cases e.classify <;> rfl
  | cancelled => rfl
  | expired => rfl

theorem InboundEnvelope.hasSuccessStatus_iff (e : InboundEnvelope) :
    e.hasSuccessStatus = true ↔ e.status.toNat = 0 ∨
      (200 ≤ e.status.toNat ∧ e.status.toNat ≤ 299) := by
  simp only [hasSuccessStatus, Bool.or_eq_true, beq_iff_eq, Bool.and_eq_true, decide_eq_true_eq,
    ← UInt16.toNat_inj, UInt16.le_iff_toNat_le, UInt16.lt_iff_toNat_lt]
  exact or_congr Iff.rfl (and_congr Iff.rfl Nat.lt_succ_iff)

/-- A response is accepted with its body as it is if it reports success and has no status,
or one from 200 to 299. -/
theorem InboundEnvelope.classify_ok_iff (e : InboundEnvelope) (body : String) :
    e.classify = .ok body ↔ e.success = true ∧
      (e.status.toNat = 0 ∨ (200 ≤ e.status.toNat ∧ e.status.toNat ≤ 299)) ∧ body = e.body := by
  rw [← e.hasSuccessStatus_iff, classify]
  cases success : e.success with
  | false =>
    simp only [Bool.not_false, if_true, Bool.false_eq_true, false_and, iff_false]
    split <;> simp
  | true =>
    cases accepted : e.hasSuccessStatus with
    | false => simp
    | true => simp [eq_comm]

namespace Client

open ProxyConsole.Positions

section Turn

variable {prompt : Prop} {request : Request} {timeout : Nat} {cl : Client} {index : Nat} {job : Job}
  {a : Attempt} {course : Course} {h : Happening}

/-- An attempt that begins is registered, and its request starts to be sent. -/
structure Begins (request : Request) (timeout : Nat) (cl cl' : Client) (index : Nat)
    (a : Attempt) : Prop where
  job : cl'.jobs[index]? = some (.call (attemptPlan request timeout) {} (.attempting 1 a))
  unsent : a.transmission = none
  deadline : a.deadline = cl.now + timeout
  sends : cl'.sends = cl.sends ++ [⟨a.ticket, request.envelope a.ticket.id⟩]
  pending : a.ticket ∈ cl'.correlator.pending
  now : cl'.now = cl.now

/-- Before the ids come round, the first turn of an attempt lets it begin. -/
theorem begins_of_fresh (counted : cl.Counted) (shape : cl.correlator.WellFormed)
    (few : cl.correlator.registered < RequestId.count)
    (found : cl.jobs[index]? = some (.newCall (attemptPlan request timeout) {})) :
    ∃ a, Begins request timeout cl (cl.step (.advance index)) index a := by
  obtain ⟨t, c, allocated, _⟩ := counted.unwrapped.allocate shape few
  obtain ⟨_, _, pending, _, _⟩ := Correlator.allocate_cases allocated
  have stepped : cl.step (.advance index) = cl.moveJob index
      (.call (attemptPlan request timeout) {} (.attempting 1 ⟨t, cl.now + timeout, none⟩))
      [⟨t, request.envelope t.id⟩] c := by
    simp only [step, stepJob, found, CallPlan.start, CallPlan.beginAttempt, Attempt.begin?,
      allocated, attemptPlan, Option.getD_some]
  rw [stepped]
  refine ⟨⟨t, cl.now + timeout, none⟩, ?_, rfl, rfl, rfl, ?_, rfl⟩
  · exact getElem?_set_of_some _ found
  · change t ∈ c.pending
    rw [pending]
    exact List.mem_append_right _ (List.mem_singleton.mpr rfl)

/-! ## What the standing of an attempt tells -/

theorem Standing.explained {result : Except CallError Reply} {seen : Option Course}
    (standing : Standing prompt (attemptPlan request timeout) {} cl (.over result) seen) :
    ∃ course ended ending, seen = some course ∧ course.ended = some ended ∧
      course.Explains timeout ended ending ∧ result = ending.returned request timeout ∧
        (prompt → ended ≤ course.began + timeout) := by
  cases standing with
  | settled course ended ending noted concluded =>
    rw [attemptPlan_outcome]
    exact ⟨course, ended, ending, rfl, noted, concluded.explained trivial, rfl, concluded.brief⟩
  | failed _ _ _ _ _ _ left => exact absurd left (Nat.lt_irrefl 1)

theorem Standing.left_of_late
    (standing : Standing prompt (attemptPlan request timeout) {} cl job (some course))
    (prompted : prompt) (late : course.began + timeout < cl.now) :
    (∃ result, job = .over result) ∨ job = .gone := by
  cases standing with
  | under a _ guides =>
    have early := guides.early prompted
    have deadline : a.deadline = course.began + timeout := guides.deadline
    omega
  | settled => exact .inl ⟨_, rfl⟩
  | failed _ _ _ _ _ _ left => exact absurd left (Nat.lt_irrefl 1)
  | givenUp => exact .inr rfl

theorem ending?_of_late {c : Correlator} {now : Nat} (late : a.deadline ≤ now) :
    a.ending? now c ≠ none := by
  simp only [Attempt.ending?, if_pos late]
  split
  · simp
  · simp
  · split <;> simp

theorem Standing.expires
    (standing : Standing prompt (attemptPlan request timeout) {} cl job (some course))
    (found : cl.jobs[index]? = some job) (late : course.began + timeout ≤ cl.now)
    (present : job ≠ .gone) :
    ∃ result, (cl.meet (.event (.advance index))).jobs[index]? = some (.over result) := by
  obtain ⟨job', found', fares⟩ := meet_fares found (.event (.advance index))
  rw [found']
  cases standing with
  | under a _ guides goesOn =>
    cases fares with
    | same deaf still present =>
      have steps := (attemptPlan request timeout).step_cases (.attempting 1 a) cl.now cl.correlator
      have idle := still rfl
      simp only [stepJob, found] at idle
      split at idle
      · rename_i stays
        rw [stays] at steps
        cases steps with
        | attempts _ _ under => exact absurd under (ending?_of_late (guides.deadline ▸ late))
      · cases idle
      · cases idle
    | goes _ own goes =>
      obtain ⟨ending, _, _, rfl | ⟨_, left⟩⟩ := goes.concludes
      · exact ⟨_, rfl⟩
      · exact absurd left (Nat.lt_irrefl 1)
    | hears t result heard => cases heard
    | gone given => cases given
  | settled =>
    cases fares with
    | goes _ own goes => exact absurd rfl (goes.turn.unsettled.2 _)
    | gone given => cases given
    | _ => exact ⟨_, rfl⟩
  | failed _ _ _ _ _ _ left => exact absurd left (Nat.lt_irrefl 1)
  | givenUp => exact absurd rfl present

theorem Standing.begins
    (standing : Standing prompt (attemptPlan request timeout) {} cl job none)
    (found : cl.jobs[index]? = some job) (counted : cl.Counted) (shape : cl.correlator.WellFormed)
    (few : cl.correlator.registered < RequestId.count) (present : job ≠ .gone) :
    ∃ a, Begins request timeout cl (cl.meet (.event (.advance index))) index a := by
  cases standing with
  | fresh => exact begins_of_fresh counted shape few found
  | unbegun => exact absurd rfl present

end Turn

/-! ## A whole run -/

variable {settings : Settings} {before later : List Happening} {request : Request} {timeout : Nat}

/-- The client in which an attempt has just been started. -/
def attempting (settings : Settings) (before : List Happening) (request : Request) (timeout : Nat) :
    Client :=
  (live { settings } before).meet (.event (.start (.attempt request timeout)))

/-- What becomes of a single attempt of a client, the job at an index, after some
happenings: `cl` is the client in which it was started. -/
structure OneAttempt (cl : Client) (index : Nat) (request : Request) (timeout : Nat)
    (happenings : List Happening) : Prop where
  begins : cl.course index happenings = none → (cl.live happenings).jobs[index]? ≠ some .gone →
    ∃ a, Begins request timeout (cl.live happenings)
      ((cl.live happenings).meet (.event (.advance index))) index a
  posts : ∀ course, cl.course index happenings = some course →
    ⟨course.ticket, request.envelope course.ticket.id⟩ ∈ (cl.live happenings).sends
  returns : ∀ result, (cl.live happenings).jobs[index]? = some (.over result) →
    ∃ course ended ending, cl.course index happenings = some course ∧ course.ended = some ended ∧
      course.Explains timeout ended ending ∧ result = ending.returned request timeout
  /-- If nothing delays it, and apart from ties with its deadline, its course decides what
  it returns. -/
  decided : cl.keepsUp index happenings = true → ∀ course,
    cl.course index happenings = some course → course.Untied timeout → ∀ result,
      (cl.live happenings).jobs[index]? = some (.over result) →
        result = (course.verdict timeout).returned request timeout
  accepts : ∀ (e : InboundEnvelope) (body : String),
    (Ending.answered e).returned request timeout = .ok (.text body) ↔ e.success = true ∧
      (e.status.toNat = 0 ∨ (200 ≤ e.status.toNat ∧ e.status.toNat ≤ 299)) ∧ body = e.body
  /-- From its deadline on, its next turn is its last. -/
  expires : ∀ course, cl.course index happenings = some course →
    course.began + timeout ≤ (cl.live happenings).now →
      (cl.live happenings).jobs[index]? ≠ some .gone →
        ∃ result, ((cl.live happenings).meet (.event (.advance index))).jobs[index]? =
          some (.over result)
  brief : cl.keepsUp index happenings = true → ∀ course,
    cl.course index happenings = some course →
      (∀ result, (cl.live happenings).jobs[index]? = some (.over result) →
        ∃ ended, course.ended = some ended ∧ ended ≤ course.began + timeout) ∧
      (course.began + timeout < (cl.live happenings).now →
        (∃ result, (cl.live happenings).jobs[index]? = some (.over result)) ∨
          (cl.live happenings).jobs[index]? = some .gone)
  /-- Once it is over or given up its id is not pending, and a response with it changes nothing. -/
  lapses : ∀ course, cl.course index happenings = some course →
    ((∃ result, (cl.live happenings).jobs[index]? = some (.over result)) ∨
      (cl.live happenings).jobs[index]? = some .gone) →
      (cl.live happenings).correlator.contains course.ticket.id = false ∧
        ∀ e : InboundEnvelope, e.requestId = course.ticket.id →
          (cl.live happenings).correlator.dispatch e = (false, (cl.live happenings).correlator)

/-- An attempt ends by its course whatever is dispatched or cancelled meanwhile. -/
theorem oneAttempt (settings : Settings) (before : List Happening) (request : Request)
    (timeout : Nat) (later : List Happening)
    (ordinary : Ordinary settings (before ++ .event (.start (.attempt request timeout)) :: later)) :
    OneAttempt (attempting settings before request timeout) (live { settings } before).jobs.length
      request timeout later := by
  have accepted : (Operation.attempt request timeout).script settings =
      .ok (.call (attemptPlan request timeout) {}) := rfl
  obtain ⟨job, found, standing⟩ := standing_after accepted ordinary
  have opened : opening settings before (.attempt request timeout) =
      attempting settings before request timeout := rfl
  rw [opened] at found standing
  have here : live { settings } (before ++ .event (.start (.attempt request timeout)) :: later) =
      (attempting settings before request timeout).live later :=
    live_append _ before _
  have counted := ordinary.counted
  have few := ordinary.few
  have discards := fun {s} => ordinary.dispatch_discards (s := s)
  have orderly := orderly_live settings
    (before ++ .event (.start (.attempt request timeout)) :: later)
  rw [here] at counted few discards orderly
  generalize attempting settings before request timeout = cl at *
  generalize (live { settings } before).jobs.length = index at *
  constructor
  case begins =>
    intro unbegun present
    rw [unbegun] at standing
    exact standing.begins found counted orderly.sent.shape few fun same => present (same ▸ found)
  case posts =>
    intro course seen
    rw [seen] at standing
    exact standing.posted
  case returns =>
    intro result settled
    obtain rfl := Option.some.inj (found.symm.trans settled)
    obtain ⟨course, ended, ending, seen, noted, explained, returned, _⟩ := standing.explained
    exact ⟨course, ended, ending, seen, noted, explained, returned⟩
  case decided =>
    intro prompt course seen untied result settled
    obtain rfl := Option.some.inj (found.symm.trans settled)
    obtain ⟨course', ended, ending, seen', _, explained, returned, brief⟩ := standing.explained
    obtain rfl := Option.some.inj (seen.symm.trans seen')
    rw [explained.verdict (brief prompt) untied]
    exact returned
  case accepts =>
    intro e body
    rw [← e.classify_ok_iff, Ending.returned]
    cases e.classify with
    | error _ => simp [Except.map]
    | ok _ => simp [Except.map]
  case expires =>
    intro course seen late present
    rw [seen] at standing
    exact standing.expires found late fun same => present (same ▸ found)
  case brief =>
    intro prompt course seen
    constructor
    · intro result settled
      obtain rfl := Option.some.inj (found.symm.trans settled)
      obtain ⟨course', ended, _, seen', noted, _, _, brief⟩ := standing.explained
      obtain rfl := Option.some.inj (seen.symm.trans seen')
      exact ⟨ended, noted, brief prompt⟩
    · intro late
      rw [seen] at standing
      rw [found]
      simpa using standing.left_of_late prompt late
  case lapses =>
    intro course seen left
    rw [seen] at standing
    rw [found] at left
    have lapsed := standing.lapsed (by simpa using left)
    exact discards standing.posted lapsed.pending

/-- The response comes before the send completes, and another one after the end. -/
def earlyResponse : List Happening :=
  [.event (.advance 0), .event (.dispatch (.ok ⟨1⟩ "1")), .event (.pass 4),
    .event (.transmitted ⟨⟨1⟩, 0, 0⟩ (.ok ())), .event (.advance 0),
    .event (.dispatch (.ok ⟨1⟩ "2"))]

theorem oneAttempt_earlyResponse :
    Ordinary {} ([] ++ .event (.start (.attempt (.get "/version") 10)) :: earlyResponse) ∧
      (attempting {} [] (.get "/version") 10).keepsUp 0 earlyResponse = true ∧
      OneAttempt (attempting {} [] (.get "/version") 10) 0 (.get "/version") 10 earlyResponse := by
  have ordinary :
      Ordinary {} ([] ++ .event (.start (.attempt (.get "/version") 10)) :: earlyResponse) :=
    ⟨by decide, by simp [earlyResponse]⟩
  exact ⟨ordinary, by decide, oneAttempt {} [] (.get "/version") 10 earlyResponse ordinary⟩

end Client

end ProxyConsole
