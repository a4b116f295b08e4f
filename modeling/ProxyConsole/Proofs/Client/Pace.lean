import ProxyConsole.Proofs.Client.Trials

/-!
# When the attempts of a call begin and end

A schedule is punctual for a job if no time passes while the job can go on, nor beyond
the moment the job asks to be woken at.  Under such a schedule an attempt ends within
its time, and the next one begins a pause later, so the end of each attempt is bounded
by its number.
-/

set_option autoImplicit false

namespace ProxyConsole

/-! ## Attempts in a row -/

/-- The first attempt is as `first` says, and each other one stands to the one before as
`link` says. -/
structure CallLog.Linked (first : Begun → Prop) (link : Trial → Begun → Prop) (log : CallLog) :
    Prop where
  first : ∀ b, log.attempts[0]? = some b → first b
  later : ∀ i t b, log.past[i]? = some t → log.attempts[i + 1]? = some b → link t b

namespace CallLog.Linked

variable {first first' : Begun → Prop} {link link' : Trial → Begun → Prop} {log : CallLog}
  {past : List Trial} {begun : Begun}

theorem empty : Linked first link {} := by
  constructor <;> simp [CallLog.attempts]

theorem mono (linked : Linked first link log) (weaker : ∀ b, first b → first' b)
    (weaker' : ∀ t b, link t b → link' t b) : Linked first' link' log where
  first b found := weaker b (linked.first b found)
  later i t b ended found := weaker' t b (linked.later i t b ended found)

theorem of_begin (linked : Linked first link ⟨past, none⟩) (starts : past = [] → first begun)
    (follows : ∀ t, past.getLast? = some t → link t begun) :
    Linked first link ⟨past, some begun⟩ := by
  have old : ∀ {i : Nat} {b : Begun}, (past.map Trial.begun)[i]? = some b →
      (CallLog.attempts ⟨past, none⟩)[i]? = some b := by
    intro i b found
    rw [CallLog.attempts_idle]
    exact found
  refine ⟨?_, ?_⟩
  · intro b found
    rcases Positions.getElem?_concat_cases found with earlier | ⟨last, rfl⟩
    · exact linked.first b (old earlier)
    · rw [List.length_map] at last
      exact starts (List.length_eq_zero_iff.mp last.symm)
  · intro i t b ended found
    rcases Positions.getElem?_concat_cases found with earlier | ⟨last, rfl⟩
    · exact linked.later i t b ended (old earlier)
    · refine follows t ?_
      rw [List.length_map] at last
      rw [List.getLast?_eq_getElem?, ← last, Nat.add_sub_cancel]
      exact ended

theorem of_finish (linked : Linked first link ⟨past, some begun⟩) (ended : Nat) (ending : Ending) :
    Linked first link ⟨past ++ [⟨begun, ended, ending⟩], none⟩ := by
  have same := CallLog.attempts_finish past begun ended ending
  refine ⟨?_, ?_⟩
  · rw [same]
    exact linked.first
  · intro i t b finished found
    rw [same] at found
    rcases Positions.getElem?_concat_cases finished with earlier | ⟨last, rfl⟩
    · exact linked.later i t b earlier found
    · -- nothing has begun after the attempt that ends
      have bound := (List.getElem?_eq_some_iff.mp found).1
      simp only [CallLog.attempts, List.length_append, List.length_map, Option.toList_some,
        List.length_singleton] at bound
      omega

end CallLog.Linked

/-! ## Spaced attempts -/

/-- When the next attempt begins: with the call, or a pause after the last attempt. -/
def CallPlan.nextBegin {α : Type} (p : CallPlan α) (start : Nat) (past : List Trial) : Nat :=
  match past.getLast? with
  | none => start
  | some last => last.ended + p.backoff

@[simp]
theorem CallPlan.nextBegin_concat {α : Type} (p : CallPlan α) (start : Nat) (past : List Trial)
    (last : Trial) : p.nextBegin start (past ++ [last]) = last.ended + p.backoff := by
  rw [nextBegin, List.getLast?_concat]

/-- The first attempt begins with the call, each other one a pause after the end of the one
before, and each ends within its time. -/
structure CallLog.Spaced {α : Type} (p : CallPlan α) (start : Nat) (log : CallLog) : Prop where
  first : ∀ b, log.attempts[0]? = some b → b.moment = start
  later : ∀ i t b, log.past[i]? = some t → log.attempts[i + 1]? = some b →
    b.moment = t.ended + p.backoff
  brief : ∀ t ∈ log.past, t.ended ≤ t.begun.moment + p.timeout

namespace CallLog.Spaced

variable {α : Type} {p : CallPlan α} {start : Nat} {past : List Trial} {begun : Begun}

theorem empty : Spaced p start {} := by
  constructor <;> simp [CallLog.attempts]

theorem linked {log : CallLog} (spaced : Spaced p start log) :
    log.Linked (·.moment = start) fun t b => b.moment = t.ended + p.backoff :=
  ⟨spaced.first, spaced.later⟩

theorem of_begin (spaced : Spaced p start ⟨past, none⟩)
    (next : begun.moment = p.nextBegin start past) : Spaced p start ⟨past, some begun⟩ := by
  have linked : CallLog.Linked (·.moment = start) (fun t b => b.moment = t.ended + p.backoff)
      ⟨past, some begun⟩ := by
    refine spaced.linked.of_begin ?_ fun t newest => ?_
    · rintro rfl
      exact next
    · rw [next, CallPlan.nextBegin, newest]
  exact ⟨linked.first, linked.later, spaced.brief⟩

theorem of_finish (spaced : Spaced p start ⟨past, some begun⟩) {ended : Nat} (ending : Ending)
    (within : ended ≤ begun.moment + p.timeout) :
    Spaced p start ⟨past ++ [⟨begun, ended, ending⟩], none⟩ := by
  obtain ⟨first, later⟩ := spaced.linked.of_finish ended ending
  refine ⟨first, later, ?_⟩
  intro t member
  rcases List.mem_append.mp member with earlier | last
  · exact spaced.brief t earlier
  · rw [List.mem_singleton.mp last]
    exact within

variable {log : CallLog}

theorem begun_le (spaced : Spaced p start log) {i : Nat} {b : Begun}
    (found : log.attempts[i]? = some b) :
    b.moment ≤ start + i * (p.timeout + p.backoff) := by
  induction i generalizing b with
  | zero =>
    rw [spaced.first b found]
    exact Nat.le_add_right _ _
  | succ i ih =>
    obtain ⟨t, ended⟩ := CallLog.past_of_attempts found
    have began := ih (CallLog.attempts_of_past ended)
    have ends := spaced.brief t (List.mem_of_getElem? ended)
    rw [spaced.later i t b ended found, Nat.succ_mul]
    omega

theorem ended_le (spaced : Spaced p start log) {i : Nat} {t : Trial}
    (found : log.past[i]? = some t) :
    t.ended ≤ start + (i + 1) * p.timeout + i * p.backoff := by
  have began := spaced.begun_le (CallLog.attempts_of_past found)
  have ends := spaced.brief t (List.mem_of_getElem? found)
  rw [Nat.mul_add] at began
  rw [Nat.succ_mul]
  omega

theorem nextBegin_le (spaced : Spaced p start ⟨past, none⟩) :
    p.nextBegin start past ≤ start + past.length * (p.timeout + p.backoff) := by
  rcases List.eq_nil_or_concat' past with rfl | ⟨earlier, last, rfl⟩
  · exact Nat.le_add_right start _
  · have ended := spaced.ended_le (i := earlier.length) (t := last) List.getElem?_concat_length
    rw [CallPlan.nextBegin_concat, List.length_append, List.length_singleton, Nat.mul_add]
    rw [Nat.succ_mul] at ended ⊢
    rw [Nat.succ_mul]
    omega

end CallLog.Spaced

namespace Client

/-! ## Punctual schedules -/

/-- Whether an event keeps a job from nothing: time passes only while the job has nothing to
do, and not beyond the moments it asks to be woken at. -/
def isPrompt (cl : Client) (index : Nat) : ClientEvent → Bool
  | .pass moment =>
    (cl.stepJob index).isNone && ((cl.jobs[index]?).elim [] Job.due).all (moment ≤ ·)
  | _ => true

/-- No event of a sequence delays the job at an index. -/
def punctual (cl : Client) (index : Nat) (events : List ClientEvent) : Bool :=
  cl.watch (fun cl event so => so && cl.isPrompt index event) true events

theorem punctual_concat {cl : Client} {index : Nat} {events : List ClientEvent}
    {event : ClientEvent} (punctual : cl.punctual index (events ++ [event]) = true) :
    cl.punctual index events = true ∧ (cl.run events).isPrompt index event = true := by
  rw [Client.punctual, watch_concat, Bool.and_eq_true] at punctual
  exact punctual

/-! ## Calls under punctual schedules -/

/-- What a call waits for, and that it is not late. -/
inductive Awaits (p : CallPlan Reply) (after : Aftermath) (start now : Nat) :
    Job → CallLog → Prop where
  | fresh (early : now = start) : Awaits p after start now (.newCall p after) {}
  | deadline (number : Nat) (a : Attempt) (past : List Trial) (begun : Begun)
      (deadline : a.deadline = begun.moment + p.timeout) (early : now ≤ a.deadline) :
      Awaits p after start now (.call p after (.attempting number a)) ⟨past, some begun⟩
  | pause (number resume : Nat) (past : List Trial) (next : resume = p.nextBegin start past)
      (early : now ≤ resume) :
      Awaits p after start now (.call p after (.pausing number resume)) ⟨past, none⟩
  | starved (log : CallLog) : Awaits p after start now (.call p after .starved) log
  | returned (result : Except CallError Reply) (log : CallLog) :
    Awaits p after start now (.over result) log
  | gone (log : CallLog) : Awaits p after start now .gone log

variable {p : CallPlan Reply} {after : Aftermath} {cl : Client} {index : Nat} {event : ClientEvent}
  {start : Nat} {job job' : Job} {log log' : CallLog}

theorem Awaits.still (awaits : Awaits p after start cl.now job log)
    (found : cl.jobs[index]? = some job) (prompt : cl.isPrompt index event = true) :
    Awaits p after start (cl.step event).now job log := by
  by_cases passes : ∃ moment, event = .pass moment
  · obtain ⟨moment, rfl⟩ := passes
    simp only [isPrompt, found, Option.elim_some, Bool.and_eq_true, Option.isNone_iff_eq_none,
      List.all_eq_true, decide_eq_true_eq] at prompt
    obtain ⟨idle, due⟩ := prompt
    have now : (cl.step (.pass moment)).now = max cl.now moment := rfl
    rw [now]
    cases awaits with
    | fresh early =>
      simp only [stepJob, found] at idle
      cases idle
    | deadline number a past begun deadline early =>
      exact .deadline number a past begun deadline
        (Nat.max_le.mpr ⟨early, due _ List.mem_cons_self⟩)
    | pause number resume past next early =>
      exact .pause number resume past next (Nat.max_le.mpr ⟨early, due _ List.mem_cons_self⟩)
    | starved => exact .starved log
    | returned result => exact .returned result log
    | gone => exact .gone log
  · rw [cl.step_now fun moment same => passes ⟨moment, same⟩]
    exact awaits

/-- A call is spaced and not late, and stays so. -/
structure Paced (p : CallPlan Reply) (after : Aftermath) (start now : Nat) (job : Job)
    (log : CallLog) : Prop where
  spaced : log.Spaced p start
  awaits : Awaits p after start now job log

theorem Paced.turn (paced : Paced p after start cl.now job log)
    (found : cl.jobs[index]? = some job) (prompt : cl.isPrompt index event = true)
    (turn : CallTurn p after cl index event job log job' log') :
    Paced p after start (cl.step event).now job' log' := by
  obtain ⟨spaced, awaits⟩ := paced
  cases turn with
  | same => exact ⟨spaced, awaits.still found prompt⟩
  | hears number a log t result heard =>
    refine ⟨spaced, ?_⟩
    rw [cl.step_now (by rw [heard]; simp)]
    cases awaits with
    | deadline _ _ past begun deadline early =>
      have same := a.transmitted_deadline t result
      refine .deadline number _ past begun ?_ ?_
      · rw [same, deadline]
      · rw [same]
        exact early
  | gone => exact ⟨spaced, .gone log⟩
  | begins _ _ number a own waited deadline sent =>
    rw [cl.step_now (by rw [own]; simp)]
    have timely : ∃ past, log = ⟨past, none⟩ ∧ cl.now = p.nextBegin start past := by
      rcases waited with ⟨rfl, rfl⟩ | ⟨resume, rfl, ready⟩
      · cases awaits with
        | fresh early => exact ⟨[], rfl, early⟩
      · cases awaits with
        | pause _ _ past next early =>
          exact ⟨past, rfl, by rw [← next]; exact Nat.le_antisymm early ready⟩
    obtain ⟨past, rfl, now⟩ := timely
    refine ⟨spaced.of_begin now, .deadline _ a past _ deadline ?_⟩
    rw [deadline]
    exact Nat.le_add_right _ _
  | starves => exact ⟨spaced, .starved log⟩
  | retries number a past begun ending own ended retryable left quiet =>
    rw [cl.step_now (by rw [own]; simp)]
    cases awaits with
    | deadline _ _ _ _ deadline early =>
      refine ⟨spaced.of_finish ending (by rw [← deadline]; exact early), ?_⟩
      refine .pause number _ _ ?_ (Nat.le_add_right _ _)
      rw [CallPlan.nextBegin_concat]
  | ends number a past begun ending own ended final quiet =>
    cases awaits with
    | deadline _ _ _ _ deadline early =>
      exact ⟨spaced.of_finish ending (by rw [← deadline]; exact early), .returned _ _⟩

/-- A call that has had the time for all its attempts and the pauses between them is over,
unless it is given up or starves. -/
theorem Paced.late {now : Nat} (paced : Paced p after start now job log)
    (stage : Stage p after job log)
    (late : start + p.attempts * p.timeout + (p.attempts - 1) * p.backoff < now) :
    (∃ result, job = .over result) ∨ job = .gone ∨ job = .call p after .starved := by
  obtain ⟨spaced, awaits⟩ := paced
  -- an attempt within the budget leaves time for its own length
  have reach : ∀ {k : Nat}, k < p.attempts →
      start + k * (p.timeout + p.backoff) + p.timeout < now := by
    intro k within
    obtain ⟨m, total⟩ := Nat.exists_eq_succ_of_ne_zero (Nat.ne_of_gt (Nat.zero_lt_of_lt within))
    have fewer : k * (p.timeout + p.backoff) ≤ m * (p.timeout + p.backoff) :=
      Nat.mul_le_mul_right _ (by omega)
    rw [total, Nat.succ_mul, Nat.succ_sub_one] at late
    rw [Nat.mul_add m] at fewer
    omega
  cases awaits with
  | fresh early => omega
  | deadline number a past begun deadline early =>
    cases stage with
    | attempting _ _ moment retried within =>
      have began := spaced.begun_le (i := past.length) (b := ⟨a.ticket, moment⟩)
        (by simp [CallLog.attempts])
      have passed := reach within
      dsimp only at deadline began
      omega
  | pause number resume past next early =>
    cases stage with
    | pausing _ _ retried within =>
      have begins := spaced.nextBegin_le
      have passed := reach within
      omega
  | starved => exact Or.inr (Or.inr rfl)
  | returned result => exact Or.inl ⟨result, rfl⟩
  | gone => exact Or.inr (Or.inl rfl)

end Client

end ProxyConsole
