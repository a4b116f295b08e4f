import ProxyConsole.Proofs.Client.Course

/-!
# Attempts under way

A job has places for its attempts: a call has one, a batch of tests has one for each
test.  An attempt at a place begins under a ticket of its own, learns what it is told
whatever happens elsewhere, and ends by its course or is given up; in either case
nothing of it is left behind.
-/

set_option autoImplicit false

namespace ProxyConsole

/-- A place for attempts in a job. -/
structure Place where
  at? : Job → Option Attempt
  inside : ∀ {job a}, at? job = some a → a ∈ job.attempts
  due : ∀ {job a}, at? job = some a → a.deadline ∈ job.due
  hears : ∀ job t result, at? (job.mapAttempt (Attempt.transmitted t result)) =
    (at? job).map (Attempt.transmitted t result)
  gone : at? .gone = none

def Request.sending (request : Request) (t : Ticket) : Sending :=
  ⟨t, request.envelope t.id⟩

/-- An attempt from its beginning to its end, with what was noted of it meanwhile. -/
structure Passage where
  course : Course
  ended : Nat
  ending : Ending

namespace Client

open ProxyConsole.Positions

/-! ## What becomes of a job -/

/-- How a job may stand after a happening. -/
inductive Fares (cl : Client) (index : Nat) (job : Job) (h : Happening) : Job → Prop where
  | same (deaf : ∀ t result, h ≠ .event (.transmitted t result))
      (still : h = .event (.advance index) → cl.stepJob index = none)
      (present : h ≠ .event (.abandon index)) : Fares cl index job h job
  | hears (t : Ticket) (result : Except TransportError Unit)
      (heard : h = .event (.transmitted t result)) :
      Fares cl index job h (job.mapAttempt (Attempt.transmitted t result))
  | gone (given : h = .event (.abandon index))
      (withdrawn : (cl.meet h).correlator = (cl.withdraw job).correlator) :
      Fares cl index job h .gone
  | goes (job' : Job) (own : h = .event (.advance index))
      (goes : cl.JobGoes index job job' (cl.meet h)) : Fares cl index job h job'

theorem meet_fares {cl : Client} {index : Nat} {job : Job} (found : cl.jobs[index]? = some job)
    (h : Happening) : ∃ job', (cl.meet h).jobs[index]? = some job' ∧ cl.Fares index job h job' := by
  cases h with
  | cancel id => exact ⟨job, found, .same (by simp) (by simp) (by simp)⟩
  | event e =>
    by_cases own : e = .advance index
    · subst own
      rcases cl.advance_cases index with ⟨idle, still⟩ | ⟨job₀, job', found₀, goes⟩
      · refine ⟨job, ?_, .same (by simp) (fun _ => idle) (by simp)⟩
        rw [meet, still]
        exact found
      · rw [found] at found₀
        cases found₀
        refine ⟨job', ?_, .goes job' rfl goes⟩
        rw [meet, goes.jobs]
        exact getElem?_set_of_some _ found
    by_cases given : e = .abandon index
    · subst given
      refine ⟨.gone, ?_, .gone rfl ?_⟩
      · simp only [meet, step, abandon, found, setJob, withdraw_jobs]
        exact getElem?_set_of_some _ found
      · simp only [meet, step, abandon, found, setJob]
    by_cases heard : ∃ t result, e = .transmitted t result
    · obtain ⟨t, result, rfl⟩ := heard
      refine ⟨job.mapAttempt (Attempt.transmitted t result), ?_, .hears t result rfl⟩
      have mapped : (cl.jobs.map (Job.mapAttempt (Attempt.transmitted t result)))[index]? =
          some (job.mapAttempt (Attempt.transmitted t result)) := by
        rw [List.getElem?_map, found]
        rfl
      exact mapped
    · obtain ⟨job', found', step⟩ := step_job found e
      refine ⟨job', found', ?_⟩
      cases step with
      | same =>
        refine .same ?_ ?_ ?_
        · rintro t result same
          cases same
          exact heard ⟨t, result, rfl⟩
        · rintro same
          cases same
          exact absurd rfl own
        · rintro same
          cases same
          exact absurd rfl given
      | hears t result heard' => exact absurd ⟨t, result, heard'⟩ heard
      | gone given' => exact absurd given' given
      | turns _ advance turn => exact absurd advance own

theorem Fares.gone_eq {cl : Client} {index : Nat} {h : Happening} {job' : Job}
    (fares : cl.Fares index .gone h job') : job' = .gone := by
  cases fares with
  | goes _ own goes => exact absurd rfl goes.turn.unsettled.1
  | _ => rfl

theorem meet_now_le (cl : Client) (h : Happening) : cl.now ≤ (cl.meet h).now := by
  cases h with
  | cancel id => exact Nat.le_refl _
  | event e => exact cl.run_now_le [e]

section Time

variable {cl : Client} {index : Nat} {job : Job} {h : Happening}

/-- Time passes only while a job that is not delayed has nothing to do, and not beyond what
it waits for. -/
theorem meet_still (found : cl.jobs[index]? = some job) (promptly : cl.isPromptly index h = true) :
    (cl.meet h).now = cl.now ∨
      (cl.stepJob index = none ∧ ∀ moment ∈ job.due, (cl.meet h).now ≤ max cl.now moment) := by
  cases h with
  | cancel id => exact .inl rfl
  | event e =>
    by_cases passes : ∃ moment, e = .pass moment
    · obtain ⟨moment, rfl⟩ := passes
      simp only [isPromptly, isPrompt, found, Option.elim_some, Bool.and_eq_true,
        Option.isNone_iff_eq_none, List.all_eq_true, decide_eq_true_eq] at promptly
      refine .inr ⟨promptly.1, fun due member => ?_⟩
      have bound := promptly.2 due member
      change max cl.now moment ≤ max cl.now due
      omega
    · exact .inl (cl.step_now fun moment same => passes ⟨moment, same⟩)

theorem meet_early {moment : Nat} (found : cl.jobs[index]? = some job) (due : moment ∈ job.due)
    (early : cl.now ≤ moment) (promptly : cl.isPromptly index h = true) :
    (cl.meet h).now ≤ moment := by
  rcases meet_still found promptly with same | ⟨_, limit⟩
  · exact Nat.le_trans (Nat.le_of_eq same) early
  · exact Nat.le_trans (limit moment due) (Nat.max_le.mpr ⟨early, Nat.le_refl _⟩)

end Time

/-! ## What happens at a place -/

/-- All the ways in which a happening can change what stands at a place. -/
inductive PlaceTurn (request : Request) (timeout : Nat) (cl : Client) (index : Nat)
    (h : Happening) : Option Attempt → Option Attempt → Prop where
  | rests : PlaceTurn request timeout cl index h none none
  | keeps (a : Attempt) (deaf : ∀ t result, h ≠ .event (.transmitted t result)) :
      PlaceTurn request timeout cl index h (some a) (some a)
  | hears (a : Attempt) (t : Ticket) (result : Except TransportError Unit)
      (heard : h = .event (.transmitted t result)) :
      PlaceTurn request timeout cl index h (some a) (some (a.transmitted t result))
  | begins (a : Attempt) (own : h = .event (.advance index)) (unsent : a.transmission = none)
      (deadline : a.deadline = cl.now + timeout)
      (allocated : cl.correlator.allocate = some (a.ticket, (cl.meet h).correlator))
      (sends : (cl.meet h).sends = cl.sends ++ [request.sending a.ticket]) :
      PlaceTurn request timeout cl index h none (some a)
  | ends (a : Attempt) (ending : Ending) (own : h = .event (.advance index))
      (ended : a.ending? cl.now cl.correlator = some ending)
      (closed : (cl.meet h).correlator = a.close cl.correlator) :
      PlaceTurn request timeout cl index h (some a) none
  | givesUp (a : Attempt) (given : h = .event (.abandon index))
      (lapsed : (cl.meet h).correlator.Lapsed a.ticket) :
      PlaceTurn request timeout cl index h (some a) none

theorem foldl_release_lapsed {holders : List Attempt} {a : Attempt} (member : a ∈ holders)
    {c : Correlator} (older : a.ticket.serial < c.registered) :
    (holders.foldl (fun c a => c.release a.ticket) c).Lapsed a.ticket := by
  induction holders generalizing c with
  | nil => cases member
  | cons first rest ih =>
    have reduces := c.release_reduces first.ticket
    rw [List.foldl_cons]
    rcases List.mem_cons.mp member with rfl | later
    · obtain ⟨pending, delivered⟩ := c.release_forgets a.ticket
      have lapsed : (c.release a.ticket).Lapsed a.ticket :=
        ⟨reduces.registered ▸ older, pending, delivered⟩
      exact lapsed.evolves (.reduces (Correlator.foldl_release_reduces Attempt.ticket rest _))
    · exact ih later (reduces.registered ▸ older)

theorem withdraw_lapsed {cl : Client} {job : Job} {a : Attempt} (member : a ∈ job.attempts)
    (older : a.ticket.serial < cl.correlator.registered) :
    (cl.withdraw job).correlator.Lapsed a.ticket := by
  have released := foldl_release_lapsed member older
  cases job with
  | awaiting t limit deadline => cases member
  | _ => exact released

variable {request : Request} {timeout : Nat} {cl : Client} {index : Nat} {h : Happening} {job : Job}

/-- A place changes by the step of its own job, or as every place does. -/
theorem place_turn (place : Place) (found : cl.jobs[index]? = some job) (orderly : cl.Orderly)
    (own : ∀ job', cl.JobGoes index job job' (cl.step (.advance index)) →
      PlaceTurn request timeout cl index (.event (.advance index))
        (place.at? job) (place.at? job')) :
    ∃ job', (cl.meet h).jobs[index]? = some job' ∧ cl.Fares index job h job' ∧
      PlaceTurn request timeout cl index h (place.at? job) (place.at? job') := by
  obtain ⟨job', found', fares⟩ := meet_fares found h
  refine ⟨job', found', fares, ?_⟩
  cases fares with
  | same deaf still present =>
    cases place.at? job with
    | none => exact .rests
    | some a => exact .keeps a deaf
  | hears t result heard =>
    rw [place.hears]
    cases place.at? job with
    | none => exact .rests
    | some a => exact .hears a t result heard
  | gone given withdrawn =>
    rw [place.gone]
    cases stands : place.at? job with
    | none => exact .rests
    | some a =>
      have member := place.inside stands
      refine .givesUp a given ?_
      rw [withdrawn]
      exact withdraw_lapsed member (orderly.older (held_of_job found member))
  | goes _ advance goes =>
    subst advance
    exact own job' goes

/-! ## An attempt and its course -/

/-- How an attempt under way stands to its course, `sound` being what keeps the tickets
apart and `prompt` that nothing has delayed the job. -/
structure Guides (request : Request) (timeout : Nat) (sound prompt : Prop) (cl : Client)
    (a : Attempt) (course : Course) : Prop where
  ticket : course.ticket = a.ticket
  deadline : a.deadline = course.began + timeout
  sent : a.transmission = course.sent.map Prod.snd
  told : sound → cl.correlator.status a.ticket =
    TicketStatus.waiting.learn (course.told.map Prod.snd)
  past : course.Past cl.now
  began : course.began ≤ cl.now
  posted : request.sending course.ticket ∈ cl.sends
  early : prompt → cl.now ≤ a.deadline

/-- What holds of an attempt that is over. -/
structure Concluded (request : Request) (timeout : Nat) (sound prompt : Prop) (cl : Client)
    (x : Passage) : Prop where
  posted : request.sending x.course.ticket ∈ cl.sends
  lapsed : cl.correlator.Lapsed x.course.ticket
  lasted : x.course.began ≤ x.ended
  past : x.ended ≤ cl.now
  own : ∀ e, x.ending = .answered e → e.requestId = x.course.ticket.id
  explained : sound → x.course.Explains timeout x.ended x.ending
  brief : prompt → x.ended ≤ x.course.began + timeout

section Note

variable {a : Attempt} {course : Course} {cl : Client} {index : Nat} {h : Happening}

theorem map_snd_or {α : Type} (first : Option (Nat × α)) (next : Option α) (now : Nat) :
    (first.or (next.map fun x => (now, x))).map Prod.snd = (first.map Prod.snd).or next := by
  cases first with
  | some noted => rfl
  | none => cases next <;> rfl

theorem note_told_eq (course : Course) (cl : Client) (index : Nat) (h : Happening) :
    TicketStatus.waiting.learn ((course.note cl index h).told.map Prod.snd) =
      (TicketStatus.waiting.learn (course.told.map Prod.snd)).learn (cl.tells course.ticket h) := by
  rw [TicketStatus.learn_learn, Course.note, map_snd_or]

theorem close_lapsed {c : Correlator} (shape : c.WellFormed)
    (older : a.ticket.serial < c.registered) : (a.close c).Lapsed a.ticket := by
  have registered := (a.close_reduces c).registered
  have forgotten : a.ticket ∉ (a.close c).pending ∧ ∀ e, (a.ticket, e) ∉ (a.close c).delivered := by
    unfold Attempt.close
    split
    · exact Correlator.conclude_forgets shape a.ticket
    · exact c.release_forgets a.ticket
  exact ⟨by rw [registered]; exact older, forgotten.1, forgotten.2⟩

theorem settles_of_deaf (deaf : ∀ t result, h ≠ .event (.transmitted t result)) (t : Ticket) :
    h.settles t = none := by
  unfold Happening.settles
  split
  · rename_i u result
    exact absurd rfl (deaf u result)
  · rfl

theorem transmitted_settles (t : Ticket) (result : Except TransportError Unit) (a : Attempt) :
    (a.transmitted t result).transmission =
      a.transmission.or ((Happening.event (.transmitted t result)).settles a.ticket) := by
  unfold Attempt.transmitted Happening.settles
  cases sent : a.transmission with
  | some result' => simp [sent]
  | none =>
    by_cases own : a.ticket = t
    · simp [own]
    · simp [own, Ne.symm own, sent]

end Note

variable {sound prompt sound' prompt' : Prop} {a : Attempt} {course : Course} {x : Passage}

theorem Concluded.mono (concluded : Concluded request timeout sound prompt cl x)
    (sound_of : sound' → sound) (prompt_of : prompt' → prompt) :
    Concluded request timeout sound' prompt' cl x where
  posted := concluded.posted
  lapsed := concluded.lapsed
  lasted := concluded.lasted
  past := concluded.past
  own := concluded.own
  explained so := concluded.explained (sound_of so)
  brief so := concluded.brief (prompt_of so)

theorem Concluded.meet (concluded : Concluded request timeout sound prompt cl x) (h : Happening) :
    Concluded request timeout sound prompt (cl.meet h) x where
  posted := (cl.meet_sends h).subset concluded.posted
  lapsed := concluded.lapsed.evolves (cl.meet_evolves h)
  lasted := concluded.lasted
  past := Nat.le_trans concluded.past (cl.meet_now_le h)
  own := concluded.own
  explained := concluded.explained
  brief := concluded.brief

theorem PlaceTurn.sent {a' : Attempt}
    (turn : PlaceTurn request timeout cl index h (some a) (some a')) :
    a'.ticket = a.ticket ∧ a'.deadline = a.deadline ∧
      a'.transmission = a.transmission.or (h.settles a.ticket) := by
  cases turn with
  | keeps _ deaf => exact ⟨rfl, rfl, by rw [settles_of_deaf deaf, Option.or_none]⟩
  | hears _ t result heard =>
    refine ⟨transmitted_ticket t result a, a.transmitted_deadline t result, ?_⟩
    rw [heard]
    exact transmitted_settles t result a

/-- An attempt that goes on learns what it is told. -/
theorem Guides.turn {a' : Attempt} (guides : Guides request timeout sound prompt cl a course)
    (turn : PlaceTurn request timeout cl index h (some a) (some a')) (orderly : cl.Orderly)
    (held : a.ticket ∈ cl.held) (held' : a'.ticket ∈ (cl.meet h).held)
    (apart : sound' → sound ∧ cl.TicketsApart)
    (promptly : prompt' → prompt ∧ (cl.now ≤ a.deadline → (cl.meet h).now ≤ a.deadline)) :
    Guides request timeout sound' prompt' (cl.meet h) a' (course.note cl index h) := by
  obtain ⟨same, deadline, sent⟩ := turn.sent
  rw [same] at held'
  constructor
  · exact guides.ticket.trans same.symm
  · exact deadline.trans guides.deadline
  · rw [sent, guides.sent, Course.note, map_snd_or, guides.ticket]
  · intro so
    obtain ⟨soFar, here⟩ := apart so
    rw [same, orderly.status_meet here held held', guides.told soFar, note_told_eq, guides.ticket]
  · exact guides.past.note (cl.meet_now_le h)
  · exact Nat.le_trans guides.began (cl.meet_now_le h)
  · exact (cl.meet_sends h).subset guides.posted
  · intro so
    obtain ⟨soFar, here⟩ := promptly so
    rw [deadline]
    exact here (guides.early soFar)

theorem guides_begun (orderly : cl.Orderly) (own : h = .event (.advance index))
    (unsent : a.transmission = none) (deadline : a.deadline = cl.now + timeout)
    (allocated : cl.correlator.allocate = some (a.ticket, (cl.meet h).correlator))
    (sends : (cl.meet h).sends = cl.sends ++ [request.sending a.ticket]) :
    Guides request timeout sound prompt (cl.meet h) a { ticket := a.ticket, began := cl.now } := by
  obtain ⟨_, _, pending, _, _⟩ := Correlator.allocate_cases allocated
  have shape := (cl.meet_evolves h).wellFormed orderly.sent.shape
  have now : (cl.meet h).now = cl.now := by
    rw [own, meet, step_now _ (by simp)]
  refine ⟨rfl, deadline, unsent, fun _ => ?_, ⟨by simp, by simp⟩, Nat.le_of_eq now.symm, ?_,
    fun _ => ?_⟩
  · exact shape.status_waiting (pending ▸ List.mem_append_right _ (List.mem_singleton.mpr rfl))
  · exact sends ▸ List.mem_append_right _ (List.mem_singleton.mpr rfl)
  · rw [now, deadline]
    exact Nat.le_add_right _ _

theorem Guides.concluded {ending : Ending}
    (guides : Guides request timeout sound prompt cl a course)
    (orderly : cl.Orderly) (held : a.ticket ∈ cl.held)
    (ended : a.ending? cl.now cl.correlator = some ending)
    (closed : (cl.meet h).correlator = a.close cl.correlator) :
    Concluded request timeout sound prompt (cl.meet h) ⟨course, cl.now, ending⟩ where
  posted := (cl.meet_sends h).subset guides.posted
  lapsed := by
    rw [closed, guides.ticket]
    exact close_lapsed orderly.sent.shape (orderly.older held)
  lasted := guides.began
  past := cl.meet_now_le h
  own := by
    rintro e rfl
    rw [guides.ticket]
    exact orderly.sent.shape.delivered_id _ (Attempt.ending?_answered ended)
  explained so :=
    Course.explains_of_ending ended guides.deadline guides.sent (guides.told so) guides.past
  brief so := by
    rw [← guides.deadline]
    exact guides.early so

/-- What is noted of an attempt after its end changes nothing about it. -/
theorem Concluded.note {cl' : Client} {ended : Nat} {ending : Ending}
    (concluded : Concluded request timeout sound prompt cl' ⟨course, ended, ending⟩)
    (earlier : ended ≤ cl.now) :
    Concluded request timeout sound prompt cl' ⟨course.note cl index h, ended, ending⟩ where
  posted := concluded.posted
  lapsed := concluded.lapsed
  lasted := concluded.lasted
  past := concluded.past
  own := concluded.own
  explained so := (concluded.explained so).note earlier
  brief := concluded.brief

/-! ## An operation from its start -/

/-- The client in which an operation has just been started. -/
def opening (settings : Settings) (before : List Happening) (op : Operation) : Client :=
  (live { settings } before).meet (.event (.start op))

section Opening

variable {settings : Settings} {before later : List Happening} {op : Operation}

theorem live_opening (settings : Settings) (before : List Happening) (op : Operation)
    (later : List Happening) :
    live { settings } (before ++ .event (.start op) :: later) =
      (opening settings before op).live later :=
  live_append _ before _

theorem live_settings (cl : Client) (happenings : List Happening) :
    (cl.live happenings).settings = cl.settings := by
  induction happenings using List.reverseRecOn with
  | nil => rfl
  | append_singleton happenings h earlier =>
    rw [live_concat, ← earlier]
    cases h with
    | event e => exact ((cl.live happenings).step_extends e).settings
    | cancel id => rfl

theorem opening_job (settings : Settings) (before : List Happening) (op : Operation) :
    (opening settings before op).jobs[(live { settings } before).jobs.length]? =
      some ((live { settings } before).opened op) :=
  List.getElem?_concat_length

theorem orderly_opening (settings : Settings) (before : List Happening) (op : Operation)
    (later : List Happening) : ((opening settings before op).live later).Orderly := by
  rw [← live_opening]
  exact orderly_live settings _

theorem Ordinary.earlier {h : Happening}
    (ordinary : Ordinary settings (before ++ .event (.start op) :: (later ++ [h]))) :
    Ordinary settings (before ++ .event (.start op) :: later) ∧
      ((opening settings before op).live later).TicketsApart := by
  rw [← List.cons_append, ← List.append_assoc] at ordinary
  have earlier := ordinary.of_append
  refine ⟨earlier, ?_⟩
  rw [← live_opening]
  exact earlier.apart

end Opening

end Client

end ProxyConsole
