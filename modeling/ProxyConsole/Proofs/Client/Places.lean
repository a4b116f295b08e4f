import ProxyConsole.Proofs.Client.Steps
import ProxyConsole.Proofs.Client.UnderWay

/-!
# Attempts at a place

A job has places for its attempts: a readiness wait has one, a batch has one for each of
its tests.  What happens at a place is put down in a chronicle, each attempt with its
course.  An attempt begins under a ticket of its own and ends by its course, whatever
happens at other places, and leaves nothing pending.
-/

set_option autoImplicit false

namespace ProxyConsole

/-! ## The chronicle -/

def Course.begun (course : Course) : Begun :=
  ⟨course.ticket, course.began⟩

def Passage.trial (x : Passage) : Trial :=
  ⟨x.course.begun, x.ended, x.ending⟩

/-- The attempts at a place that are over, in order, and the one under way or given up. -/
structure Chronicle where
  past : List Passage := []
  current : Option Course := none

namespace Chronicle

/-- When and under which tickets the attempts began and ended. -/
def log (k : Chronicle) : CallLog :=
  ⟨k.past.map Passage.trial, k.current.map Course.begun⟩

/-- The chronicle after a happening, by what stands at the place before and after it. -/
def turn (k : Chronicle) (cl : Client) (index : Nat) (h : Happening)
    (before after : Option Attempt) : Chronicle :=
  match before, after, k.current with
  | none, some a, _ => { k with current := some { ticket := a.ticket, began := cl.now } }
  | some _, some _, some course => { k with current := some (course.note cl index h) }
  | some a, none, some course =>
    match h, a.ending? cl.now cl.correlator with
    | .event (.advance _), some ending => ⟨k.past ++ [⟨course, cl.now, ending⟩], none⟩
    | _, _ => k
  | _, _, _ => k

/-- The chronicle of a place of the job at an index after one more happening. -/
def record (k : Chronicle) (place : Place) (cl : Client) (index : Nat) (h : Happening) :
    Chronicle :=
  k.turn cl index h (cl.jobs[index]?.bind place.at?) ((cl.meet h).jobs[index]?.bind place.at?)

section Turn

variable (k : Chronicle) (cl : Client) (index : Nat) (h : Happening) (a a' : Attempt)

@[simp]
theorem turn_rests : k.turn cl index h none none = k := by
  simp [turn]

@[simp]
theorem turn_begins :
    k.turn cl index h none (some a) =
      { k with current := some { ticket := a.ticket, began := cl.now } } :=
  rfl

@[simp]
theorem turn_givesUp (i : Nat) : k.turn cl index (.event (.abandon i)) (some a) none = k := by
  cases current : k.current <;> simp [turn, current]

@[simp]
theorem turn_log : (k.turn cl index h (some a) (some a')).log = k.log := by
  cases current : k.current with
  | none => simp only [turn, current, log]
  | some course =>
    simp only [turn, current, log]
    rfl

theorem turn_map_log (o : Option Attempt) (f : Attempt → Attempt) :
    (k.turn cl index h o (o.map f)).log = k.log := by
  cases o with
  | none => rw [Option.map_none, turn_rests]
  | some a => exact k.turn_log cl index h a (f a)

theorem turn_same_log (o : Option Attempt) : (k.turn cl index h o o).log = k.log := by
  have log := k.turn_map_log cl index h o id
  rwa [Option.map_id_apply] at log

@[simp]
theorem turn_empty (o : Option Attempt) : turn {} cl index h o none = {} := by
  cases o <;> rfl

theorem turn_abandoned (i : Nat) (o : Option Attempt) :
    k.turn cl index (.event (.abandon i)) o none = k := by
  cases o with
  | none => exact k.turn_rests cl index _
  | some a => exact k.turn_givesUp cl index a i

theorem turn_ends {k : Chronicle} {cl : Client} {index : Nat} {a : Attempt} {course : Course}
    {ending : Ending} (current : k.current = some course)
    (ended : a.ending? cl.now cl.correlator = some ending) :
    k.turn cl index (.event (.advance index)) (some a) none =
      ⟨k.past ++ [⟨course, cl.now, ending⟩], none⟩ := by
  simp only [turn, current, ended]

end Turn

theorem attempts_begin (past : List Passage) (course : Course) :
    (log ⟨past, some course⟩).attempts = (log ⟨past, none⟩).attempts ++ [course.begun] := by
  simp [log, CallLog.attempts]

theorem attempts_end (past : List Passage) (course : Course) (ended : Nat) (ending : Ending) :
    (log ⟨past ++ [⟨course, ended, ending⟩], none⟩).attempts =
    (log ⟨past, some course⟩).attempts := by
  simp [log, CallLog.attempts, Passage.trial]

theorem exists_passage {k : Chronicle} {i : Nat} {t : Trial} (ended : k.log.past[i]? = some t) :
    ∃ x, k.past[i]? = some x ∧ x.trial = t := by
  rw [log, List.getElem?_map, Option.map_eq_some_iff] at ended
  exact ended

theorem past_of_passage {k : Chronicle} {i : Nat} {x : Passage} (ended : k.past[i]? = some x) :
    k.log.past[i]? = some x.trial := by
  rw [log, List.getElem?_map, ended]
  rfl

theorem mem_attempts {k : Chronicle} {b : Begun} :
    b ∈ k.log.attempts ↔
      (∃ x ∈ k.past, x.course.begun = b) ∨ ∃ course, k.current = some course ∧
        course.begun = b := by
  simp [log, CallLog.attempts, Passage.trial]

/-- What was sent by the attempts at a place. -/
def sends (k : Chronicle) (request : Request) : List Sending :=
  k.log.attempts.map fun b => request.sending b.ticket

theorem sends_begin (request : Request) (past : List Passage) (course : Course) :
    sends ⟨past, some course⟩ request =
      sends ⟨past, none⟩ request ++ [request.sending course.ticket] := by
  rw [sends, attempts_begin, List.map_append]
  rfl

theorem sends_end (request : Request) (past : List Passage) (course : Course) (ended : Nat)
    (ending : Ending) :
    sends ⟨past ++ [⟨course, ended, ending⟩], none⟩ request =
      sends ⟨past, some course⟩ request := by
  rw [sends, attempts_end]
  rfl

end Chronicle

namespace Client

/-- The chronicle of a place of the job at an index over a sequence of happenings. -/
def chronicle (cl : Client) (place : Place) (index : Nat) (happenings : List Happening) :
    Chronicle :=
  cl.observe (fun cl h k => k.record place cl index h) {} happenings

theorem chronicle_concat (cl : Client) (place : Place) (index : Nat) (happenings : List Happening)
    (h : Happening) :
    cl.chronicle place index (happenings ++ [h]) =
      (cl.chronicle place index happenings).record place (cl.live happenings) index h :=
  cl.observe_concat _ _ happenings h

theorem chronicle_turn {place : Place} {cl : Client} {index : Nat} {happenings : List Happening}
    {h : Happening} {job job' : Job} (found : (cl.live happenings).jobs[index]? = some job)
    (found' : ((cl.live happenings).meet h).jobs[index]? = some job') :
    cl.chronicle place index (happenings ++ [h]) =
      (cl.chronicle place index happenings).turn (cl.live happenings) index h (place.at? job)
        (place.at? job') := by
  rw [chronicle_concat, Chronicle.record, found, found', Option.bind_some, Option.bind_some]

/-- What the job at an index starts to send by a happening. -/
def postedBy (cl : Client) (index : Nat) : Happening → List Sending
  | .event e => cl.sentBy index e
  | .cancel _ => []

/-- What the job at an index starts to send over a sequence of happenings. -/
def posted (cl : Client) (index : Nat) (happenings : List Happening) : List Sending :=
  cl.observe (fun cl h sent => sent ++ cl.postedBy index h) [] happenings

theorem posted_concat (cl : Client) (index : Nat) (happenings : List Happening) (h : Happening) :
    cl.posted index (happenings ++ [h]) =
      cl.posted index happenings ++ (cl.live happenings).postedBy index h :=
  cl.observe_concat _ _ happenings h

theorem postedBy_eq_nil {cl : Client} {index : Nat} {h : Happening}
    (quiet : h = .event (.advance index) → (cl.meet h).sends = cl.sends) :
    cl.postedBy index h = [] := by
  cases h with
  | cancel id => rfl
  | event e =>
    refine sentBy_eq_nil ?_
    rintro rfl
    exact quiet rfl

theorem postedBy_advance (cl : Client) (index : Nat) {sends : List Sending}
    (more : (cl.meet (.event (.advance index))).sends = cl.sends ++ sends) :
    cl.postedBy index (.event (.advance index)) = sends := by
  rw [postedBy, sentBy, if_pos rfl]
  exact (congrArg (List.drop cl.sends.length) more).trans (List.drop_left ..)

/-! ## What a chronicle tells -/

/-- How a chronicle stands to what is at its place. -/
structure Tells (request : Request) (timeout : Nat) (sound prompt : Prop) (cl : Client)
    (k : Chronicle) (stands : Option Attempt) : Prop where
  past : ∀ x ∈ k.past, Concluded request timeout sound prompt cl x
  present : ∀ a, stands = some a → ∃ course, k.current = some course ∧
    Guides request timeout sound prompt cl a course
  givenUp : stands = none → ∀ course, k.current = some course →
    request.sending course.ticket ∈ cl.sends ∧ cl.correlator.Lapsed course.ticket

variable {request : Request} {timeout : Nat} {cl : Client} {index : Nat} {h : Happening}
  {sound prompt sound' prompt' : Prop} {k : Chronicle} {before after : Option Attempt}

theorem tells_empty (cl : Client) : Tells request timeout sound prompt cl {} none :=
  ⟨by simp, by simp, by simp⟩

/-- What a happening keeps at a place. -/
theorem Tells.turn (tells : Tells request timeout sound prompt cl k before)
    (turn : PlaceTurn request timeout cl index h before after) (orderly : cl.Orderly)
    (held : ∀ a, before = some a → a.ticket ∈ cl.held)
    (held' : ∀ a, after = some a → a.ticket ∈ (cl.meet h).held)
    (apart : sound' → sound ∧ cl.TicketsApart)
    (promptly : prompt' → prompt ∧
      ∀ a, before = some a → cl.now ≤ a.deadline → (cl.meet h).now ≤ a.deadline) :
    Tells request timeout sound' prompt' (cl.meet h) (k.turn cl index h before after) after := by
  have past : ∀ x ∈ k.past, Concluded request timeout sound' prompt' (cl.meet h) x :=
    fun x member =>
    ((tells.past x member).meet h).mono (fun so => (apart so).1) fun so => (promptly so).1
  have goesOn : ∀ {a a' : Attempt}, before = some a → after = some a' →
      PlaceTurn request timeout cl index h (some a) (some a') →
      Tells request timeout sound' prompt' (cl.meet h)
        (k.turn cl index h (some a) (some a')) (some a') := by
    intro a a' stood stands turn
    obtain ⟨course, current, guides⟩ := tells.present a stood
    simp only [Chronicle.turn, current]
    refine ⟨past, fun _ same => ?_, by simp⟩
    cases same
    exact ⟨_, rfl, guides.turn turn orderly (held a stood) (held' a' stands) apart
      fun so => ⟨(promptly so).1, (promptly so).2 a stood⟩⟩
  cases turn with
  | rests =>
    rw [Chronicle.turn_rests]
    refine ⟨past, by simp, fun _ course current => ?_⟩
    obtain ⟨posted, lapsed⟩ := tells.givenUp rfl course current
    exact ⟨(cl.meet_sends h).subset posted, lapsed.evolves (cl.meet_evolves h)⟩
  | keeps a deaf => exact goesOn rfl rfl (.keeps a deaf)
  | hears a t result heard => exact goesOn rfl rfl (.hears a t result heard)
  | begins a own unsent deadline allocated sends =>
    rw [Chronicle.turn_begins]
    refine ⟨past, fun a' same => ?_, by simp⟩
    cases same
    exact ⟨_, rfl, guides_begun orderly own unsent deadline allocated sends⟩
  | ends a ending own ended closed =>
    obtain ⟨course, current, guides⟩ := tells.present a rfl
    subst own
    rw [Chronicle.turn_ends current ended]
    refine ⟨fun x member => ?_, by simp, by simp⟩
    rcases List.mem_append.mp member with earlier | last
    · exact past x earlier
    · rw [List.mem_singleton.mp last]
      exact (guides.concluded orderly (held a rfl) ended closed).mono (fun so => (apart so).1)
        fun so => (promptly so).1
  | givesUp a given lapsed =>
    obtain ⟨course, current, guides⟩ := tells.present a rfl
    subst given
    rw [Chronicle.turn_givesUp]
    refine ⟨past, by simp, fun _ course' current' => ?_⟩
    rw [current] at current'
    cases current'
    exact ⟨(cl.meet_sends _).subset guides.posted, guides.ticket ▸ lapsed⟩

theorem Tells.posted (tells : Tells request timeout sound prompt cl k after) {b : Begun}
    (member : b ∈ k.log.attempts) : request.sending b.ticket ∈ cl.sends := by
  rcases Chronicle.mem_attempts.mp member with ⟨x, inside, rfl⟩ | ⟨course, current, rfl⟩
  · exact (tells.past x inside).posted
  · cases after with
    | none => exact (tells.givenUp rfl course current).1
    | some a =>
      obtain ⟨course', current', guides⟩ := tells.present a rfl
      obtain rfl := Option.some.inj (current.symm.trans current')
      exact guides.posted

theorem Tells.lapsed (tells : Tells request timeout sound prompt cl k none) {b : Begun}
    (member : b ∈ k.log.attempts) : cl.correlator.Lapsed b.ticket := by
  rcases Chronicle.mem_attempts.mp member with ⟨x, inside, rfl⟩ | ⟨course, current, rfl⟩
  · exact (tells.past x inside).lapsed
  · exact (tells.givenUp rfl course current).2

theorem posted_sublist (cl : Client) (index : Nat) (happenings : List Happening) :
    (cl.posted index happenings).Sublist (cl.live happenings).sends := by
  induction happenings using List.reverseRecOn with
  | nil => exact List.nil_sublist _
  | append_singleton happenings h earlier =>
    obtain ⟨more, longer⟩ := (cl.live happenings).meet_sends h
    rw [posted_concat, live_concat, ← longer]
    refine earlier.append ?_
    cases h with
    | cancel id => exact List.nil_sublist _
    | event e =>
      cases e with
      | advance i =>
        rw [postedBy, sentBy]
        split
        · exact Eq.subst (motive := fun sends => (List.drop _ sends).Sublist more) longer
            (by rw [List.drop_left])
        · exact List.nil_sublist _
      | _ => exact List.nil_sublist _

/-- What is posted under a ticket is all that is sent under it. -/
theorem posted_alone {index : Nat} {happenings : List Happening}
    (orderly : (cl.live happenings).Orderly) {s : Sending}
    (member : s ∈ cl.posted index happenings) :
    (cl.live happenings).sends.filter (·.ticket = s.ticket) = [s] :=
  orderly.sent.filter_eq ((cl.posted_sublist index happenings).subset member)

theorem posted_nodup {index : Nat} {happenings : List Happening}
    (orderly : (cl.live happenings).Orderly) :
    ((cl.posted index happenings).map Sending.ticket).Nodup := by
  refine List.Nodup.of_map Ticket.serial ?_
  rw [List.map_map]
  exact ((cl.posted_sublist index happenings).map _).nodup orderly.sent.distinct

end Client

end ProxyConsole
