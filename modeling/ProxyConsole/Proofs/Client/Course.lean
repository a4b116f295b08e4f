import ProxyConsole.Proofs.Client.Pace
import ProxyConsole.Proofs.Client.Outside

/-!
# The course of an attempt

A single attempt is watched from outside: when it began and under which ticket, when and
how the transport settled its send, and what the correlator was first told of its id.
What it ends with is read off its course.
-/

set_option autoImplicit false

namespace ProxyConsole

/-- The course of an attempt. -/
structure Course where
  ticket : Ticket
  began : Nat
  /-- When the transport first settled its send, and how. -/
  sent : Option (Nat × Except TransportError Unit) := none
  /-- When the correlator was first told something of its id, and what. -/
  told : Option (Nat × News) := none
  ended : Option Nat := none

/-- How a happening settles the send of a ticket. -/
def Happening.settles (t : Ticket) : Happening → Option (Except TransportError Unit)
  | .event (.transmitted u result) => if u = t then some result else none
  | _ => none

namespace Client

def isOver (cl : Client) (index : Nat) : Bool :=
  match cl.jobs[index]? with
  | some (.over _) => true
  | _ => false

/-- What is noted of each happening in turn. -/
def observe {σ : Type} (note : Client → Happening → σ → σ) (cl : Client) (seen : σ) :
    List Happening → σ
  | [] => seen
  | h :: rest => (cl.meet h).observe note (note cl h seen) rest

end Client

namespace Course

def note (course : Course) (cl : Client) (index : Nat) (h : Happening) : Course :=
  { course with
    sent := course.sent.or ((h.settles course.ticket).map fun result => (cl.now, result))
    told := course.told.or ((cl.tells course.ticket h).map fun news => (cl.now, news))
    ended := course.ended.or (if (cl.meet h).isOver index then some cl.now else none) }

/-- The course of the attempt of the job at an index after one more happening. -/
def follow (cl : Client) (index : Nat) (h : Happening) : Option Course → Option Course
  | some course => some (course.note cl index h)
  | none =>
    match (cl.meet h).jobs[index]? with
    | some (.call _ _ (.attempting _ a)) => some { ticket := a.ticket, began := cl.now }
    | _ => none

/-- What an attempt is to end with, by its course: the error of a send that failed in time,
else what the correlator was told in time if the send was accepted in time, else that its
time is over. -/
def verdict (course : Course) (timeout : Nat) : Ending :=
  match course.sent with
  | none => .expired
  | some (moment, result) =>
    if moment < course.began + timeout then
      match result with
      | .error e => .refused e
      | .ok () =>
        match course.told with
        | none => .expired
        | some (moment, news) =>
          if moment < course.began + timeout then
            match news with
            | .answered e => .answered e
            | .cancelled => .cancelled
          else .expired
    else .expired

/-- Nothing that matters to an attempt happens at the very moment of its deadline. -/
structure Untied (course : Course) (timeout : Nat) : Prop where
  sent : ∀ moment result, course.sent = some (moment, result) → moment ≠ course.began + timeout
  told : ∀ moment news, course.told = some (moment, news) → moment ≠ course.began + timeout

/-- All that has been noted was noted by now. -/
structure Past (course : Course) (now : Nat) : Prop where
  sent : ∀ moment result, course.sent = some (moment, result) → moment ≤ now
  told : ∀ moment news, course.told = some (moment, news) → moment ≤ now

/-- What an attempt that is over ended with, and why. -/
inductive Explains (course : Course) (timeout ended : Nat) : Ending → Prop where
  | refused (e : TransportError) (moment : Nat) (sent : course.sent = some (moment, .error e))
      (before : moment ≤ ended) : Explains course timeout ended (.refused e)
  | answered (e : InboundEnvelope) (moment moment' : Nat)
      (sent : course.sent = some (moment, .ok ())) (before : moment ≤ ended)
      (told : course.told = some (moment', .answered e)) (before' : moment' ≤ ended) :
      Explains course timeout ended (.answered e)
  | cancelled (moment moment' : Nat) (sent : course.sent = some (moment, .ok ()))
      (before : moment ≤ ended) (told : course.told = some (moment', .cancelled))
      (before' : moment' ≤ ended) : Explains course timeout ended .cancelled
  | unsent (late : course.began + timeout ≤ ended)
      (missing : ∀ moment result, course.sent = some (moment, result) → ended ≤ moment) :
      Explains course timeout ended .expired
  | untold (moment : Nat) (sent : course.sent = some (moment, .ok ()))
      (late : course.began + timeout ≤ ended)
      (missing : ∀ moment' news, course.told = some (moment', news) → ended ≤ moment') :
      Explains course timeout ended .expired

end Course

namespace Client

/-- The course of the attempt of the job at an index over a sequence of happenings. -/
def course (cl : Client) (index : Nat) (happenings : List Happening) : Option Course :=
  cl.observe (fun cl h seen => Course.follow cl index h seen) none happenings

/-- Whether a happening keeps a job from nothing. -/
def isPromptly (cl : Client) (index : Nat) : Happening → Bool
  | .event e => cl.isPrompt index e
  | .cancel _ => true

/-- Nothing that happens delays the job at an index. -/
def keepsUp (cl : Client) (index : Nat) (happenings : List Happening) : Bool :=
  cl.observe (fun cl h so => so && cl.isPromptly index h) true happenings

theorem observe_concat {σ : Type} (note : Client → Happening → σ → σ) (cl : Client) (seen : σ)
    (happenings : List Happening) (h : Happening) :
    cl.observe note seen (happenings ++ [h]) =
      note (cl.live happenings) h (cl.observe note seen happenings) := by
  induction happenings generalizing cl seen with
  | nil => rfl
  | cons first rest ih => exact ih (cl.meet first) (note cl first seen)

theorem course_concat (cl : Client) (index : Nat) (happenings : List Happening) (h : Happening) :
    cl.course index (happenings ++ [h]) =
      Course.follow (cl.live happenings) index h (cl.course index happenings) :=
  cl.observe_concat _ none happenings h

theorem keepsUp_concat {cl : Client} {index : Nat} {happenings : List Happening} {h : Happening}
    (prompt : cl.keepsUp index (happenings ++ [h]) = true) :
    cl.keepsUp index happenings = true ∧ (cl.live happenings).isPromptly index h = true := by
  rw [keepsUp, observe_concat, Bool.and_eq_true] at prompt
  exact prompt

end Client

/-! ## What the course decides -/

namespace Course

variable {course : Course} {timeout ended now : Nat} {ending : Ending}

theorem Explains.verdict (explained : course.Explains timeout ended ending)
    (brief : ended ≤ course.began + timeout) (untied : course.Untied timeout) :
    course.verdict timeout = ending := by
  have inTime : ∀ {moment : Nat}, moment ≤ ended → moment ≠ course.began + timeout →
      moment < course.began + timeout := by
    intro moment before apart
    omega
  unfold Course.verdict
  cases explained with
  | refused e moment sent before =>
    simp only [sent, if_pos (inTime before (untied.sent _ _ sent))]
  | answered e moment moment' sent before told before' =>
    simp only [sent, if_pos (inTime before (untied.sent _ _ sent)), told,
      if_pos (inTime before' (untied.told _ _ told))]
  | cancelled moment moment' sent before told before' =>
    simp only [sent, if_pos (inTime before (untied.sent _ _ sent)), told,
      if_pos (inTime before' (untied.told _ _ told))]
  | unsent late missing =>
    cases sent : course.sent with
    | none => rfl
    | some settled =>
      have after := missing _ _ sent
      exact if_neg (by omega)
  | untold moment sent late missing =>
    simp only [sent]
    split
    · cases told : course.told with
      | none => rfl
      | some news =>
        have after := missing _ _ told
        exact if_neg (by omega)
    · rfl

theorem or_cases {α : Type} {first next : Option α} {a : α} (found : first.or next = some a) :
    first = some a ∨ (first = none ∧ next = some a) := by
  cases first with
  | none => exact Or.inr ⟨rfl, found⟩
  | some b => exact Or.inl found

section Note

variable {cl : Client} {index : Nat} {h : Happening}

theorem note_sent {moment : Nat} {result : Except TransportError Unit}
    (sent : course.sent = some (moment, result)) :
    (course.note cl index h).sent = some (moment, result) := by
  simp only [note, sent, Option.some_or]

theorem note_told {moment : Nat} {news : News} (told : course.told = some (moment, news)) :
    (course.note cl index h).told = some (moment, news) := by
  simp only [note, told, Option.some_or]

theorem note_sent_cases {moment : Nat} {result : Except TransportError Unit}
    (sent : (course.note cl index h).sent = some (moment, result)) :
    course.sent = some (moment, result) ∨ moment = cl.now := by
  rcases or_cases sent with old | ⟨_, new⟩
  · exact Or.inl old
  · obtain ⟨_, _, same⟩ := Option.map_eq_some_iff.mp new
    cases same
    exact Or.inr rfl

theorem note_told_cases {moment : Nat} {news : News}
    (told : (course.note cl index h).told = some (moment, news)) :
    course.told = some (moment, news) ∨ moment = cl.now := by
  rcases or_cases told with old | ⟨_, new⟩
  · exact Or.inl old
  · obtain ⟨_, _, same⟩ := Option.map_eq_some_iff.mp new
    cases same
    exact Or.inr rfl

theorem Past.note (past : course.Past cl.now) (later : cl.now ≤ now) :
    (course.note cl index h).Past now where
  sent moment result sent := by
    rcases note_sent_cases sent with old | rfl
    · exact Nat.le_trans (past.sent _ _ old) later
    · exact later
  told moment news told := by
    rcases note_told_cases told with old | rfl
    · exact Nat.le_trans (past.told _ _ old) later
    · exact later

theorem Explains.note (explained : course.Explains timeout ended ending)
    (earlier : ended ≤ cl.now) : (course.note cl index h).Explains timeout ended ending := by
  cases explained with
  | refused e moment sent before => exact .refused e moment (note_sent sent) before
  | answered e moment moment' sent before told before' =>
    exact .answered e moment moment' (note_sent sent) before (note_told told) before'
  | cancelled moment moment' sent before told before' =>
    exact .cancelled moment moment' (note_sent sent) before (note_told told) before'
  | unsent late missing =>
    refine .unsent late ?_
    intro moment result sent
    rcases note_sent_cases sent with old | rfl
    · exact missing _ _ old
    · exact earlier
  | untold moment sent late missing =>
    refine .untold moment (note_sent sent) late ?_
    intro moment' news told
    rcases note_told_cases told with old | rfl
    · exact missing _ _ old
    · exact earlier

end Note

/-- The end of an attempt is explained by its course. -/
theorem explains_of_ending {a : Attempt} {c : Correlator} (ended : a.ending? now c = some ending)
    (deadline : a.deadline = course.began + timeout)
    (sent : a.transmission = course.sent.map Prod.snd)
    (status : c.status a.ticket = TicketStatus.waiting.learn (course.told.map Prod.snd))
    (past : course.Past now) : course.Explains timeout now ending := by
  unfold Attempt.ending? at ended
  rw [deadline, sent, status] at ended
  cases settled : course.sent with
  | none =>
    simp only [settled, Option.map_none] at ended
    split at ended
    · rename_i late
      cases ended
      exact .unsent late (by simp [settled])
    · cases ended
  | some first =>
    obtain ⟨moment, result⟩ := first
    have before := past.sent _ _ settled
    simp only [settled, Option.map_some] at ended
    cases result with
    | error e =>
      cases ended
      exact .refused e moment settled before
    | ok done =>
      cases heard : course.told with
      | none =>
        simp only [heard, Option.map_none, TicketStatus.learn] at ended
        split at ended
        · rename_i late
          cases ended
          exact .untold moment settled late (by simp [heard])
        · cases ended
      | some told =>
        obtain ⟨moment', news⟩ := told
        have before' := past.told _ _ heard
        simp only [heard, Option.map_some] at ended
        cases news with
        | answered e =>
          cases ended
          exact .answered e moment moment' settled before heard before'
        | cancelled =>
          cases ended
          exact .cancelled moment moment' settled before heard before'

end Course

end ProxyConsole
