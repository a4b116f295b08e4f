import ProxyConsole.Proofs.Client.Steps
import ProxyConsole.Proofs.Client.UnderWay

/-!
# The first attempt of a call

The course of a call is that of its first attempt.  If that attempt comes to something
that is not tried again, it is what the call returns; whatever follows a failure is no
longer told by the course.
-/

set_option autoImplicit false

namespace ProxyConsole

namespace Client

open ProxyConsole.Positions

/-- How the job of a call stands, with the course of its first attempt, if nothing has
delayed it. -/
inductive Standing (prompt : Prop) (p : CallPlan Reply) (after : Aftermath) (cl : Client) :
    Job → Option Course → Prop where
  | fresh : Standing prompt p after cl (.newCall p after) none
  | unbegun : Standing prompt p after cl .gone none
  | under (a : Attempt) (course : Course)
      (guides : Guides p.request p.timeout True prompt cl a course) (goesOn : course.ended = none) :
      Standing prompt p after cl (.call p after (.attempting 1 a)) (some course)
  | settled (course : Course) (ended : Nat) (ending : Ending) (noted : course.ended = some ended)
      (concluded : Concluded p.request p.timeout True prompt cl ⟨course, ended, ending⟩) :
      Standing prompt p after cl (.over (p.outcome ending)) (some course)
  | failed (job : Job) (course : Course) (ended : Nat) (ending : Ending)
      (concluded : Concluded p.request p.timeout True prompt cl ⟨course, ended, ending⟩)
      (retried : Retryable (p.outcome ending)) (left : 1 < p.attempts) :
      Standing prompt p after cl job (some course)
  | givenUp (course : Course) (posted : p.request.sending course.ticket ∈ cl.sends)
      (lapsed : cl.correlator.Lapsed course.ticket) :
      Standing prompt p after cl .gone (some course)

section Turn

variable {prompt prompt' : Prop} {p : CallPlan Reply} {after : Aftermath} {cl cl' : Client}
  {index : Nat} {job job' : Job} {a : Attempt} {course : Course} {h : Happening}

/-- A call begins its first attempt with its first turn, unless all ids are taken. -/
theorem JobGoes.opens (goes : cl.JobGoes index (.newCall p after) job' cl') :
    cl.correlator.allocate = none ∨ ∃ a, job' = .call p after (.attempting 1 a) ∧
      a.transmission = none ∧ a.deadline = cl.now + p.timeout ∧
      cl.correlator.allocate = some (a.ticket, cl'.correlator) ∧
      cl'.sends = cl.sends ++ [p.request.sending a.ticket] := by
  generalize same : Job.newCall p after = job at goes
  cases goes with
  | begins plan after' call sends c step =>
    cases same
    rw [CallPlan.start, CallPlan.beginAttempt] at step
    cases begun : Attempt.begin? p.request p.timeout cl.now cl.correlator with
    | none => exact .inl (Attempt.begin?_eq_none begun)
    | some first =>
      obtain ⟨a, sending, c'⟩ := first
      obtain ⟨allocated, rfl⟩ := Attempt.begin?_cases begun
      rw [begun] at step
      cases step
      exact .inr ⟨a, rfl, Attempt.begin?_unsent begun, Attempt.begin?_deadline begun, allocated,
        rfl⟩
  | reads r => cases r <;> cases same
  | answers r => cases r <;> cases same
  | _ => cases same

/-- The first attempt of a call ends with something that is tried again, or ends the call. -/
theorem JobGoes.concludes (goes : cl.JobGoes index (.call p after (.attempting 1 a)) job' cl') :
    ∃ ending, a.ending? cl.now cl.correlator = some ending ∧
      cl'.correlator = a.close cl.correlator ∧
      (job' = .over (p.outcome ending) ∨ (Retryable (p.outcome ending) ∧ 1 < p.attempts)) := by
  have steps := p.step_cases (.attempting 1 a) cl.now cl.correlator
  generalize same : Job.call p after (.attempting 1 a) = job at goes
  cases goes with
  | calls plan after' call call' sends c step =>
    cases same
    rw [step] at steps
    cases steps with
    | pauses _ _ ending ended retryable left =>
      exact ⟨ending, ended, rfl, .inr ⟨retryable, left⟩⟩
  | ends plan after' call result c step =>
    cases same
    rw [step] at steps
    cases steps with
    | ends _ _ ending ended last => exact ⟨ending, ended, rfl, .inl rfl⟩
  | reads r => cases r <;> cases same
  | answers r => cases r <;> cases same
  | _ => cases same

theorem follow_some (cl : Client) (index : Nat) (h : Happening) (course : Course) :
    Course.follow cl index h (some course) = some (course.note cl index h) :=
  rfl

theorem follow_none (found' : (cl.meet h).jobs[index]? = some job)
    (other : ∀ plan after number a, job ≠ .call plan after (.attempting number a)) :
    Course.follow cl index h none = none := by
  simp only [Course.follow, found']
  split
  · rename_i plan after number a same
    exact absurd (Option.some.inj same) (other plan after number a)
  · rfl

theorem note_goesOn (goesOn : course.ended = none)
    (found' : (cl.meet h).jobs[index]? = some job) (unsettled : ∀ result, job ≠ .over result) :
    (course.note cl index h).ended = none := by
  have underWay : (cl.meet h).isOver index = false := by
    unfold isOver
    split
    · rename_i result settled
      exact absurd (Option.some.inj (found'.symm.trans settled)) (unsettled result)
    · rfl
  simp only [Course.note, goesOn, underWay, Option.none_or, Bool.false_eq_true, if_false]

/-! ## What a happening does to a call -/

theorem standing_of_fresh (found' : (cl.meet h).jobs[index]? = some job')
    (fares : cl.Fares index (.newCall p after) h job') (orderly : cl.Orderly)
    (free : cl.correlator.allocate ≠ none) :
    Standing prompt p after (cl.meet h) job' (Course.follow cl index h none) := by
  cases fares with
  | same =>
    rw [follow_none found' (by simp)]
    exact .fresh
  | hears =>
    rw [follow_none found' (by simp [Job.mapAttempt])]
    exact .fresh
  | gone =>
    rw [follow_none found' (by simp)]
    exact .unbegun
  | goes _ own goes =>
    rcases goes.opens with full | ⟨a, rfl, unsent, deadline, allocated, sends⟩
    · exact absurd full free
    · have followed : Course.follow cl index h none =
          some { ticket := a.ticket, began := cl.now } := by
        simp only [Course.follow, found']
      rw [followed]
      exact .under a _ (guides_begun orderly own unsent deadline allocated sends) rfl

theorem standing_of_under (found : cl.jobs[index]? = some (.call p after (.attempting 1 a)))
    (found' : (cl.meet h).jobs[index]? = some job')
    (fares : cl.Fares index (.call p after (.attempting 1 a)) h job')
    (guides : Guides p.request p.timeout True prompt cl a course) (goesOn : course.ended = none)
    (orderly : cl.Orderly) (apart : cl.TicketsApart)
    (promptly : prompt' → prompt ∧ cl.isPromptly index h = true) :
    Standing prompt' p after (cl.meet h) job' (some (course.note cl index h)) := by
  have held : a.ticket ∈ cl.held := held_of_job found (List.mem_singleton.mpr rfl)
  have stays : ∀ {a' : Attempt},
      (cl.meet h).jobs[index]? = some (.call p after (.attempting 1 a')) →
      PlaceTurn p.request p.timeout cl index h (some a) (some a') →
      Standing prompt' p after (cl.meet h) (.call p after (.attempting 1 a'))
        (some (course.note cl index h)) := by
    intro a' found' turn
    refine .under a' _ (guides.turn turn orderly held
      (held_of_job found' (List.mem_singleton.mpr rfl)) (fun _ => ⟨trivial, apart⟩) ?_)
      (note_goesOn goesOn found' (by simp))
    exact fun so => ⟨(promptly so).1, fun early =>
      meet_early found List.mem_cons_self early (promptly so).2⟩
  cases fares with
  | same deaf => exact stays found' (.keeps a deaf)
  | hears t result heard => exact stays found' (.hears a t result heard)
  | gone given withdrawn =>
    refine .givenUp _ ((cl.meet_sends h).subset guides.posted) ?_
    rw [withdrawn]
    exact guides.ticket ▸ withdraw_lapsed (List.mem_singleton.mpr rfl) (orderly.older held)
  | goes _ own goes =>
    obtain ⟨ending, ended, closed, fate⟩ := goes.concludes
    have concluded : Concluded p.request p.timeout True prompt' (cl.meet h)
        ⟨course.note cl index h, cl.now, ending⟩ :=
      ((guides.concluded orderly held ended closed).mono id fun so => (promptly so).1).note
        (Nat.le_refl cl.now)
    rcases fate with rfl | ⟨retried, left⟩
    · refine .settled _ cl.now ending ?_ concluded
      simp only [Course.note, goesOn, isOver, found', Option.none_or, if_true]
    · exact .failed _ _ cl.now ending concluded retried left

/-- A call that is over stays so, and can only be given up. -/
theorem standing_of_settled {ended : Nat} {ending : Ending}
    (fares : cl.Fares index (.over (p.outcome ending)) h job')
    (noted : course.ended = some ended)
    (concluded : Concluded p.request p.timeout True prompt (cl.meet h)
      ⟨course.note cl index h, ended, ending⟩) :
    Standing prompt p after (cl.meet h) job' (some (course.note cl index h)) := by
  have stays : Standing prompt p after (cl.meet h) (.over (p.outcome ending))
      (some (course.note cl index h)) := by
    refine .settled _ ended ending ?_ concluded
    simp only [Course.note, noted, Option.some_or]
  cases fares with
  | same => exact stays
  | hears => exact stays
  | gone => exact .givenUp _ concluded.posted concluded.lapsed
  | goes _ own goes => exact absurd rfl (goes.turn.unsettled.2 _)

theorem Standing.meet {seen : Option Course} (standing : Standing prompt p after cl job seen)
    (found : cl.jobs[index]? = some job) (orderly : cl.Orderly) (apart : cl.TicketsApart)
    (free : cl.correlator.allocate ≠ none)
    (promptly : prompt' → prompt ∧ cl.isPromptly index h = true) :
    ∃ job', (cl.meet h).jobs[index]? = some job' ∧
      Standing prompt' p after (cl.meet h) job' (Course.follow cl index h seen) := by
  obtain ⟨job', found', fares⟩ := meet_fares found h
  refine ⟨job', found', ?_⟩
  have kept : ∀ {course : Course} {ended : Nat} {ending : Ending},
      Concluded p.request p.timeout True prompt cl ⟨course, ended, ending⟩ →
      Concluded p.request p.timeout True prompt' (cl.meet h)
        ⟨course.note cl index h, ended, ending⟩ := fun concluded =>
    ((concluded.meet h).mono id fun so => (promptly so).1).note concluded.past
  cases standing with
  | fresh => exact standing_of_fresh found' fares orderly free
  | unbegun =>
    obtain rfl := fares.gone_eq
    rw [follow_none found' (by simp)]
    exact .unbegun
  | under a course guides goesOn =>
    rw [follow_some]
    exact standing_of_under found found' fares guides goesOn orderly apart promptly
  | settled course ended ending noted concluded =>
    exact standing_of_settled fares noted (kept concluded)
  | failed _ course ended ending concluded retried left =>
    exact .failed _ _ ended ending (kept concluded) retried left
  | givenUp course posted lapsed =>
    obtain rfl := fares.gone_eq
    exact .givenUp _ ((cl.meet_sends h).subset posted) (lapsed.evolves (cl.meet_evolves h))

theorem Standing.posted (standing : Standing prompt p after cl job (some course)) :
    p.request.sending course.ticket ∈ cl.sends := by
  cases standing with
  | under _ _ guides => exact guides.posted
  | settled _ _ _ _ concluded => exact concluded.posted
  | failed _ _ _ _ concluded => exact concluded.posted
  | givenUp _ posted => exact posted

theorem Standing.lapsed (standing : Standing prompt p after cl job (some course))
    (left : (∃ result, job = .over result) ∨ job = .gone) :
    cl.correlator.Lapsed course.ticket := by
  cases standing with
  | under => rcases left with ⟨_, same⟩ | same <;> cases same
  | settled _ _ _ _ concluded => exact concluded.lapsed
  | failed _ _ _ _ concluded => exact concluded.lapsed
  | givenUp _ _ lapsed => exact lapsed

end Turn

/-! ## A whole run -/

section Run

variable {settings : Settings} {before later : List Happening} {op : Operation}
  {p : CallPlan Reply} {after : Aftermath}

theorem standing_after (accepted : op.script settings = .ok (.call p after))
    (ordinary : Ordinary settings (before ++ .event (.start op) :: later)) :
    ∃ job, ((opening settings before op).live later).jobs[
          (live { settings } before).jobs.length]? = some job ∧
      Standing ((opening settings before op).keepsUp
          (live { settings } before).jobs.length later = true) p after
        ((opening settings before op).live later) job
        ((opening settings before op).course (live { settings } before).jobs.length later) := by
  induction later using List.reverseRecOn with
  | nil =>
    have same : (live { settings } before).settings = settings := live_settings _ before
    have opened : (live { settings } before).opened op = .newCall p after := by
      rw [Client.opened, same, accepted]
      rfl
    exact ⟨_, opening_job settings before op, opened ▸ .fresh⟩
  | append_singleton later h ih =>
    obtain ⟨earlier, apart⟩ := ordinary.earlier
    obtain ⟨job, found, standing⟩ := ih earlier
    have orderly := orderly_opening settings before op later
    have free : ((opening settings before op).live later).correlator.allocate ≠ none := by
      rw [← live_opening]
      obtain ⟨t, c, allocated, _⟩ := earlier.counted.unwrapped.allocate
        (orderly_live settings _).sent.shape earlier.few
      simp [allocated]
    rw [live_concat, course_concat]
    exact standing.meet found orderly apart free keepsUp_concat

end Run

end Client

end ProxyConsole
