import ProxyConsole.Proofs.Client.Places

/-!
# Waiting for the backend to be ready

A wait sends one probe after the other, each a single attempt, an interval after the end
of the one before and only while its time lasts.  It returns what the first probe came
to that tells that the backend is up, or else what the last one came to, unless it is
called off between two probes.
-/

set_option autoImplicit false

namespace ProxyConsole

/-- The place of a wait for its probes. -/
def probePlace : Place where
  at?
    | .waiting _ phase => phase.attempt?
    | _ => none
  inside := by
    intro job a stands
    cases job with
    | waiting w phase => exact Option.mem_toList.mpr stands
    | _ => cases stands
  due := by
    intro job a stands
    cases job with
    | waiting w phase =>
      cases phase with
      | probing a' =>
        cases stands
        exact List.mem_singleton.mpr rfl
      | _ => cases stands
    | _ => cases stands
  hears := by
    intro job t result
    cases job with
    | waiting w phase => cases phase <;> rfl
    | _ => rfl
  gone := rfl

/-- The wait that begins at a moment. -/
def Settings.waitAt (s : Settings) (now : Nat) (callOffAfter : Option Nat) : Wait where
  interval := s.readiness.interval.toNat
  probeTimeout := s.readiness.probeTimeout.toNat
  maxWait := s.readiness.maxWait.toNat
  started := now
  calledOff := callOffAfter.map (now + ·)

/-! ## What follows a probe -/

namespace Wait

/-- Another probe was due after this one, and a wait that nothing has delayed was not called
off in the meantime, `prompt` being that nothing has. -/
structure Rested (w : Wait) (prompt : Prop) (x : Passage) : Prop where
  polls : w.Polls x.ended x.ending
  on : prompt → ∀ moment, w.calledOff = some moment → x.ended + w.interval ≤ max moment x.ended

/-- How a probe follows another one.  A wait that nothing has delayed may be called off at
the very moment at which the probe begins, but not before in the pause. -/
structure Follows (w : Wait) (prompt : Prop) (t : Trial) (b : Begun) : Prop where
  polls : w.Polls t.ended t.ending
  later : t.ended + w.interval ≤ b.moment
  exact : prompt → b.moment = t.ended + w.interval
  on : prompt → ∀ moment, w.calledOff = some moment → b.moment ≤ max moment t.ended

/-- How the first probe begins. -/
structure Opens (w : Wait) (prompt : Prop) (b : Begun) : Prop where
  later : w.started ≤ b.moment
  exact : prompt → b.moment = w.started

def Row (w : Wait) (prompt : Prop) (k : Chronicle) : Prop :=
  k.log.Linked (w.Opens prompt) (w.Follows prompt)

theorem Row.mono {w : Wait} {prompt prompt' : Prop} {k : Chronicle} (row : w.Row prompt k)
    (weaker : prompt' → prompt) : w.Row prompt' k :=
  CallLog.Linked.mono row (fun _ opens => ⟨opens.later, fun so => opens.exact (weaker so)⟩)
    fun _ _ follows =>
      ⟨follows.polls, follows.later, fun so => follows.exact (weaker so), fun so =>
        follows.on (weaker so)⟩

end Wait

namespace Client

/-- How a wait stands to the chronicle of its probes. -/
inductive WaitStage (w : Wait) (prompt : Prop) (now : Nat) : Job → Chronicle → Prop where
  | fresh (started : w.started ≤ now) (early : prompt → now = w.started) :
      WaitStage w prompt now (.waiting w .starting) {}
  | probing (a : Attempt) (past : List Passage) (course : Course) :
      WaitStage w prompt now (.waiting w (.probing a)) ⟨past, some course⟩
  | pausing (past : List Passage) (last : Passage) (polls : w.Polls last.ended last.ending)
      (ended : last.ended ≤ now) (early : prompt → now ≤ last.ended + w.interval)
      (on : prompt → ∀ moment, w.calledOff = some moment → now ≤ max moment last.ended) :
      WaitStage w prompt now (.waiting w (.pausing (last.ended + w.interval)))
        ⟨past ++ [last], none⟩
  | starved (past : List Passage) (rested : ∀ last, past.getLast? = some last →
      w.Rested prompt last) : WaitStage w prompt now (.waiting w .starved) ⟨past, none⟩
  | returned (past : List Passage) (last : Passage) (final : ¬ w.Polls last.ended last.ending) :
      WaitStage w prompt now (.over ((w.outcome last.ending).map .version)) ⟨past ++ [last], none⟩
  | calledOff (past : List Passage) (last : Passage) (moment : Nat)
      (polls : w.Polls last.ended last.ending) (off : w.calledOff = some moment)
      (passed : moment ≤ now) (brief : prompt → moment ≤ last.ended + w.interval) :
      WaitStage w prompt now (.over (.error Wait.calledOffError)) ⟨past ++ [last], none⟩
  | gone (k : Chronicle) : WaitStage w prompt now .gone k

variable {w : Wait} {prompt prompt' : Prop} {cl : Client} {index : Nat} {job job' : Job}
  {h : Happening} {k : Chronicle}

theorem WaitStage.still (stage : WaitStage w prompt cl.now job k)
    (found : cl.jobs[index]? = some job)
    (promptly : prompt' → prompt ∧ cl.isPromptly index h = true) :
    WaitStage w prompt' (cl.meet h).now job k := by
  have later := cl.meet_now_le h
  have limit := fun so => meet_still (h := h) found (promptly so).2
  cases stage with
  | fresh started early =>
    refine .fresh (Nat.le_trans started later) fun so => ?_
    rcases limit so with same | ⟨idle, _⟩
    · exact same.trans (early (promptly so).1)
    · have steps := w.step_cases cl.stopFirst .starting cl.now cl.correlator
      simp only [stepJob, found] at idle
      split at idle
      · rename_i stays
        rw [stays] at steps
        cases steps
      · cases idle
      · cases idle
  | probing a past course => exact .probing a past course
  | pausing past last polls ended early on =>
    refine .pausing past last polls (Nat.le_trans ended later) (fun so => ?_)
      fun so moment off => ?_
    · have before := early (promptly so).1
      rcases limit so with same | ⟨_, due⟩
      · omega
      · have bound := due (last.ended + w.interval) (List.mem_cons_self ..)
        omega
    · have before := on (promptly so).1 moment off
      rcases limit so with same | ⟨_, due⟩
      · omega
      · have bound := due moment (List.mem_cons_of_mem _ (by simp [off]))
        omega
  | starved past rested =>
    exact .starved past fun last newest =>
      ⟨(rested last newest).polls, fun so => (rested last newest).on (promptly so).1⟩
  | returned past last final => exact .returned past last final
  | calledOff past last moment polls off passed brief =>
    exact .calledOff past last moment polls off (Nat.le_trans passed later) fun so =>
      brief (promptly so).1
  | gone k => exact .gone k

theorem wait_goes {phase : WaitPhase} {cl' : Client}
    (goes : cl.JobGoes index (.waiting w phase) job' cl') :
    (∃ phase' sends c, w.Step cl.stopFirst cl.now cl.correlator phase (.move phase' sends c) ∧
      job' = .waiting w phase' ∧ cl' = cl.moveJob index job' sends c) ∨
    ∃ result c, w.Step cl.stopFirst cl.now cl.correlator phase (.finish result c) ∧
      job' = .over (result.map .version) ∧ cl' = cl.finishJob index (result.map .version) c := by
  have steps := w.step_cases cl.stopFirst phase cl.now cl.correlator
  generalize same : Job.waiting w phase = job at goes
  cases goes with
  | waits wait phase phase' sends c step =>
    cases same
    rw [step] at steps
    exact .inl ⟨phase', sends, c, steps, rfl, rfl⟩
  | waited wait phase result c step =>
    cases same
    rw [step] at steps
    exact .inr ⟨result, c, steps, rfl, rfl⟩
  | reads r => cases r <;> cases same
  | answers r => cases r <;> cases same
  | _ => cases same

theorem probe_turn {phase : WaitPhase}
    (goes : cl.JobGoes index (.waiting w phase) job' (cl.step (.advance index))) :
    PlaceTurn Wait.request w.probeTimeout cl index (.event (.advance index)) phase.attempt?
      (probePlace.at? job') := by
  rcases wait_goes goes with ⟨phase', sends, c, step, rfl, moved⟩ | ⟨result, c, step, rfl, moved⟩
  · cases step with
    | begins _ ready a c unsent deadline allocated =>
      rw [ready.idle]
      refine .begins a rfl unsent deadline ?_ ?_
      · rw [meet, moved]
        exact allocated
      · rw [meet, moved]
        rfl
    | starves _ ready full =>
      rw [ready.idle]
      exact .rests
    | pauses a ending ended polls => exact .ends a ending rfl ended (by rw [meet, moved]; rfl)
  · cases step with
    | returns a ending ended final => exact .ends a ending rfl ended (by rw [meet, moved]; rfl)
    | calledOff => exact .rests

/-- Where a probe may begin none is under way, and the pause after the last one is over. -/
theorem WaitStage.idle {phase : WaitPhase} (stage : WaitStage w prompt cl.now (.waiting w phase) k)
    (ready : w.Ready cl.stopFirst cl.now phase) :
    ∃ past, k = ⟨past, none⟩ ∧ ∀ last, past.getLast? = some last → w.Rested prompt last := by
  cases ready with
  | starting =>
    cases stage
    exact ⟨[], rfl, by simp⟩
  | rested resume due =>
    cases stage with
    | pausing past last polls _ _ on =>
      refine ⟨past ++ [last], rfl, fun last' newest => ?_⟩
      rw [List.getLast?_concat] at newest
      cases newest
      exact ⟨polls, fun so moment off => Nat.le_trans due (on so moment off)⟩

theorem WaitStage.begins {phase : WaitPhase}
    (stage : WaitStage w prompt cl.now (.waiting w phase) k)
    (row : w.Row prompt k) (ready : w.Ready cl.stopFirst cl.now phase) (t : Ticket) :
    w.Row prompt { k with current := some { ticket := t, began := cl.now } } := by
  cases ready with
  | starting =>
    cases stage with
    | fresh started early =>
      refine CallLog.Linked.of_begin ?_ (fun _ => ⟨started, early⟩) nofun
      exact row
  | rested resume due =>
    cases stage with
    | pausing past last polls ended early on =>
      refine CallLog.Linked.of_begin row (fun none => ?_) fun t newest => ?_
      · rw [List.map_append] at none
        exact absurd none (by simp)
      · rw [List.map_append, List.map_singleton, List.getLast?_concat] at newest
        cases newest
        exact ⟨polls, due, fun so => Nat.le_antisymm (early so) due, on⟩

theorem ended_row {past : List Passage} {course : Course} (row : w.Row prompt ⟨past, some course⟩)
    (ended : Nat) (ending : Ending) : w.Row prompt ⟨past ++ [⟨course, ended, ending⟩], none⟩ := by
  have linked := CallLog.Linked.of_finish row ended ending
  rw [Wait.Row, Chronicle.log, List.map_append]
  exact linked

/-- What holds of a wait after a happening. -/
structure WaitKeeps (w : Wait) (prompt : Prop) (cl : Client) (index : Nat) (h : Happening)
    (job' : Job) (k k' : Chronicle) : Prop where
  stage : WaitStage w prompt (cl.meet h).now job' k'
  row : w.Row prompt k'
  sends : k'.sends Wait.request = k.sends Wait.request ++ cl.postedBy index h

/-- A happening that begins no probe and ends none keeps the row of the probes. -/
theorem wait_keeps {k' : Chronicle} (stage : WaitStage w prompt (cl.meet h).now job' k')
    (row : w.Row prompt k) (log : k'.log = k.log) (quiet : cl.postedBy index h = []) :
    WaitKeeps w prompt cl index h job' k k' := by
  refine ⟨stage, ?_, ?_⟩
  · rw [Wait.Row, log]
    exact row
  · rw [quiet, List.append_nil, Chronicle.sends, log]
    rfl

theorem WaitStage.noted {now : Nat} (stage : WaitStage w prompt now job k) (cl : Client)
    (index : Nat) (h : Happening) (f : Attempt → Attempt) :
    WaitStage w prompt now (job.mapAttempt f)
      (k.turn cl index h (probePlace.at? job) ((probePlace.at? job).map f)) := by
  cases stage with
  | fresh started early => exact .fresh started early
  | probing a past course => exact .probing (f a) past _
  | pausing past last polls ended early on => exact .pausing past last polls ended early on
  | starved past rested => exact .starved past rested
  | returned past last final => exact .returned past last final
  | calledOff past last moment polls off passed brief =>
    exact .calledOff past last moment polls off passed brief
  | gone k => exact .gone _

theorem wait_advances {k' : Chronicle} {sends : List Sending}
    (moved : (cl.step (.advance index)).sends = cl.sends ++ sends)
    (stage : WaitStage w prompt cl.now job' k') (row : w.Row prompt k')
    (more : k'.sends Wait.request = k.sends Wait.request ++ sends) :
    WaitKeeps w prompt cl index (.event (.advance index)) job' k k' := by
  have now : (cl.meet (.event (.advance index))).now = cl.now := cl.step_now (by simp)
  refine ⟨?_, row, ?_⟩
  · rw [now]
    exact stage
  · rw [postedBy_advance cl index moved]
    exact more

theorem WaitStage.goes {phase : WaitPhase} (stage : WaitStage w prompt cl.now (.waiting w phase) k)
    (row : w.Row prompt k)
    (goes : cl.JobGoes index (.waiting w phase) job' (cl.step (.advance index))) :
    WaitKeeps w prompt cl index (.event (.advance index)) job' k
      (k.turn cl index (.event (.advance index)) phase.attempt? (probePlace.at? job')) := by
  rcases wait_goes goes with ⟨phase', sends, c, step, rfl, moved⟩ | ⟨result, c, step, rfl, moved⟩
  · have moved' : (cl.step (.advance index)).sends = cl.sends ++ sends := by
      rw [moved]
      rfl
    cases step with
    | begins _ ready a c unsent deadline allocated =>
      obtain ⟨past, rfl, -⟩ := stage.idle ready
      rw [ready.idle]
      exact wait_advances moved' (.probing a past _) (stage.begins row ready a.ticket)
        (Chronicle.sends_begin _ past _)
    | starves _ ready full =>
      obtain ⟨past, rfl, rested⟩ := stage.idle ready
      rw [ready.idle]
      exact wait_advances moved' (.starved past rested) row (List.append_nil _).symm
    | pauses a ending ended polls =>
      cases stage with
      | probing _ past course =>
        change WaitKeeps _ _ _ _ _ _ _ (Chronicle.turn _ _ _ _ (some a) none)
        rw [Chronicle.turn_ends rfl ended]
        refine wait_advances moved' (.pausing past ⟨course, cl.now, ending⟩ polls (Nat.le_refl _)
          (fun _ => Nat.le_add_right _ _) fun _ moment _ => Nat.le_max_right _ _)
          (ended_row row cl.now ending) ?_
        rw [Chronicle.sends_end, List.append_nil]
  · have moved' : (cl.step (.advance index)).sends = cl.sends ++ [] := by
      rw [moved]
      rfl
    cases step with
    | returns a ending ended final =>
      cases stage with
      | probing _ past course =>
        change WaitKeeps _ _ _ _ _ _ _ (Chronicle.turn _ _ _ _ (some a) none)
        rw [Chronicle.turn_ends rfl ended]
        refine wait_advances moved' (.returned past ⟨course, cl.now, ending⟩ final)
          (ended_row row cl.now ending) ?_
        rw [Chronicle.sends_end, List.append_nil]
    | calledOff resume moment off passed =>
      cases stage with
      | pausing past last polls ended early on =>
        change WaitKeeps _ _ _ _ _ _ _ (Chronicle.turn _ _ _ _ none none)
        rw [Chronicle.turn_rests]
        exact wait_advances moved' (.calledOff past last moment polls off passed fun so =>
          Nat.le_trans passed (early so)) row (List.append_nil _).symm

theorem WaitStage.mapAttempt_id {now : Nat} (stage : WaitStage w prompt now job k) :
    job.mapAttempt id = job := by
  cases stage <;> rfl

theorem WaitStage.waits {now : Nat} {cl' : Client} (stage : WaitStage w prompt now job k)
    (goes : cl.JobGoes index job job' cl') : ∃ phase, job = .waiting w phase := by
  obtain ⟨present, unsettled⟩ := goes.turn.unsettled
  cases stage with
  | returned => exact absurd rfl (unsettled _)
  | calledOff => exact absurd rfl (unsettled _)
  | gone => exact absurd rfl present
  | _ => exact ⟨_, rfl⟩

/-- Whatever happens, a wait stands to its chronicle as before. -/
theorem WaitStage.meet (stage : WaitStage w prompt cl.now job k) (row : w.Row prompt k)
    (found : cl.jobs[index]? = some job) (fares : cl.Fares index job h job')
    (promptly : prompt' → prompt ∧ cl.isPromptly index h = true) :
    WaitKeeps w prompt' cl index h job' k
      (k.turn cl index h (probePlace.at? job) (probePlace.at? job')) := by
  have stage' := stage.still found promptly
  have row' := row.mono fun so => (promptly so).1
  cases fares with
  | same deaf still present =>
    have noted := stage'.noted cl index h id
    rw [Option.map_id_apply, stage.mapAttempt_id] at noted
    refine wait_keeps noted row' (k.turn_same_log cl index h _) (postedBy_eq_nil ?_)
    rintro rfl
    simp only [Client.meet, step, still rfl, Option.getD_none]
  | hears t result heard =>
    rw [probePlace.hears]
    refine wait_keeps (stage'.noted cl index h _) row' (k.turn_map_log cl index h _ _) ?_
    rw [heard]
    rfl
  | gone given withdrawn =>
    subst given
    rw [probePlace.gone]
    exact wait_keeps (.gone _) row' (congrArg Chronicle.log (k.turn_abandoned cl index index _)) rfl
  | goes _ own goes =>
    subst own
    obtain ⟨phase, rfl⟩ := stage.waits goes
    rw [Client.meet, cl.step_now (by simp)] at stage'
    exact stage'.goes row' goes

theorem WaitStage.starves (stage : WaitStage w prompt cl.now job k)
    (fares : cl.Fares index job h job') (starves : job' = .waiting w .starved) :
    job = .waiting w .starved ∨ cl.correlator.allocate = none := by
  cases fares with
  | same => exact .inl starves
  | hears =>
    cases stage with
    | starved => exact .inl rfl
    | _ => cases starves
  | gone => cases starves
  | goes _ own goes =>
    obtain ⟨phase, rfl⟩ := stage.waits goes
    rcases wait_goes goes with ⟨_, _, _, step, same, _⟩ | ⟨_, _, _, same, _⟩
    · rw [same] at starves
      cases starves
      cases step with
      | starves _ ready full => exact .inr full
    · rw [same] at starves
      cases starves

theorem WaitStage.leaves (stage : WaitStage w prompt cl.now job k)
    (fares : cl.Fares index job h job')
    (left : job' = .gone) : job = .gone ∨ h = .event (.abandon index) := by
  cases fares with
  | same => exact .inl left
  | hears =>
    cases stage with
    | gone => exact .inl rfl
    | _ => cases left
  | gone given => exact .inr given
  | goes _ own goes =>
    obtain ⟨phase, rfl⟩ := stage.waits goes
    rcases wait_goes goes with ⟨_, _, _, _, same, _⟩ | ⟨_, _, _, same, _⟩
    · rw [same] at left
      cases left
    · rw [same] at left
      cases left

/-! ## A whole run -/

/-- How a wait stands after a sequence of happenings. -/
structure WaitKept (w : Wait) (sound prompt : Prop) (cl : Client) (index : Nat)
    (happenings : List Happening) (job : Job) : Prop where
  found : (cl.live happenings).jobs[index]? = some job
  stage : WaitStage w prompt (cl.live happenings).now job (cl.chronicle probePlace index happenings)
  row : w.Row prompt (cl.chronicle probePlace index happenings)
  tells : Tells Wait.request w.probeTimeout sound prompt (cl.live happenings)
    (cl.chronicle probePlace index happenings) (probePlace.at? job)
  sends : cl.posted index happenings = (cl.chronicle probePlace index happenings).sends Wait.request
  starved : job = .waiting w .starved →
    ∃ part, part <+: happenings ∧ (cl.live part).correlator.allocate = none
  gone : job = .gone → .event (.abandon index) ∈ happenings

variable {sound sound' : Prop} {happenings : List Happening}

theorem wait_kept_start (found : cl.jobs[index]? = some (.waiting w .starting))
    (now : cl.now = w.started) : WaitKept w sound prompt cl index [] (.waiting w .starting) where
  found := found
  stage := .fresh (Nat.le_of_eq now.symm) fun _ => now
  row := .empty
  tells := tells_empty cl
  sends := rfl
  starved := by simp
  gone := by simp

theorem WaitKept.concat (kept : WaitKept w sound prompt cl index happenings job)
    (orderly : (cl.live happenings).Orderly) (h : Happening)
    (apart : sound' → sound ∧ (cl.live happenings).TicketsApart)
    (promptly : prompt' → prompt ∧ (cl.live happenings).isPromptly index h = true) :
    ∃ job', WaitKept w sound' prompt' cl index (happenings ++ [h]) job' := by
  have own : ∀ job', (cl.live happenings).JobGoes index job job'
        ((cl.live happenings).step (.advance index)) →
      PlaceTurn Wait.request w.probeTimeout (cl.live happenings) index (.event (.advance index))
        (probePlace.at? job) (probePlace.at? job') := by
    intro job' goes
    obtain ⟨phase, rfl⟩ := kept.stage.waits goes
    exact probe_turn goes
  obtain ⟨job', found', fares, turn⟩ := place_turn (h := h) probePlace kept.found orderly own
  have keeps := kept.stage.meet kept.row kept.found fares promptly
  have record : cl.chronicle probePlace index (happenings ++ [h]) =
      (cl.chronicle probePlace index happenings).turn (cl.live happenings) index h
        (probePlace.at? job) (probePlace.at? job') :=
    chronicle_turn kept.found found'
  refine ⟨job', ?_, ?_, ?_, ?_, ?_, ?_, ?_⟩
  · rw [live_concat]
    exact found'
  · rw [live_concat, record]
    exact keeps.stage
  · rw [record]
    exact keeps.row
  · rw [live_concat, record]
    refine kept.tells.turn turn orderly (fun a stands => ?_) (fun a stands => ?_) apart fun so => ?_
    · exact held_of_job kept.found (probePlace.inside stands)
    · exact held_of_job found' (probePlace.inside stands)
    · exact ⟨(promptly so).1, fun a stands early =>
        meet_early kept.found (probePlace.due stands) early (promptly so).2⟩
  · rw [posted_concat, record, kept.sends]
    exact keeps.sends.symm
  · intro starves
    have longer : happenings <+: happenings ++ [h] := List.prefix_append _ _
    rcases kept.stage.starves fares starves with before | full
    · obtain ⟨part, leads, full⟩ := kept.starved before
      exact ⟨part, leads.trans longer, full⟩
    · exact ⟨happenings, longer, full⟩
  · intro left
    rw [List.mem_append, List.mem_singleton]
    rcases kept.stage.leaves fares left with before | given
    · exact .inl (kept.gone before)
    · exact .inr given.symm

theorem wait_kept_run (settings : Settings) (before : List Happening) (callOffAfter : Option Nat)
    (later : List Happening) :
    ∃ job, WaitKept (settings.waitAt (live { settings } before).now callOffAfter)
      (Ordinary settings (before ++ .event (.start (.waitReady callOffAfter)) :: later))
      ((opening settings before (.waitReady callOffAfter)).keepsUp
        (live { settings } before).jobs.length later = true)
      (opening settings before (.waitReady callOffAfter))
      (live { settings } before).jobs.length later job := by
  induction later using List.reverseRecOn with
  | nil =>
    refine ⟨_, wait_kept_start ?_ rfl⟩
    have job : (live { settings } before).opened (.waitReady callOffAfter) =
        .waiting (settings.waitAt (live { settings } before).now callOffAfter) .starting := by
      have same : (live { settings } before).settings = settings := live_settings _ _
      simp only [opened, Operation.script, newJob, same, Settings.waitAt]
    rw [← job]
    exact opening_job settings before _
  | append_singleton later h ih =>
    obtain ⟨job, kept⟩ := ih
    exact kept.concat (orderly_opening settings before _ later) h Ordinary.earlier keepsUp_concat

end Client

end ProxyConsole
