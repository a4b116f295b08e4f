import ProxyConsole.Proofs.Client.Readers

/-!
# Operations that change a resource

An operation that may change what the backend says of a resource drops it from the cache
when it ends, whatever its outcome.
-/

set_option autoImplicit false

namespace ProxyConsole

/-- Whether an operation may change a resource. -/
def Operation.affects : Operation → Resource → Bool
  | .setMode _, .config => true
  | .setLogLevel _, .config => true
  | .setAllowLan _, .config => true
  | .setIpv6 _, .config => true
  | .setTun _, .config => true
  | .select _ _, .proxies => true
  | .updateProvider _, .proxies => true
  | .reload _, _ => true
  | _, _ => false

/-- Whether a job is a call that leaves a given aftermath when it ends. -/
def Job.Leaves (after : Aftermath) : Job → Prop
  | .newCall _ after' => after' = after
  | .call _ after' _ => after' = after
  | _ => False

theorem Job.Leaves.not_aside {job : Job} {after : Aftermath} (leaves : job.Leaves after) :
    job.isAside = false := by
  cases job <;> first | rfl | cases leaves

theorem bind_ok {ε α β : Type} {x : Except ε α} {f : α → Except ε β} {b : β}
    (success : x.bind f = .ok b) : ∃ a, x = .ok a ∧ f a = .ok b := by
  cases x with
  | error e => cases success
  | ok a => exact ⟨a, rfl, success⟩

theorem Operation.script_drops {op : Operation} {r : Resource} {settings : Settings}
    {script : Script} (affects : op.affects r = true)
    (accepted : op.script settings = .ok script) :
    ∃ plan after, script = .call plan after ∧ after.drops r = true := by
  cases op with
  | setMode mode =>
    cases r <;> cases affects
    simp only [Operation.script] at accepted
    obtain ⟨m, _, last⟩ := bind_ok accepted
    cases last
    exact ⟨_, _, rfl, rfl⟩
  | setLogLevel level =>
    cases r <;> cases affects
    simp only [Operation.script] at accepted
    obtain ⟨l, _, last⟩ := bind_ok accepted
    cases last
    exact ⟨_, _, rfl, rfl⟩
  | setAllowLan enabled =>
    cases r <;> cases affects
    cases accepted
    exact ⟨_, _, rfl, rfl⟩
  | setIpv6 enabled =>
    cases r <;> cases affects
    cases accepted
    exact ⟨_, _, rfl, rfl⟩
  | setTun enabled =>
    cases r <;> cases affects
    cases accepted
    exact ⟨_, _, rfl, rfl⟩
  | select group node =>
    cases r <;> cases affects
    simp only [Operation.script] at accepted
    obtain ⟨group', _, rest⟩ := bind_ok accepted
    obtain ⟨node', _, last⟩ := bind_ok rest
    cases last
    exact ⟨_, _, rfl, rfl⟩
  | updateProvider name =>
    cases r <;> cases affects
    simp only [Operation.script] at accepted
    obtain ⟨name', _, last⟩ := bind_ok accepted
    cases last
    exact ⟨_, _, rfl, rfl⟩
  | reload path =>
    simp only [Operation.script] at accepted
    obtain ⟨path', _, last⟩ := bind_ok accepted
    cases last
    exact ⟨_, _, rfl, by cases r <;> rfl⟩
  | _ => cases r <;> cases affects

namespace Client

/-- Among the events, an operation is started as the job at an index. -/
def Starts (cl : Client) (events : List ClientEvent) (index : Nat) (op : Operation) : Prop :=
  ∃ before rest, events = before ++ .start op :: rest ∧ (cl.run before).jobs.length = index

/-- The job at an index is over after an event, with a success or an error, and was not before. -/
def Returns (cl : Client) (events : List ClientEvent) (event : ClientEvent) (index : Nat) : Prop :=
  (∀ result, (cl.run events).jobs[index]? ≠ some (.over result)) ∧
    ∃ result, (cl.run (events ++ [event])).jobs[index]? = some (.over result)

theorem leaves_step {cl : Client} {index : Nat} {job : Job} {after : Aftermath}
    (found : cl.jobs[index]? = some job) (leaves : job.Leaves after) (event : ClientEvent) :
    ∃ job', (cl.step event).jobs[index]? = some job' ∧
      (job'.Leaves after ∨ job' = .gone ∨ ((∃ result, job' = .over result) ∧
        ∀ r, after.drops r = true →
          (cl.step event).cacheOf r = (cl.cacheOf r).invalidate r.path)) := by
  obtain ⟨job', found', step⟩ := step_job found event
  refine ⟨job', found', ?_⟩
  cases step with
  | same => exact Or.inl leaves
  | hears t result =>
    refine Or.inl ?_
    cases job <;> exact leaves
  | gone => exact Or.inr (Or.inl rfl)
  | turns _ advance turn =>
    generalize cl.step event = cl' at turn ⊢
    cases turn with
    | begins plan after' call sends c evolves => exact Or.inl leaves
    | calls plan after' call call' sends c evolves => exact Or.inl leaves
    | ends plan after' call result c evolves =>
      cases leaves
      refine Or.inr (Or.inr ⟨⟨result, rfl⟩, ?_⟩)
      intro r dropped
      have cached : ((cl.settleAftermath after result).finishJob index result c).cacheOf r =
          (cl.settleAftermath after result).cacheOf r := by cases r <;> rfl
      rw [cached, settleAftermath_cacheOf, dropped]
      rfl
    | reads r modeOnly phase phase' sends c cache step => cases r <;> cases leaves
    | answers r modeOnly phase result c cache step => cases r <;> cases leaves
    | other _ _ sends c evolves aside idle =>
      rw [leaves.not_aside] at aside
      cases aside

theorem settled_step {cl : Client} {index : Nat} {job : Job} (found : cl.jobs[index]? = some job)
    (settled : job = .gone ∨ ∃ result, job = .over result) (event : ClientEvent) :
    (cl.step event).jobs[index]? = some job ∨ (cl.step event).jobs[index]? = some .gone := by
  obtain ⟨job', found', step⟩ := step_job found event
  cases step with
  | same => exact Or.inl found'
  | hears t result =>
    rcases settled with rfl | ⟨result', rfl⟩ <;> exact Or.inl found'
  | gone => exact Or.inr found'
  | turns _ advance turn =>
    obtain ⟨notGone, notOver⟩ := turn.unsettled
    rcases settled with rfl | ⟨result, rfl⟩
    · exact absurd rfl notGone
    · exact absurd rfl (notOver result)

/-- Before it returns, an operation that was started and accepted is still its call, unless
it was given up. -/
theorem started_leaves {cl : Client} {op : Operation} {plan : CallPlan Reply} {after : Aftermath}
    (accepted : op.script cl.settings = .ok (.call plan after)) {events : List ClientEvent}
    {index : Nat} (starts : cl.Starts events index op) :
    ∃ job, (cl.run events).jobs[index]? = some job ∧
      (job.Leaves after ∨ job = .gone ∨ ∃ result, job = .over result) := by
  obtain ⟨before, rest, rfl, rfl⟩ := starts
  induction rest using List.reverseRecOn with
  | nil =>
    rw [run_concat]
    refine ⟨_, List.getElem?_concat_length, Or.inl ?_⟩
    rw [(cl.run_grows before).settings, accepted]
    rfl
  | append_singleton rest event earlier =>
    obtain ⟨job, found, stands⟩ := earlier
    rw [← List.cons_append, ← List.append_assoc, run_concat]
    rcases stands with leaves | gone | finished
    · obtain ⟨job', found', stands'⟩ := leaves_step found leaves event
      refine ⟨job', found', ?_⟩
      rcases stands' with leaves' | gone | ⟨finished, _⟩
      · exact Or.inl leaves'
      · exact Or.inr (Or.inl gone)
      · exact Or.inr (Or.inr finished)
    · rcases settled_step found (Or.inl gone) event with same | gone'
      · exact ⟨job, same, Or.inr (Or.inl gone)⟩
      · exact ⟨.gone, gone', Or.inr (Or.inl rfl)⟩
    · rcases settled_step found (Or.inr finished) event with same | gone
      · exact ⟨job, same, Or.inr (Or.inr finished)⟩
      · exact ⟨.gone, gone, Or.inr (Or.inl rfl)⟩

/-- When an operation that affects a resource returns, the cache has nothing of the resource
left. -/
theorem returns_drops {cl : Client} {op : Operation} {r : Resource} {script : Script}
    (affects : op.affects r = true) (accepted : op.script cl.settings = .ok script)
    {before : List ClientEvent} {index : Nat} (starts : cl.Starts before index op)
    {event : ClientEvent} (returns : cl.Returns before event index) :
    (cl.run (before ++ [event])).cacheOf r = ((cl.run before).cacheOf r).invalidate r.path := by
  obtain ⟨plan, after, rfl, dropped⟩ := Operation.script_drops affects accepted
  obtain ⟨job, found, stands⟩ := started_leaves accepted starts
  obtain ⟨notOver, result, finished⟩ := returns
  rw [run_concat] at finished ⊢
  rcases stands with leaves | rfl | ⟨result', rfl⟩
  · obtain ⟨job', found', stands'⟩ := leaves_step found leaves event
    rw [finished] at found'
    cases found'
    rcases stands' with leaves' | gone | ⟨_, drops⟩
    · cases leaves'
    · cases gone
    · exact drops r dropped
  · rcases settled_step found (Or.inl rfl) event with gone | gone
    · rw [finished] at gone
      cases gone
    · rw [finished] at gone
      cases gone
  · exact absurd found (notOver result')

end Client

end ProxyConsole
