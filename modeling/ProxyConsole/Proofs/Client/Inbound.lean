import ProxyConsole.Proofs.Client.Tickets

/-!
# The inbound stream of a client

While anything else happens, the listener takes the responses that are put on the
inbound channel one by one and in their order.  If nobody else tells the correlator
anything, the holder of a ticket is told of the first response with its id that the
listener takes, and of the end if the listener ends before.
-/

set_option autoImplicit false

namespace ProxyConsole.Client

variable {cl : Client} {event : ClientEvent} {later : List ClientEvent}

/-! ## What the listener takes -/

/-- What an event puts on the inbound channel. -/
def puts (cl : Client) : ClientEvent → List InboundEnvelope
  | .arrive e => if (cl.listener.arrive e).1 then [e] else []
  | _ => []

/-- What the listener takes from the channel by an event. -/
def takes (cl : Client) : ClientEvent → List InboundEnvelope
  | .listen => (cl.listener.next? cl.stopFirst).toList
  | _ => []

/-- The responses put on the inbound channel over a sequence of events, in order. -/
def put (cl : Client) (events : List ClientEvent) : List InboundEnvelope :=
  cl.watch (fun cl event seen => seen ++ cl.puts event) [] events

/-- The responses that the listener takes over a sequence of events, in order. -/
def taken (cl : Client) (events : List ClientEvent) : List InboundEnvelope :=
  cl.watch (fun cl event seen => seen ++ cl.takes event) [] events

theorem put_concat (cl : Client) (events : List ClientEvent) (event : ClientEvent) :
    cl.put (events ++ [event]) = cl.put events ++ (cl.run events).puts event :=
  cl.watch_concat _ _ events event

theorem taken_concat (cl : Client) (events : List ClientEvent) (event : ClientEvent) :
    cl.taken (events ++ [event]) = cl.taken events ++ (cl.run events).takes event :=
  cl.watch_concat _ _ events event

/-- All that the listener can do: dispatch the next response, end, or nothing. -/
inductive Listens (cl : Client) : Client → Prop where
  | takes (e : InboundEnvelope) (rest : List InboundEnvelope)
      (next : cl.listener.next? cl.stopFirst = some e)
      (queue : cl.listener.queue = e :: rest) (lasts : cl.listener.isEnding cl.stopFirst = false) :
      Listens cl { cl with
        listener := { cl.listener with queue := rest }
        correlator := (cl.correlator.dispatch e).2 }
  | ends (next : cl.listener.next? cl.stopFirst = none)
      (ending : cl.listener.isEnding cl.stopFirst = true) : Listens cl { cl with
        listener := { cl.listener with queue := [], isRunning := false }
        correlator := cl.correlator.cancelAll.2 }
  | rests (next : cl.listener.next? cl.stopFirst = none)
    (lasts : cl.listener.isEnding cl.stopFirst = false) : Listens cl cl

theorem step_listens (cl : Client) : cl.Listens (cl.step .listen) := by
  have steps := cl.listener.step_cases cl.stopFirst cl.correlator
  simp only [step, stepListener]
  generalize cl.listener.step cl.stopFirst cl.correlator = result at steps
  cases steps with
  | takes e rest next queue lasts => exact .takes e rest next queue lasts
  | ends next ending => exact .ends next ending
  | rests next lasts => exact .rests next lasts

theorem step_ending (ending : cl.listener.isEnding cl.stopFirst = true) :
    cl.step .listen = { cl with
      listener := { cl.listener with queue := [], isRunning := false }
      correlator := cl.correlator.cancelAll.2 } := by
  have steps := cl.step_listens
  generalize cl.step .listen = cl' at steps
  cases steps with
  | ends next _ => rfl
  | takes e rest next queue lasts =>
    rw [ending] at lasts
    cases lasts
  | rests next lasts =>
    rw [ending] at lasts
    cases lasts

theorem JobGoes.listener {cl' : Client} {index : Nat} {job job' : Job}
    (goes : cl.JobGoes index job job' cl') : cl'.listener = cl.listener := by
  cases goes with
  | reads r => cases r <;> rfl
  | answers r => cases r <;> rfl
  | _ => rfl

/-- What becomes of the listener by an event, with what is put on the channel and what is
taken from it. -/
inductive ListenerTurn (cl : Client) (event : ClientEvent) :
    List InboundEnvelope → List InboundEnvelope → Listener → Prop where
  | takes (e : InboundEnvelope) (rest : List InboundEnvelope) (listens : event = .listen)
      (running : cl.listener.isRunning = true) (queue : cl.listener.queue = e :: rest) :
      ListenerTurn cl event [] [e] { cl.listener with queue := rest }
  | ends (listens : event = .listen) (running : cl.listener.isRunning = true)
      (cause : cl.listener.isStopped = true ∨ cl.listener.queue = []) :
      ListenerTurn cl event [] [] { cl.listener with queue := [], isRunning := false }
  | puts (e : InboundEnvelope) (running : cl.listener.isRunning = true) :
      ListenerTurn cl event [e] [] { cl.listener with queue := cl.listener.queue ++ [e] }
  | keeps (l : Listener) (queue : l.queue = cl.listener.queue)
      (running : l.isRunning = cl.listener.isRunning)
      (stopped : l.isStopped = true → cl.listener.isStopped = true ∨ event = .stopListener) :
      ListenerTurn cl event [] [] l

theorem ListenerTurn.same {l : Listener} (same : l = cl.listener) : cl.ListenerTurn event [] [] l :=
  .keeps l (by rw [same]) (by rw [same]) fun stopped => Or.inl (same ▸ stopped)

theorem step_listener (cl : Client) (event : ClientEvent) :
    cl.ListenerTurn event (cl.puts event) (cl.takes event) (cl.step event).listener := by
  cases event with
  | listen =>
    simp only [puts, Client.takes]
    have steps := cl.step_listens
    generalize cl.step .listen = cl' at steps
    cases steps with
    | takes e rest next queue lasts =>
      rw [next]
      exact .takes e rest rfl (Listener.isRunning_of_next next) queue
    | ends next ending =>
      obtain ⟨running, cause⟩ := Listener.isEnding_cases ending
      rw [next]
      exact .ends rfl running cause
    | rests next lasts =>
      rw [next]
      exact .same rfl
  | arrive e =>
    simp only [puts, Client.takes, step, Listener.arrive]
    split
    · rename_i accepted
      exact .puts e (Bool.and_eq_true_iff.mp accepted).2
    · exact .same rfl
  | closeInbound => exact .keeps _ rfl rfl Or.inl
  | stopListener => exact .keeps _ rfl rfl fun _ => Or.inr rfl
  | advance index =>
    refine .same ?_
    rcases cl.advance_cases index with ⟨_, still⟩ | ⟨job, job', _, goes⟩
    · rw [still]
    · exact goes.listener
  | abandon index =>
    refine .same ?_
    simp only [step, abandon]
    cases cl.jobs[index]? with
    | none => rfl
    | some job => cases job <;> rfl
  | _ => exact .same rfl

/-- What was put comes after what was there, and what was taken came first.  Only a listener
that was told to stop loses anything, and it ends by that. -/
structure InOrder (cl : Client) (events : List ClientEvent) (lost : List InboundEnvelope) :
    Prop where
  queue : cl.listener.queue ++ cl.put events =
    cl.taken events ++ (cl.run events).listener.queue ++ lost
  loses : lost ≠ [] → (cl.run events).listener.isRunning = false ∧
    (cl.listener.isStopped = true ∨ .stopListener ∈ events)
  stopped : (cl.run events).listener.isStopped = true →
    cl.listener.isStopped = true ∨ .stopListener ∈ events

theorem InOrder.nothing {lost : List InboundEnvelope} {events : List ClientEvent}
    (order : cl.InOrder events lost) (running : (cl.run events).listener.isRunning = true) :
    lost = [] := by
  by_contra left
  have ended := (order.loses left).1
  rw [running] at ended
  cases ended

theorem InOrder.concat {lost : List InboundEnvelope} {events : List ClientEvent}
    (order : cl.InOrder events lost) (event : ClientEvent) :
    ∃ lost', cl.InOrder (events ++ [event]) lost' := by
  have turn := (cl.run events).step_listener event
  rw [← run_concat] at turn
  have put := cl.put_concat events event
  have taken := cl.taken_concat events event
  have longer : ∀ {p : Prop}, p ∨ .stopListener ∈ events → p ∨ .stopListener ∈ events ++ [event] :=
    fun cause => cause.imp_right (List.mem_append_left _)
  have queue := order.queue
  generalize (cl.run events).puts event = more at turn put
  generalize (cl.run events).takes event = first at turn taken
  generalize next : (cl.run (events ++ [event])).listener = l at turn
  cases turn with
  | takes e rest _ running head =>
    obtain rfl := order.nothing running
    refine ⟨[], ?_, nofun, ?_⟩
    · rw [put, taken, next, List.append_nil, queue, head]
      simp
    · rw [next]
      exact fun stopped => longer (order.stopped stopped)
  | ends _ running cause =>
    obtain rfl := order.nothing running
    refine ⟨(cl.run events).listener.queue, ?_, ?_, ?_⟩
    · rw [put, taken, next, List.append_nil, queue]
      simp
    · intro left
      rw [next]
      exact ⟨rfl, longer (order.stopped (cause.resolve_right left))⟩
    · rw [next]
      exact fun stopped => longer (order.stopped stopped)
  | puts e running =>
    obtain rfl := order.nothing running
    refine ⟨[], ?_, nofun, ?_⟩
    · rw [put, taken, next, ← List.append_assoc, queue]
      simp
    · rw [next]
      exact fun stopped => longer (order.stopped stopped)
  | keeps _ same running stopped =>
    refine ⟨lost, ?_, ?_, ?_⟩
    · rw [put, taken, next, same, List.append_nil, List.append_nil, queue]
    · intro left
      rw [next, running]
      exact ⟨(order.loses left).1, longer (order.loses left).2⟩
    · rw [next]
      intro told
      rcases stopped told with before | now
      · exact longer (order.stopped before)
      · exact Or.inr (List.mem_append_right _ (List.mem_singleton.mpr now.symm))

theorem inOrder_run (cl : Client) (events : List ClientEvent) : ∃ lost, cl.InOrder events lost := by
  induction events using List.reverseRecOn with
  | nil =>
    refine ⟨[], ?_, nofun, Or.inl⟩
    change cl.listener.queue ++ [] = [] ++ cl.listener.queue ++ []
    simp
  | append_singleton events event earlier =>
    obtain ⟨lost, order⟩ := earlier
    exact order.concat event

theorem emptied_run (settings : Settings) (events : List ClientEvent)
    (ended : (run { settings } events).listener.isRunning = false) :
    (run { settings } events).listener.queue = [] := by
  induction events using List.reverseRecOn with
  | nil => rfl
  | append_singleton events event earlier =>
    have turn := (run { settings } events).step_listener event
    rw [← run_concat] at turn
    generalize (run { settings } events).puts event = more at turn
    generalize (run { settings } events).takes event = first at turn
    generalize (run { settings } (events ++ [event])).listener = l at turn ended
    cases turn with
    | takes e rest _ running head =>
      rw [running] at ended
      cases ended
    | ends _ running cause => rfl
    | puts e running =>
      rw [running] at ended
      cases ended
    | keeps _ same running stopped =>
      rw [same]
      exact earlier (running ▸ ended)

theorem isRunning_run (cl : Client) {events : List ClientEvent}
    (running : (cl.run events).listener.isRunning = true) : cl.listener.isRunning = true := by
  induction events using List.reverseRecOn with
  | nil => exact running
  | append_singleton events event earlier =>
    apply earlier
    rw [run_concat] at running
    have turn := (cl.run events).step_listener event
    generalize (cl.run events).puts event = more at turn
    generalize (cl.run events).takes event = first at turn
    generalize ((cl.run events).step event).listener = l at turn running
    cases turn with
    | takes e rest _ before head => exact before
    | ends _ before cause => cases running
    | puts e before => exact before
    | keeps _ same before stopped => rw [← before, running]

theorem ended_run {cl : Client} (ended : cl.listener.isRunning = false)
    (events : List ClientEvent) : (cl.run events).listener.isRunning = false := by
  by_contra left
  rw [Bool.not_eq_false] at left
  rw [isRunning_run cl left] at ended
  cases ended

/-! ## What the holder of a ticket is told -/

/-- Nobody but the listener tells the correlator anything. -/
def Solitary (events : List ClientEvent) : Prop :=
  ∀ event ∈ events, event.tells = true → event = .listen

theorem Solitary.of_concat (solitary : Solitary (later ++ [event])) :
    Solitary later ∧ (event.tells = true → event = .listen) :=
  ⟨fun e member => solitary e (List.mem_append_left _ member),
    solitary event (List.mem_append_right _ (List.mem_singleton.mpr rfl))⟩

/-- What the holder of a ticket is told once the listener has taken some responses, and has perhaps
ended since. -/
def news (t : Ticket) (taken : List InboundEnvelope) (ended : Bool) (status : TicketStatus) :
    TicketStatus :=
  if ended then (status.hear t taken).cutOff else status.hear t taken

/-- Whether the listener ends over a sequence of events. -/
def hasEnded (cl : Client) (events : List ClientEvent) : Bool :=
  cl.listener.isRunning && !(cl.run events).listener.isRunning

variable {settings : Settings} {before : List ClientEvent} {t : Ticket}

theorem listen_status (shape : cl.correlator.WellFormed) (t : Ticket) :
    (cl.step .listen).correlator.status t =
      news t (cl.takes .listen) (cl.hasEnded [.listen]) (cl.correlator.status t) := by
  have ended : cl.hasEnded [.listen] =
      (cl.listener.isRunning && !(cl.step .listen).listener.isRunning) := rfl
  have steps := cl.step_listens
  rw [ended]
  generalize cl.step .listen = cl' at steps
  cases steps with
  | takes e rest next queue lasts =>
    simp only [Client.takes, next, Option.toList_some, Bool.and_not_self, news, Bool.false_eq_true,
      if_false]
    exact shape.status_dispatch e t
  | ends next ending =>
    simp only [Client.takes, next, Option.toList_none, (Listener.isEnding_cases ending).1,
      Bool.not_false, Bool.and_self, news, if_true, TicketStatus.hear_nil]
    exact shape.status_cancelAll t
  | rests next lasts =>
    simp only [Client.takes, next, Option.toList_none, Bool.and_not_self, news, Bool.false_eq_true,
      if_false, TicketStatus.hear_nil]

theorem untold_quiet (cl : Client) (untold : event.tells = false) :
    cl.takes event = [] ∧ cl.hasEnded [event] = false := by
  have other : event ≠ .listen := by
    rintro rfl
    cases untold
  have turn := cl.step_listener event
  have ended : cl.hasEnded [event] =
      (cl.listener.isRunning && !(cl.step event).listener.isRunning) := rfl
  rw [ended]
  generalize cl.puts event = more at turn
  generalize cl.takes event = first at turn
  generalize (cl.step event).listener = l at turn
  cases turn with
  | takes e rest listens running head => exact absurd listens other
  | ends listens running cause => exact absurd listens other
  | puts e running => exact ⟨rfl, Bool.and_not_self _⟩
  | keeps _ same running stopped => exact ⟨rfl, by rw [running, Bool.and_not_self]⟩

theorem status_step (apart : (run { settings } before).TicketsApart)
    (solitary : event.tells = true → event = .listen) (held : t ∈ (run { settings } before).held)
    (held' : t ∈ (run { settings } (before ++ [event])).held) :
    (run { settings } (before ++ [event])).correlator.status t =
      news t ((run { settings } before).takes event) ((run { settings } before).hasEnded [event])
        ((run { settings } before).correlator.status t) := by
  cases tells : event.tells with
  | true =>
    obtain rfl := solitary tells
    rw [run_concat]
    exact listen_status ((sent_start settings).run before).shape t
  | false =>
    obtain ⟨nothing, lasts⟩ := (run { settings } before).untold_quiet tells
    rw [status_kept apart tells held held', nothing, lasts, news, TicketStatus.hear_nil]
    rfl

theorem takes_ended (ended : cl.listener.isRunning = false) (event : ClientEvent) :
    cl.takes event = [] := by
  cases event with
  | listen => simp [takes, Listener.next?, ended]
  | _ => rfl

/-- As long as an attempt holds a ticket, its holder is told of the first response with its
id that the listener takes, or else of the end of the listener. -/
theorem status_run (apart : (run { settings } before).StaysApart later) (solitary : Solitary later)
    (held : t ∈ (run { settings } before).held)
    (held' : t ∈ (run { settings } (before ++ later)).held) :
    (run { settings } (before ++ later)).correlator.status t =
      news t ((run { settings } before).taken later) ((run { settings } before).hasEnded later)
        ((run { settings } before).correlator.status t) := by
  induction later using List.reverseRecOn with
  | nil =>
    have same : (run { settings } before).hasEnded [] = false := Bool.and_not_self _
    rw [List.append_nil, same]
    exact (TicketStatus.hear_nil t _).symm
  | append_singleton later event earlier =>
    rw [← List.append_assoc] at held' ⊢
    have apart' := apart later (List.prefix_append _ _)
    rw [← run_append] at apart'
    obtain ⟨solitary, last⟩ := solitary.of_concat
    have between := held_between held held'
    have now := earlier apart.of_append solitary between
    rw [status_step apart' last between held', now, taken_concat, ← run_append]
    cases running : (run { settings } (before ++ later)).listener.isRunning with
    | true =>
      -- the listener has been running so far, so its end is that by the last event, if any
      have still : ((run { settings } before).run later).listener.isRunning = true := by
        rw [← run_append]
        exact running
      have running₀ := isRunning_run (run { settings } before) still
      have lasted : (run { settings } before).hasEnded later = false := by
        rw [hasEnded, ← run_append, running, Bool.not_true, Bool.and_false]
      have ended : (run { settings } before).hasEnded (later ++ [event]) =
          (run { settings } (before ++ later)).hasEnded [event] := by
        rw [hasEnded, hasEnded, running, running₀, run_append, run_append]
      rw [lasted, ended, news, news, news, TicketStatus.hear_append]
      rfl
    | false =>
      have nothing := takes_ended running event
      have still : (run { settings } (before ++ later)).hasEnded [event] = false := by
        rw [hasEnded, running, Bool.false_and]
      have ended : (run { settings } before).hasEnded (later ++ [event]) =
          (run { settings } before).hasEnded later := by
        have after := ended_run running [event]
        rw [← run_append, List.append_assoc, run_append] at after
        rw [hasEnded, hasEnded, after, ← run_append, running]
      rw [nothing, still, ended, List.append_nil]
      exact TicketStatus.hear_nil t _

/-! ## After the end of the listener -/

/-- Once the listener has ended, no response is delivered to any call, unless it is
dispatched past the listener. -/
theorem delivered_run (ended : cl.listener.isRunning = false) {later : List ClientEvent}
    (undispatched : ∀ e, .dispatch e ∉ later) :
    ∀ d ∈ (cl.run later).correlator.delivered, d ∈ cl.correlator.delivered := by
  induction later using List.reverseRecOn with
  | nil => exact fun d member => member
  | append_singleton later event earlier =>
    have before := earlier fun e member => undispatched e (List.mem_append_left _ member)
    have ended' := ended_run ended later
    rw [run_concat]
    intro d member
    apply before
    cases tells : event.tells with
    | false => exact ((cl.run later).step_held event).silent tells d member
    | true =>
      cases event with
      | listen =>
        have steps := (cl.run later).step_listens
        generalize (cl.run later).step .listen = cl' at steps member
        cases steps with
        | takes e rest next queue lasts =>
          rw [Listener.isRunning_of_next next] at ended'
          cases ended'
        | ends next ending => exact member
        | rests next lasts => exact member
      | dispatch e =>
        exact absurd (List.mem_append_right _ (List.mem_singleton.mpr rfl)) (undispatched e)
      | cancelPending => exact member
      | _ => cases tells

/-- If nobody else tells the correlator anything, a call that is registered after the end of
the listener waits as long as its attempt lasts. -/
theorem waiting_late (ended : (run { settings } before).listener.isRunning = false)
    (apart : (run { settings } before).StaysApart later) (solitary : Solitary later)
    (held : t ∈ (run { settings } (before ++ later)).held)
    (late : (run { settings } before).correlator.registered ≤ t.serial) :
    (run { settings } (before ++ later)).correlator.status t = .waiting := by
  induction later using List.reverseRecOn with
  | nil =>
    rw [List.append_nil] at held
    have older := registered_of_held held
    omega
  | append_singleton later event earlier =>
    rw [← List.append_assoc] at held ⊢
    have apart' := apart later (List.prefix_append _ _)
    rw [← run_append] at apart'
    obtain ⟨solitary, last⟩ := solitary.of_concat
    have turn := (run { settings } (before ++ later)).step_held event
    rw [← run_concat] at turn
    rcases turn.held_cases held with between | ⟨_, pending⟩
    · have ended' := ended_run ended later
      rw [← run_append] at ended'
      have lasts : (run { settings } (before ++ later)).hasEnded [event] = false := by
        rw [hasEnded, ended', Bool.false_and]
      rw [status_step apart' last between held, takes_ended ended', lasts,
        earlier apart.of_append solitary between]
      rfl
    · exact ((sent_start settings).run _).shape.status_waiting pending

end ProxyConsole.Client
