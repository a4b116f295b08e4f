import ProxyConsole.Proofs.Client.Ahead
import ProxyConsole.Proofs.Correlator.Sequence

/-!
# What a client sends

Each request that starts to be sent has a call of its own, registered in the same step.  So no two
requests are sent under one ticket, and as long as the ids have not come round no two under one id.
-/

set_option autoImplicit false

namespace ProxyConsole

/-- A step registers one call at most, and sends at most one request, under the ticket of
that call. -/
inductive Correlator.Posts (c : Correlator) : List Sending → Correlator → Prop where
  | quiet {c' : Correlator} (nextSeq : c'.nextSeq = c.nextSeq)
      (registered : c'.registered = c.registered) (pending : ∀ t ∈ c'.pending, t ∈ c.pending) :
      Posts c [] c'
  | registers {t : Ticket} {c' : Correlator} (success : c.allocate = some (t, c')) : Posts c [] c'
  | sends {t : Ticket} {c' : Correlator} (envelope : OutboundEnvelope)
      (success : c.allocate = some (t, c')) : Posts c [⟨t, envelope⟩] c'

namespace Correlator

theorem Posts.refl (c : Correlator) : c.Posts [] c :=
  .quiet rfl rfl fun _ member => member

theorem release_posts (c : Correlator) (t : Ticket) : c.Posts [] (c.release t) :=
  .quiet rfl rfl fun _ member => List.mem_of_mem_filter member

theorem conclude_posts (c : Correlator) (t : Ticket) : c.Posts [] (c.conclude t) := by
  unfold conclude
  split
  · exact c.release_posts t
  · exact .quiet rfl rfl fun _ member => member

theorem dispatch_posts (c : Correlator) (e : InboundEnvelope) : c.Posts [] (c.dispatch e).2 := by
  rcases c.dispatch_cases e with ⟨same, _⟩ | ⟨t, _, _, result⟩
  · rw [same]
    exact .refl c
  · rw [result]
    exact .quiet rfl rfl fun _ member => List.mem_of_mem_filter member

theorem cancelAll_posts (c : Correlator) : c.Posts [] c.cancelAll.2 :=
  .quiet rfl rfl fun _ member => by cases member

theorem foldl_release_posts (holders : List Attempt) (c : Correlator) :
    c.Posts [] (holders.foldl (fun c a => c.release a.ticket) c) := by
  have kept : ∀ (holders : List Attempt) (c' : Correlator),
      (holders.foldl (fun c a => c.release a.ticket) c').nextSeq = c'.nextSeq := by
    intro holders
    induction holders with
    | nil => exact fun c' => rfl
    | cons a rest ih => exact fun c' => ih (c'.release a.ticket)
  have reduces := foldl_release_reduces Attempt.ticket holders c
  exact .quiet (kept holders c) reduces.registered fun _ member => reduces.pending.subset member

/-- How many sequence numbers a step draws, those passed over included. -/
def draws (c c' : Correlator) : Nat :=
  if c'.registered = c.registered then 0 else c.passes + 1

/-- A step goes on in the sequence, and a request that it sends has the last number drawn. -/
theorem Posts.sequence {c c' : Correlator} {sends : List Sending} (posts : c.Posts sends c')
    {n : Nat} (next : c.nextSeq = UInt64.ofNat n) (few : n + c.draws c' ≤ UInt64.size) :
    c'.nextSeq = UInt64.ofNat (n + c.draws c') ∧
      ∀ s ∈ sends, s.ticket.id = RequestId.ofSequence s.ticket.seq ∧ n ≤ s.ticket.seq.toNat ∧
        s.ticket.seq.toNat < n + c.draws c' := by
  have registering : ∀ {t : Ticket}, c.allocate = some (t, c') →
      c'.nextSeq = UInt64.ofNat (n + c.draws c') ∧ t.id = RequestId.ofSequence t.seq ∧
        n ≤ t.seq.toNat ∧ t.seq.toNat < n + c.draws c' := by
    intro t success
    obtain ⟨_, _, _, _, registered⟩ := allocate_cases success
    have drawn : c.draws c' = c.passes + 1 := if_neg (by omega)
    rw [drawn] at few ⊢
    obtain ⟨value, next'⟩ := allocate_counted success next few
    exact ⟨next', (allocate_sequence success).1, by omega, by omega⟩
  cases posts with
  | quiet nextSeq registered pending =>
    have nothing : c.draws c' = 0 := if_pos registered
    rw [nothing, nextSeq]
    exact ⟨next, by simp⟩
  | registers success => exact ⟨(registering success).1, by simp⟩
  | sends envelope success =>
    refine ⟨(registering success).1, ?_⟩
    intro s member
    rw [List.mem_singleton.mp member]
    exact (registering success).2

end Correlator

/-- A step of something that shares the correlator sends what it registers. -/
def Progress.Posts {σ ρ : Type} (c : Correlator) : Progress σ ρ → Prop
  | .stay => True
  | .move _ sends c' => c.Posts sends c'
  | .finish _ c' => c.Posts [] c'

/-! ## Calls, waits, batches and reads -/

theorem Attempt.begin?_posts {request : Request} {timeout now : Nat} {c c' : Correlator}
    {a : Attempt} {sending : Sending}
    (begun : Attempt.begin? request timeout now c = some (a, sending, c')) :
    c.Posts [sending] c' := by
  obtain ⟨allocated, rfl⟩ := Attempt.begin?_cases begun
  exact .sends _ allocated

theorem Attempt.close_posts (a : Attempt) (c : Correlator) : c.Posts [] (a.close c) := by
  unfold Attempt.close
  split
  · exact c.conclude_posts a.ticket
  · exact c.release_posts a.ticket

namespace CallPlan

variable {α : Type}

theorem beginAttempt_posts (p : CallPlan α) (number now : Nat) {c c' : Correlator}
    {call : CallPhase} {sends : List Sending}
    (begun : p.beginAttempt number now c = (call, sends, c')) : c.Posts sends c' := by
  unfold beginAttempt at begun
  split at begun
  · cases begun
    exact .refl c
  · rename_i success
    cases begun
    exact Attempt.begin?_posts success

theorem afterAttempt_posts (p : CallPlan α) (number now : Nat) (result : Except CallError α)
    {c c' : Correlator} (posts : c.Posts [] c') :
    (p.afterAttempt number now result c').Posts c := by
  unfold afterAttempt
  split
  · exact posts
  · split <;> exact posts

theorem step_posts (p : CallPlan α) (call : CallPhase) (now : Nat) (c : Correlator) :
    (p.step call now c).Posts c := by
  unfold CallPlan.step
  split
  · rename_i number a
    split
    · trivial
    · exact p.afterAttempt_posts number now _ (a.close_posts c)
  · split
    · exact p.beginAttempt_posts _ now rfl
    · trivial
  · trivial

end CallPlan

namespace Wait

theorem probe_posts (w : Wait) (now : Nat) (c : Correlator) : (w.probe now c).Posts c := by
  unfold probe
  split
  · exact .refl c
  · rename_i success
    exact Attempt.begin?_posts success

theorem afterProbe_posts (w : Wait) (now : Nat) (result : Except CallError VersionInfo)
    {c c' : Correlator} (posts : c.Posts [] c') : (w.afterProbe now result c').Posts c := by
  unfold afterProbe
  split
  · exact posts
  · split
    · exact posts
    · split <;> exact posts

theorem step_posts (w : Wait) (stopFirst : Bool) (phase : WaitPhase) (now : Nat) (c : Correlator) :
    (w.step stopFirst phase now c).Posts c := by
  unfold Wait.step
  split
  · exact w.probe_posts now c
  · rename_i a
    split
    · trivial
    · exact w.afterProbe_posts now _ (a.close_posts c)
  · split
    · exact .refl c
    · split
      · exact w.probe_posts now c
      · trivial
  · trivial

end Wait

theorem TestPhase.step_posts {s : Settings} {b : Batch} {node : String} {now : Nat}
    {c c' : Correlator} {phase phase' : TestPhase} {sends : List Sending}
    (step : phase.step s b node now c = some (phase', sends, c')) : c.Posts sends c' := by
  unfold TestPhase.step at step
  split at step
  · split at step
    · cases step
      exact .refl c
    · cases step
      exact CallPlan.beginAttempt_posts _ 1 now rfl
  · rename_i plan call
    have posts := plan.step_posts call now c
    split at step
    · cases step
    · rename_i progress
      rw [progress] at posts
      cases step
      exact posts
    · rename_i progress
      rw [progress] at posts
      cases step
      exact posts
  · cases step

theorem Batch.step_posts (s : Settings) (b : Batch) (now : Nat) (c : Correlator) :
    (b.step s now c).Posts c := by
  have goes := b.step_goes s now c
  generalize b.step s now c = progress at goes ⊢
  cases goes with
  | tests _ _ _ _ _ _ _ step => exact TestPhase.step_posts step
  | stays => trivial
  | _ => exact .refl c

namespace ReadPlan

variable {α : Type}

theorem lookUp_posts (p : ReadPlan α) (now : Nat) (cache : Cache α) (c : Correlator) :
    (p.lookUp now cache c).1.Posts c := by
  unfold lookUp
  split
  · exact .refl c
  · exact .refl c
  · exact p.fetch.beginAttempt_posts 1 now rfl

theorem step_posts (p : ReadPlan α) (phase : ReadPhase) (now : Nat) (cache : Cache α)
    (c : Correlator) : (p.step phase now cache c).1.Posts c := by
  cases phase with
  | arriving => exact p.lookUp_posts now cache c
  | following flight =>
    simp only [ReadPlan.step]
    split
    · trivial
    · exact .refl c
    · exact p.lookUp_posts now cache c
  | leading flight call =>
    have posts := p.fetch.step_posts call now c
    simp only [ReadPlan.step]
    split
    · trivial
    · rename_i progress
      rw [progress] at posts
      exact posts
    · rename_i progress
      rw [progress] at posts
      exact posts

end ReadPlan

theorem Listener.step_posts {l l' : Listener} {stopFirst : Bool} {c c' : Correlator}
    (step : l.step stopFirst c = some (l', c')) : c.Posts [] c' := by
  unfold Listener.step at step
  split at step
  · cases step
  · split at step
    · cases step
      exact c.cancelAll_posts
    · split at step
      · cases step
        exact c.dispatch_posts _
      · split at step
        · cases step
          exact c.cancelAll_posts
        · cases step

namespace Client

/-- An event of a client sends what it registers. -/
def Posts (cl cl' : Client) : Prop :=
  ∃ sends, cl'.sends = cl.sends ++ sends ∧ cl.correlator.Posts sends cl'.correlator

theorem Posts.of_sends {cl cl' : Client} (sends : cl'.sends = cl.sends)
    (posts : cl.correlator.Posts [] cl'.correlator) : cl.Posts cl' :=
  ⟨[], by rw [sends, List.append_nil], posts⟩

theorem JobGoes.posts {cl cl' : Client} {index : Nat} {job job' : Job}
    (goes : cl.JobGoes index job job' cl') : cl.Posts cl' := by
  cases goes with
  | begins plan after call sends c step => exact ⟨sends, rfl, plan.beginAttempt_posts 1 cl.now step⟩
  | calls plan after call call' sends c step =>
    have posts := plan.step_posts call cl.now cl.correlator
    rw [step] at posts
    exact ⟨sends, rfl, posts⟩
  | ends plan after call result c step =>
    have posts := plan.step_posts call cl.now cl.correlator
    rw [step] at posts
    exact ⟨[], rfl, posts⟩
  | reads r modeOnly phase phase' sends c cache step =>
    have posts := (cl.planOf r).step_posts phase cl.now (cl.cacheOf r) cl.correlator
    rw [step] at posts
    refine ⟨sends, ?_, posts⟩
    simp only [moveJob, setJob, withCache_sends]
  | answers r modeOnly phase result c cache step =>
    have posts := (cl.planOf r).step_posts phase cl.now (cl.cacheOf r) cl.correlator
    rw [step] at posts
    refine .of_sends ?_ ?_
    · rw [finishRead_sends, withCache_sends]
    · rw [finishRead_correlator]
      exact posts
  | waits wait phase phase' sends c step =>
    have posts := wait.step_posts cl.stopFirst phase cl.now cl.correlator
    rw [step] at posts
    exact ⟨sends, rfl, posts⟩
  | waited wait phase result c step =>
    have posts := wait.step_posts cl.stopFirst phase cl.now cl.correlator
    rw [step] at posts
    exact ⟨[], rfl, posts⟩
  | tests batch batch' sends c step =>
    have posts := batch.step_posts cl.settings cl.now cl.correlator
    rw [step] at posts
    exact ⟨sends, rfl, posts⟩
  | tested batch results c step =>
    have posts := batch.step_posts cl.settings cl.now cl.correlator
    rw [step] at posts
    exact ⟨[], rfl, posts⟩
  | reserves t c allocated => exact ⟨[], rfl, .registers allocated⟩
  | awaited t limit deadline r ended => exact ⟨[], rfl, cl.correlator.conclude_posts t⟩

theorem withdraw_posts (cl : Client) (job : Job) :
    cl.correlator.Posts [] (cl.withdraw job).correlator := by
  have released := Correlator.foldl_release_posts job.attempts cl.correlator
  cases job with
  | awaiting t limit deadline => exact cl.correlator.release_posts t
  | _ => exact released

theorem step_posts (cl : Client) (event : ClientEvent) : cl.Posts (cl.step event) := by
  cases event with
  | advance index =>
    rcases cl.advance_cases index with ⟨_, still⟩ | ⟨_, _, _, goes⟩
    · rw [still]
      exact .of_sends rfl (.refl _)
    · exact goes.posts
  | listen =>
    simp only [step, stepListener]
    cases taken : cl.listener.step cl.stopFirst cl.correlator with
    | none => exact .of_sends rfl (.refl _)
    | some pair => exact .of_sends rfl (Listener.step_posts taken)
  | dispatch e => exact .of_sends rfl (cl.correlator.dispatch_posts e)
  | cancelPending => exact .of_sends rfl cl.correlator.cancelAll_posts
  | abandon index =>
    simp only [step, abandon]
    cases cl.jobs[index]? with
    | none => exact .of_sends rfl (.refl _)
    | some job => exact .of_sends (cl.withdraw_sends job) (cl.withdraw_posts job)
  | _ => exact .of_sends rfl (.refl _)

/-! ## Every request has a ticket of its own -/

/-- The requests sent so far have different tickets. -/
structure Sent (cl : Client) : Prop where
  shape : cl.correlator.WellFormed
  distinct : (cl.sends.map fun s => s.ticket.serial).Nodup
  older : ∀ s ∈ cl.sends, s.ticket.serial < cl.correlator.registered

theorem Sent.step {cl : Client} (sent : cl.Sent) (event : ClientEvent) : (cl.step event).Sent := by
  have evolves := (cl.step_extends event).correlator
  have registered := evolves.registered_le
  obtain ⟨sends, more, posts⟩ := cl.step_posts event
  have fresh : ∀ s ∈ sends, s.ticket.serial = cl.correlator.registered ∧
      (cl.step event).correlator.registered = cl.correlator.registered + 1 := by
    cases posts with
    | quiet => simp
    | registers => simp
    | sends envelope success =>
      intro s member
      obtain ⟨serial, _, _, _, longer⟩ := Correlator.allocate_cases success
      rw [List.mem_singleton.mp member]
      exact ⟨serial, longer⟩
  refine ⟨evolves.wellFormed sent.shape, ?_, ?_⟩
  · rw [more, List.map_append, List.nodup_append]
    refine ⟨sent.distinct, ?_, ?_⟩
    · cases posts <;> simp
    · intro serial earlier serial' later same
      obtain ⟨s, member, rfl⟩ := List.mem_map.mp earlier
      obtain ⟨s', member', rfl⟩ := List.mem_map.mp later
      have old := sent.older s member
      have new := (fresh s' member').1
      omega
  · intro s member
    rw [more] at member
    rcases List.mem_append.mp member with earlier | later
    · exact Nat.lt_of_lt_of_le (sent.older s earlier) registered
    · obtain ⟨serial, longer⟩ := fresh s later
      omega

theorem Sent.run {cl : Client} (sent : cl.Sent) (events : List ClientEvent) :
    (cl.run events).Sent := by
  induction events generalizing cl with
  | nil => exact sent
  | cons event rest ih => exact ih (sent.step event)

theorem sent_start (settings : Settings) : Sent { settings } :=
  ⟨Correlator.wellFormed_empty, by simp, by simp⟩

theorem Sent.filter_eq {cl : Client} (sent : cl.Sent) {s : Sending} (member : s ∈ cl.sends) :
    cl.sends.filter (·.ticket = s.ticket) = [s] := by
  obtain ⟨before, after, split⟩ := List.append_of_mem member
  have distinct := sent.distinct
  rw [split, List.map_append, List.map_cons, List.nodup_append, List.nodup_cons] at distinct
  obtain ⟨_, ⟨notAfter, _⟩, apart⟩ := distinct
  have earlier : before.filter (·.ticket = s.ticket) = [] := by
    rw [List.filter_eq_nil_iff]
    intro s' inside same
    have equal : s'.ticket = s.ticket := of_decide_eq_true same
    exact apart _ (List.mem_map_of_mem inside) _ List.mem_cons_self (by rw [equal])
  have later : after.filter (·.ticket = s.ticket) = [] := by
    rw [List.filter_eq_nil_iff]
    intro s' inside same
    have equal : s'.ticket = s.ticket := of_decide_eq_true same
    exact notAfter (List.mem_map.mpr ⟨s', inside, by rw [equal]⟩)
  rw [split, List.filter_append, earlier, List.filter_cons_of_pos (by simp), later, List.nil_append]

/-! ## How far the sequence goes -/

/-- What is noted of each event in turn while a sequence of events happens. -/
def watch {σ : Type} (note : Client → ClientEvent → σ → σ) (cl : Client) (seen : σ) :
    List ClientEvent → σ
  | [] => seen
  | event :: rest => (cl.step event).watch note (note cl event seen) rest

theorem watch_concat {σ : Type} (note : Client → ClientEvent → σ → σ) (cl : Client) (seen : σ)
    (events : List ClientEvent) (event : ClientEvent) :
    cl.watch note seen (events ++ [event]) =
      note (cl.run events) event (cl.watch note seen events) := by
  induction events generalizing cl seen with
  | nil => rfl
  | cons first rest ih => exact ih (cl.step first) (note cl first seen)

/-- How many sequence numbers are drawn while a sequence of events happens. -/
def drawn (cl : Client) (events : List ClientEvent) : Nat :=
  cl.watch (fun cl event n => n + cl.correlator.draws (cl.step event).correlator) 0 events

theorem drawn_concat (cl : Client) (events : List ClientEvent) (event : ClientEvent) :
    cl.drawn (events ++ [event]) = cl.drawn events +
      (cl.run events).correlator.draws (cl.run (events ++ [event])).correlator := by
  rw [run_concat]
  exact cl.watch_concat _ _ events event

theorem drawn_le_append (cl : Client) (events later : List ClientEvent) :
    cl.drawn events ≤ cl.drawn (events ++ later) := by
  induction later using List.reverseRecOn with
  | nil => exact Nat.le_of_eq (by rw [List.append_nil])
  | append_singleton later event earlier =>
    rw [← List.append_assoc, drawn_concat]
    exact Nat.le_trans earlier (Nat.le_add_right _ _)

/-- What was sent since a client stood as `cl`. -/
def sentSince (cl : Client) (events : List ClientEvent) : List Sending :=
  (cl.run events).sends.drop cl.sends.length

theorem sentSince_concat {cl : Client} {events : List ClientEvent} {event : ClientEvent}
    {sends : List Sending}
    (more : (cl.run (events ++ [event])).sends = (cl.run events).sends ++ sends) :
    cl.sentSince (events ++ [event]) = cl.sentSince events ++ sends := by
  rw [sentSince, more, List.drop_append_of_le_length (cl.run_grows events).sends.length_le]
  rfl

/-- The requests sent since have sequence numbers of their own among the next `n`. -/
structure Sequenced (cl : Client) (events : List ClientEvent) (n : Nat) : Prop where
  next : (cl.run events).correlator.nextSeq = UInt64.ofNat (cl.correlator.nextSeq.toNat + n)
  window : ∀ s ∈ cl.sentSince events, cl.correlator.nextSeq.toNat ≤ s.ticket.seq.toNat ∧
    s.ticket.seq.toNat < cl.correlator.nextSeq.toNat + n
  distinct : ((cl.sentSince events).map fun s => s.ticket.seq).Nodup
  ids : ∀ s ∈ cl.sentSince events, s.ticket.id = RequestId.ofSequence s.ticket.seq

theorem sequenced_run (cl : Client) (events : List ClientEvent)
    (few : cl.correlator.nextSeq.toNat + cl.drawn events ≤ UInt64.size) :
    cl.Sequenced events (cl.drawn events) := by
  induction events using List.reverseRecOn with
  | nil =>
    have nothing : cl.sentSince [] = [] := List.drop_length
    constructor
    · exact UInt64.ofNat_toNat.symm
    · rw [nothing]
      simp
    · rw [nothing]
      exact List.nodup_nil
    · rw [nothing]
      simp
  | append_singleton events event ih =>
    have total := cl.drawn_concat events event
    rw [total, ← Nat.add_assoc] at few
    have earlier := ih (by omega)
    obtain ⟨sends, more, posts⟩ := (cl.run events).step_posts event
    rw [← run_concat] at more posts
    obtain ⟨next, fresh⟩ := posts.sequence earlier.next few
    have since := sentSince_concat more
    refine ⟨?_, ?_, ?_, ?_⟩
    · rw [total, ← Nat.add_assoc]
      exact next
    · intro s member
      rw [since] at member
      rcases List.mem_append.mp member with old | new
      · obtain ⟨above, below⟩ := earlier.window s old
        omega
      · obtain ⟨_, above, below⟩ := fresh s new
        omega
    · rw [since, List.map_append, List.nodup_append]
      refine ⟨earlier.distinct, ?_, ?_⟩
      · cases posts <;> simp
      · intro seq old seq' new same
        obtain ⟨s, member, rfl⟩ := List.mem_map.mp old
        obtain ⟨s', member', rfl⟩ := List.mem_map.mp new
        have below := (earlier.window s member).2
        have above := (fresh s' member').2.1
        rw [same] at below
        omega
    · intro s member
      rw [since] at member
      rcases List.mem_append.mp member with old | new
      · exact earlier.ids s old
      · exact (fresh s new).1

/-- The ids do not come round while a sequence of events happens: no more sequence numbers
are drawn than there are ids, and their counter does not start again. -/
structure IdsLast (cl : Client) (events : List ClientEvent) : Prop where
  ids : cl.drawn events ≤ RequestId.count
  counter : cl.correlator.nextSeq.toNat + cl.drawn events ≤ UInt64.size

/-- Requests that are sent while the ids do not come round have different ids. -/
theorem IdsLast.nodup {cl : Client} {events : List ClientEvent} (last : cl.IdsLast events) :
    ((cl.sentSince events).map fun s => s.ticket.id).Nodup := by
  have sequenced := cl.sequenced_run events last.counter
  have within : ∀ s ∈ cl.sentSince events, cl.correlator.nextSeq.toNat ≤ s.ticket.seq.toNat ∧
      s.ticket.seq.toNat < cl.correlator.nextSeq.toNat + RequestId.count := by
    intro s member
    obtain ⟨above, below⟩ := sequenced.window s member
    exact ⟨above, Nat.lt_of_lt_of_le below (Nat.add_le_add_left last.ids _)⟩
  refine List.Nodup.map_on ?_ sequenced.distinct.of_map
  intro s member s' member' same
  rw [sequenced.ids s member, sequenced.ids s' member'] at same
  have seq := RequestId.eq_of_ofSequence (within s member) (within s' member') same
  exact List.inj_on_of_nodup_map sequenced.distinct member member' seq

end Client

end ProxyConsole
