import Mathlib.Data.List.Perm.Subperm
import ProxyConsole.Proofs.Correlator.Listening
import ProxyConsole.Proofs.Client.Steps

/-!
# Who holds a ticket

Each attempt under way holds the ticket that its request was sent under, and no two
attempts hold the same one.  A job gives up tickets that it held and takes new ones, so
what the correlator keeps for one attempt is not touched by any other.
-/

set_option autoImplicit false

namespace ProxyConsole

/-! ## Tickets change hands -/

namespace Correlator

/-- Some tickets are given up, and the new tickets of some requests are pending.  What is
kept for any other ticket stays, and no response is delivered. -/
structure Gives (c : Correlator) (given : List Ticket) (sends : List Sending) (c' : Correlator) :
    Prop where
  pending : ∀ t ∈ c.pending, (∀ u ∈ given, u.seq ≠ t.seq) → t ∈ c'.pending
  delivered : ∀ d ∈ c.delivered, d.1 ∉ given → d ∈ c'.delivered
  silent : ∀ d ∈ c'.delivered, d ∈ c.delivered
  registers : ∀ s ∈ sends, s.ticket.serial = c.registered ∧ s.ticket ∈ c'.pending

/-- Whoever held some tickets holds others now: those that are gone were given up, and those
that are new belong to requests that start to be sent. -/
def Trades (c : Correlator) (held : List Ticket) (sends : List Sending) (held' : List Ticket)
    (c' : Correlator) : Prop :=
  ∃ given, given ⊆ held ∧ (held' ++ given).Perm (sends.map Sending.ticket ++ held) ∧
    c.Gives given sends c'

variable {c c' : Correlator}

theorem Gives.refl (c : Correlator) : c.Gives [] [] c :=
  ⟨fun _ member _ => member, fun _ member _ => member, fun _ member => member, nofun⟩

theorem Gives.append {c'' : Correlator} {given more : List Ticket} (first : c.Gives given [] c')
    (next : c'.Gives more [] c'') : c.Gives (given ++ more) [] c'' where
  pending := by
    intro t member other
    refine next.pending t (first.pending t member ?_) ?_
    · exact fun u given => other u (List.mem_append_left _ given)
    · exact fun u given => other u (List.mem_append_right _ given)
  delivered := by
    intro d member other
    rw [List.mem_append, not_or] at other
    exact next.delivered d (first.delivered d member other.1) other.2
  silent d member := first.silent d (next.silent d member)
  registers := nofun

theorem release_gives (c : Correlator) (t : Ticket) : c.Gives [t] [] (c.release t) where
  pending := by
    intro u member other
    have foreign := other t List.mem_cons_self
    exact List.mem_filter.mpr ⟨member, by simp [foreign.symm]⟩
  delivered := by
    intro d member other
    rw [List.mem_singleton] at other
    exact mem_collect other member
  silent _ member := List.mem_of_mem_filter member
  registers := nofun

theorem conclude_gives (c : Correlator) (t : Ticket) : c.Gives [t] [] (c.conclude t) := by
  unfold conclude
  split
  · exact c.release_gives t
  · refine ⟨fun _ member _ => member, ?_, fun _ member => List.mem_of_mem_filter member, nofun⟩
    intro d member other
    rw [List.mem_singleton] at other
    exact mem_collect other member

theorem foldl_release_gives (attempts : List Attempt) (c : Correlator) :
    c.Gives (attempts.map Attempt.ticket) []
      (attempts.foldl (fun c a => c.release a.ticket) c) := by
  induction attempts generalizing c with
  | nil => exact .refl c
  | cons a rest ih => exact (c.release_gives a.ticket).append (ih _)

theorem allocate_gives {t : Ticket} {sends : List Sending} (success : c.allocate = some (t, c'))
    (own : ∀ s ∈ sends, s.ticket = t) : c.Gives [] sends c' := by
  obtain ⟨serial, _, pending, delivered, _⟩ := allocate_cases success
  refine ⟨?_, ?_, ?_, ?_⟩
  · intro u member _
    rw [pending]
    exact List.mem_append_left _ member
  · intro d member _
    rw [delivered]
    exact member
  · intro d member
    rw [delivered] at member
    exact member
  · intro s member
    rw [own s member, pending]
    exact ⟨serial, List.mem_append_right _ (List.mem_singleton.mpr rfl)⟩

/-- The holder of a ticket is told the same as before if all tickets given up are of other
numbers. -/
theorem Gives.status {given : List Ticket} {sends : List Sending} {t : Ticket}
    (gives : c.Gives given sends c') (evolves : c.Evolves c') (shape : c.WellFormed)
    (older : t.serial < c.registered) (apart : ∀ u ∈ given, u.seq ≠ t.seq) :
    c'.status t = c.status t := by
  have shape' := evolves.wellFormed shape
  by_cases pending : t ∈ c.pending
  · rw [shape.status_waiting pending, shape'.status_waiting (gives.pending t pending apart)]
  · by_cases answered : ∃ e, (t, e) ∈ c.delivered
    · obtain ⟨e, kept⟩ := answered
      have kept' := gives.delivered (t, e) kept fun member => apart t member rfl
      rw [shape.status_of_delivered kept, shape'.status_of_delivered kept']
    · have lapsed : c.Lapsed t := ⟨older, pending, fun e kept => answered ⟨e, kept⟩⟩
      rw [lapsed.status, (lapsed.evolves evolves).status]

theorem Trades.refl (c : Correlator) (held : List Ticket) : c.Trades held [] held c :=
  ⟨[], List.nil_subset _, by simp, .refl c⟩

theorem Trades.frame {held held' : List Ticket} {sends : List Sending}
    (trades : c.Trades held sends held' c') (before after : List Ticket) :
    c.Trades (before ++ held ++ after) sends (before ++ held' ++ after) c' := by
  obtain ⟨given, own, balance, gives⟩ := trades
  refine ⟨given, ?_, ?_, gives⟩
  · intro t gone
    exact List.mem_append_left _ (List.mem_append_right _ (own gone))
  rw [List.perm_iff_count] at balance ⊢
  intro t
  have own := balance t
  simp only [List.count_append] at own ⊢
  omega

end Correlator

/-- A step of something that shares the correlator trades the tickets that it held, by the
phase that it comes to. -/
def Progress.Trades {σ ρ : Type} (c : Correlator) (holds : σ → List Ticket) (held : List Ticket) :
    Progress σ ρ → Prop
  | .stay => True
  | .move phase sends c' => c.Trades held sends (holds phase) c'
  | .finish _ c' => c.Trades held [] [] c'

/-! ## Calls, waits, batches and reads -/

/-- The ticket of the attempt under way, if there is one. -/
def CallPhase.tickets (call : CallPhase) : List Ticket :=
  call.attempt?.toList.map Attempt.ticket

def ReadPhase.tickets (phase : ReadPhase) : List Ticket :=
  phase.attempt?.toList.map Attempt.ticket

def WaitPhase.tickets (phase : WaitPhase) : List Ticket :=
  phase.attempt?.toList.map Attempt.ticket

def TestPhase.tickets (phase : TestPhase) : List Ticket :=
  phase.attempt?.toList.map Attempt.ticket

def Batch.tickets (b : Batch) : List Ticket :=
  b.attempts.map Attempt.ticket

def Job.tickets (job : Job) : List Ticket :=
  job.attempts.map Attempt.ticket

theorem Attempt.close_trades (a : Attempt) (c : Correlator) :
    c.Trades [a.ticket] [] [] (a.close c) := by
  refine ⟨[a.ticket], List.Subset.refl _, List.Perm.refl _, ?_⟩
  unfold Attempt.close
  split
  · exact c.conclude_gives a.ticket
  · exact c.release_gives a.ticket

theorem allocate_trades {request : Request} {c c' : Correlator} {t : Ticket}
    (allocated : c.allocate = some (t, c')) :
    c.Trades [] [⟨t, request.envelope t.id⟩] [t] c' :=
  ⟨[], List.Subset.refl _, List.Perm.refl _, Correlator.allocate_gives allocated (by simp)⟩

theorem Attempt.begin?_trades {request : Request} {timeout now : Nat} {c c' : Correlator}
    {a : Attempt} {sending : Sending}
    (begun : Attempt.begin? request timeout now c = some (a, sending, c')) :
    c.Trades [] [sending] [a.ticket] c' := by
  obtain ⟨allocated, rfl⟩ := Attempt.begin?_cases begun
  exact allocate_trades allocated

namespace CallPlan

variable {α : Type}

theorem beginAttempt_trades (p : CallPlan α) (number now : Nat) {c c' : Correlator}
    {call : CallPhase} {sends : List Sending}
    (begun : p.beginAttempt number now c = (call, sends, c')) :
    c.Trades [] sends call.tickets c' := by
  unfold beginAttempt at begun
  split at begun
  · cases begun
    exact .refl c []
  · rename_i success
    cases begun
    exact Attempt.begin?_trades success

theorem step_trades (p : CallPlan α) (call : CallPhase) (now : Nat) (c : Correlator) :
    (p.step call now c).Trades c CallPhase.tickets call.tickets := by
  have steps := p.step_cases call now c
  generalize p.step call now c = progress at steps
  cases steps with
  | ends number a ending ended last => exact a.close_trades c
  | pauses number a ending ended retryable left => exact a.close_trades c
  | resumes number resume due call sends c' begun => exact p.beginAttempt_trades _ now begun
  | _ => trivial

end CallPlan

namespace Wait

theorem step_trades (w : Wait) (stopFirst : Bool) (phase : WaitPhase) (now : Nat) (c : Correlator) :
    (w.step stopFirst phase now c).Trades c WaitPhase.tickets phase.tickets := by
  have steps := w.step_cases stopFirst phase now c
  generalize w.step stopFirst phase now c = progress at steps
  cases steps with
  | begins phase ready a c' unsent deadline allocated =>
    rw [WaitPhase.tickets, ready.idle]
    exact allocate_trades allocated
  | starves phase ready full =>
    rw [WaitPhase.tickets, ready.idle]
    exact .refl c []
  | pauses a ending ended polls => exact a.close_trades c
  | returns a ending ended final => exact a.close_trades c
  | calledOff resume moment off past first => exact .refl c []
  | _ => trivial

end Wait

theorem TestPhase.step_trades {s : Settings} {b : Batch} {node : String} {now : Nat}
    {c c' : Correlator} {phase phase' : TestPhase} {sends : List Sending}
    (step : phase.step s b node now c = some (phase', sends, c')) :
    c.Trades phase.tickets sends phase'.tickets c' := by
  unfold TestPhase.step at step
  split at step
  · split at step
    · cases step
      exact .refl c []
    · cases step
      exact CallPlan.beginAttempt_trades _ 1 now rfl
  · rename_i plan call
    have trades := plan.step_trades call now c
    split at step
    · cases step
    · rename_i progress
      rw [progress] at trades
      cases step
      exact trades
    · rename_i progress
      rw [progress] at trades
      cases step
      exact trades
  · cases step

namespace Batch

/-- The tickets that tests hold, each test in its turn. -/
def ticketsOf (tests : List (String × TestPhase)) : List Ticket :=
  tests.flatMap fun t => t.2.tickets

theorem tickets_eq (b : Batch) : b.tickets = ticketsOf b.tests := by
  rw [tickets, attempts, ticketsOf, List.filterMap_eq_flatMap_toList, List.map_flatMap]
  rfl

theorem step_trades (s : Settings) (b : Batch) (now : Nat) (c : Correlator) :
    (b.step s now c).Trades c Batch.tickets b.tickets := by
  have goes := b.step_goes s now c
  generalize b.step s now c = progress at goes ⊢
  cases goes with
  | takesIn node waiting next room =>
    have kept := Correlator.Trades.refl c b.tickets
    rw [tickets_eq] at kept
    simpa [Progress.Trades, tickets_eq, ticketsOf, TestPhase.tickets, TestPhase.attempt?] using kept
  | givesOut node result tests full first =>
    have held : b.tickets = ticketsOf tests := by
      rw [tickets_eq, first]
      rfl
    rw [held]
    have given := Correlator.Trades.refl c (ticketsOf tests)
    simpa only [Progress.Trades, tickets_eq] using given
  | tests j node phase phase' sends c' found step =>
    -- the tests before and after the one that goes on keep their tickets
    obtain ⟨before, after, split, replaced⟩ := Positions.set_split found
    have trades := (TestPhase.step_trades step).frame (ticketsOf before) (ticketsOf after)
    simp only [Progress.Trades, tickets_eq]
    rw [replaced, split]
    simpa only [ticketsOf, List.flatMap_append, List.flatMap_cons, List.append_assoc] using trades
  | stays => trivial
  | ends full empty =>
    rw [tickets_eq, empty]
    exact .refl c []

end Batch

namespace ReadPlan

variable {α : Type}

theorem lookUp_trades (p : ReadPlan α) (now : Nat) (cache : Cache α) (c : Correlator) :
    (p.lookUp now cache c).1.Trades c ReadPhase.tickets [] := by
  unfold lookUp
  split
  · exact .refl c []
  · exact .refl c []
  · exact p.fetch.beginAttempt_trades 1 now rfl

theorem step_trades (p : ReadPlan α) (phase : ReadPhase) (now : Nat) (cache : Cache α)
    (c : Correlator) : (p.step phase now cache c).1.Trades c ReadPhase.tickets phase.tickets := by
  cases phase with
  | arriving => exact p.lookUp_trades now cache c
  | following flight =>
    simp only [ReadPlan.step]
    split
    · trivial
    · exact .refl c []
    · exact p.lookUp_trades now cache c
  | leading flight call =>
    have trades := p.fetch.step_trades call now c
    simp only [ReadPlan.step]
    split
    · trivial
    · rename_i progress
      rw [progress] at trades
      exact trades
    · rename_i progress
      rw [progress] at trades
      exact trades

end ReadPlan

/-- Whether an event tells the correlator of responses or of their end. -/
def ClientEvent.tells : ClientEvent → Bool
  | .listen => true
  | .dispatch _ => true
  | .cancelPending => true
  | _ => false

/-! ## Jobs -/

theorem Resource.job_tickets (r : Resource) (modeOnly : Bool) (phase : ReadPhase) :
    (r.job modeOnly phase).tickets = phase.tickets := by
  cases r <;> rfl

theorem Job.tickets_mapAttempt (job : Job) (t : Ticket) (result : Except TransportError Unit) :
    (job.mapAttempt (Attempt.transmitted t result)).tickets = job.tickets := by
  have kept := Client.transmitted_ticket t result
  have call : ∀ phase : CallPhase,
      (phase.mapAttempt (Attempt.transmitted t result)).tickets = phase.tickets := by
    intro phase
    cases phase with
    | attempting number a => exact congrArg (fun u => [u]) (kept a)
    | _ => rfl
  cases job with
  | call plan after phase => exact call phase
  | readConfig modeOnly phase =>
    cases phase with
    | leading flight phase => exact call phase
    | _ => rfl
  | readProxies phase =>
    cases phase with
    | leading flight phase => exact call phase
    | _ => rfl
  | waiting wait phase =>
    cases phase with
    | probing a => exact congrArg (fun u => [u]) (kept a)
    | _ => rfl
  | testing batch =>
    have tests : ∀ phase : TestPhase,
        (phase.mapAttempt (Attempt.transmitted t result)).tickets = phase.tickets := by
      intro phase
      cases phase with
      | calling plan phase => exact call phase
      | _ => rfl
    change (batch.mapAttempt (Attempt.transmitted t result)).tickets = batch.tickets
    simp only [Batch.tickets_eq, Batch.mapAttempt, Batch.ticketsOf, List.flatMap_map, tests]
  | _ => rfl

namespace Client

open ProxyConsole.Positions

theorem JobGoes.trades {cl cl' : Client} {index : Nat} {job job' : Job}
    (goes : cl.JobGoes index job job' cl') :
    (∃ t limit deadline, job = .awaiting t limit deadline ∧ job'.tickets = [] ∧
        cl'.sends = cl.sends ∧ cl'.correlator = cl.correlator.conclude t) ∨
      ∃ sends, cl'.sends = cl.sends ++ sends ∧
        cl.correlator.Trades job.tickets sends job'.tickets cl'.correlator := by
  cases goes with
  | begins plan after call sends c step =>
    exact Or.inr ⟨sends, rfl, plan.beginAttempt_trades 1 cl.now step⟩
  | calls plan after call call' sends c step =>
    have trades := plan.step_trades call cl.now cl.correlator
    rw [step] at trades
    exact Or.inr ⟨sends, rfl, trades⟩
  | ends plan after call result c step =>
    have trades := plan.step_trades call cl.now cl.correlator
    rw [step] at trades
    exact Or.inr ⟨[], rfl, trades⟩
  | reads r modeOnly phase phase' sends c cache step =>
    have trades := (cl.planOf r).step_trades phase cl.now (cl.cacheOf r) cl.correlator
    rw [step] at trades
    refine Or.inr ⟨sends, ?_, ?_⟩
    · simp only [moveJob, setJob, withCache_sends]
    · rw [r.job_tickets, r.job_tickets]
      exact trades
  | answers r modeOnly phase result c cache step =>
    have trades := (cl.planOf r).step_trades phase cl.now (cl.cacheOf r) cl.correlator
    rw [step] at trades
    refine Or.inr ⟨[], ?_, ?_⟩
    · rw [finishRead_sends, withCache_sends, List.append_nil]
    · rw [r.job_tickets, finishRead_correlator]
      exact trades
  | waits wait phase phase' sends c step =>
    have trades := wait.step_trades cl.stopFirst phase cl.now cl.correlator
    rw [step] at trades
    exact Or.inr ⟨sends, rfl, trades⟩
  | waited wait phase result c step =>
    have trades := wait.step_trades cl.stopFirst phase cl.now cl.correlator
    rw [step] at trades
    exact Or.inr ⟨[], rfl, trades⟩
  | tests batch batch' sends c step =>
    have trades := batch.step_trades cl.settings cl.now cl.correlator
    rw [step] at trades
    exact Or.inr ⟨sends, rfl, trades⟩
  | tested batch results c step =>
    have trades := batch.step_trades cl.settings cl.now cl.correlator
    rw [step] at trades
    exact Or.inr ⟨[], rfl, trades⟩
  | reserves t c allocated =>
    exact Or.inr ⟨[], rfl, [], List.Subset.refl _, List.Perm.refl _,
      Correlator.allocate_gives allocated (List.forall_mem_nil _)⟩
  | awaited t limit deadline r ended =>
    exact Or.inl ⟨t, limit, deadline, rfl, rfl, List.append_nil _, rfl⟩

/-! ## Clients -/

/-- The tickets of all attempts under way, each job in its turn. -/
def held (cl : Client) : List Ticket :=
  cl.jobs.flatMap Job.tickets

theorem held_eq (cl : Client) : cl.held = cl.attempts.map Attempt.ticket := by
  rw [held, attempts, List.map_flatMap]
  rfl

theorem held_of_job {cl : Client} {index : Nat} {job : Job} {a : Attempt}
    (found : cl.jobs[index]? = some job) (mem : a ∈ job.attempts) : a.ticket ∈ cl.held :=
  List.mem_flatMap.mpr ⟨job, List.mem_of_getElem? found, List.mem_map_of_mem mem⟩

theorem held_split {cl : Client} {index : Nat} {job : Job} (found : cl.jobs[index]? = some job) :
    ∃ before after, cl.held = before ++ job.tickets ++ after ∧
      ∀ job', (cl.jobs.set index job').flatMap Job.tickets = before ++ job'.tickets ++ after := by
  obtain ⟨before, after, split, replaced⟩ := set_split found
  refine ⟨before.flatMap Job.tickets, after.flatMap Job.tickets, ?_, ?_⟩
  · rw [held, split, List.flatMap_append, List.flatMap_cons, List.append_assoc]
  · intro job'
    rw [replaced, List.flatMap_append, List.flatMap_cons, List.append_assoc]

/-- What an event does with the tickets held. -/
inductive HeldTurn (cl : Client) (event : ClientEvent) (cl' : Client) : Prop where
  | told (held : cl'.held = cl.held) (sends : cl'.sends = cl.sends)
      (tells : event.tells = true)
  | trades (sends : List Sending) (more : cl'.sends = cl.sends ++ sends)
      (trades : cl.correlator.Trades cl.held sends cl'.held cl'.correlator)
  | hand (index : Nat) (t : Ticket) (limit deadline : Nat)
      (found : cl.jobs[index]? = some (.awaiting t limit deadline)) (held : cl'.held = cl.held)
      (sends : cl'.sends = cl.sends) (gives : cl.correlator.Gives [t] [] cl'.correlator)

theorem HeldTurn.still {cl cl' : Client} {event : ClientEvent} (held : cl'.held = cl.held)
    (sends : cl'.sends = cl.sends) (correlator : cl'.correlator = cl.correlator) :
    cl.HeldTurn event cl' := by
  refine .trades [] (by rw [sends, List.append_nil]) ?_
  rw [held, correlator]
  exact .refl _ _

theorem opened_tickets (cl : Client) (op : Operation) : (cl.opened op).tickets = [] := by
  unfold opened
  split
  · rename_i script _
    cases script <;> rfl
  · rfl

theorem advance_held (cl : Client) (index : Nat) :
    cl.HeldTurn (.advance index) (cl.step (.advance index)) := by
  rcases cl.advance_cases index with ⟨_, still⟩ | ⟨job, job', found, goes⟩
  · rw [still]
    exact .still rfl rfl rfl
  · obtain ⟨before, after, own, replaced⟩ := held_split found
    have next : (cl.step (.advance index)).held = before ++ job'.tickets ++ after := by
      rw [held, goes.jobs, replaced]
    rcases goes.trades with ⟨t, limit, deadline, rfl, none, sends, correlator⟩ |
      ⟨sends, more, trades⟩
    · refine .hand index t limit deadline found ?_ sends ?_
      · rw [next, own, none]
        rfl
      · rw [correlator]
        exact cl.correlator.conclude_gives t
    · refine .trades sends more ?_
      rw [next, own]
      exact trades.frame before after

theorem abandon_held (cl : Client) (index : Nat) :
    cl.HeldTurn (.abandon index) (cl.step (.abandon index)) := by
  simp only [step, abandon]
  cases found : cl.jobs[index]? with
  | none => exact .still rfl rfl rfl
  | some job =>
    obtain ⟨before, after, own, replaced⟩ := held_split found
    have next : ((cl.withdraw job).setJob index .gone).held = before ++ after := by
      simp only [held, setJob, withdraw_jobs, replaced, Job.tickets, Job.attempts, List.map_nil,
        List.append_nil]
    have sends : ((cl.withdraw job).setJob index .gone).sends = cl.sends := cl.withdraw_sends job
    have released : cl.correlator.Trades job.tickets [] []
        (job.attempts.foldl (fun c a => c.release a.ticket) cl.correlator) :=
      ⟨job.tickets, List.Subset.refl _, List.Perm.refl _,
        Correlator.foldl_release_gives job.attempts cl.correlator⟩
    have trades := released.frame before after
    rw [List.append_nil] at trades
    cases job with
    | awaiting t limit deadline =>
      refine .hand index t limit deadline found ?_ sends (cl.correlator.release_gives t)
      rw [next, own]
      exact (congrArg (· ++ after) (List.append_nil before)).symm
    | _ =>
      refine .trades [] (by rw [sends, List.append_nil]) ?_
      rw [next, own]
      exact trades

theorem step_held (cl : Client) (event : ClientEvent) : cl.HeldTurn event (cl.step event) := by
  cases event with
  | start op =>
    refine .still ?_ rfl rfl
    have last := cl.opened_tickets op
    rw [held, start_jobs, List.flatMap_append, List.flatMap_singleton, last, List.append_nil]
    rfl
  | advance index => exact cl.advance_held index
  | abandon index => exact cl.abandon_held index
  | transmitted t result =>
    refine .still ?_ rfl rfl
    change (cl.jobs.map (Job.mapAttempt (Attempt.transmitted t result))).flatMap Job.tickets =
      cl.held
    simp only [held, List.flatMap_map, Job.tickets_mapAttempt]
  | listen =>
    have kept : (cl.step .listen).jobs = cl.jobs ∧ (cl.step .listen).sends = cl.sends := by
      simp only [step, stepListener]
      cases cl.listener.step cl.stopFirst cl.correlator with
      | none => exact ⟨rfl, rfl⟩
      | some pair => exact ⟨rfl, rfl⟩
    exact .told (by rw [held, kept.1]; rfl) kept.2 rfl
  | dispatch e => exact .told rfl rfl rfl
  | cancelPending => exact .told rfl rfl rfl
  | _ => exact .still rfl rfl rfl

/-! ## No ticket has two holders -/

variable {cl cl' : Client} {event : ClientEvent} {t : Ticket}

/-- A ticket that is held was held before, unless its request has just begun to be sent. -/
theorem HeldTurn.held_cases (turn : cl.HeldTurn event cl') (held : t ∈ cl'.held) :
    t ∈ cl.held ∨ (t.serial = cl.correlator.registered ∧ t ∈ cl'.correlator.pending) := by
  cases turn with
  | told same sends tells => exact Or.inl (same ▸ held)
  | trades sends more trades =>
    obtain ⟨given, _, balance, gives⟩ := trades
    have member := balance.subset (List.mem_append_left given held)
    rcases List.mem_append.mp member with fresh | before
    · obtain ⟨s, sent, rfl⟩ := List.mem_map.mp fresh
      exact Or.inr (gives.registers s sent)
    · exact Or.inl before
  | hand index u limit deadline found same sends gives => exact Or.inl (same ▸ held)

theorem HeldTurn.silent (turn : cl.HeldTurn event cl') (untold : event.tells = false) :
    ∀ d ∈ cl'.correlator.delivered, d ∈ cl.correlator.delivered := by
  cases turn with
  | told _ _ tells =>
    rw [untold] at tells
    cases tells
  | trades sends more trades =>
    obtain ⟨given, _, _, gives⟩ := trades
    exact gives.silent
  | hand index u limit deadline found same sends gives => exact gives.silent

/-- The tickets held by attempts under way are those of different requests. -/
def HeldOnce (cl : Client) : Prop :=
  cl.held.Subperm (cl.sends.map Sending.ticket)

theorem HeldOnce.turn (once : cl.HeldOnce) (turn : cl.HeldTurn event cl') : cl'.HeldOnce := by
  cases turn with
  | told same sends tells =>
    rw [HeldOnce, same, sends]
    exact once
  | trades sends more trades =>
    obtain ⟨given, _, balance, _⟩ := trades
    have fresh : (sends.map Sending.ticket ++ cl.held).Subperm
        (sends.map Sending.ticket ++ cl.sends.map Sending.ticket) :=
      (List.subperm_append_left _).mpr once
    rw [HeldOnce, more, List.map_append]
    exact (List.sublist_append_left _ _).subperm.trans
      (balance.subperm.trans (fresh.trans List.perm_append_comm.subperm))
  | hand index u limit deadline found same sends gives =>
    rw [HeldOnce, same, sends]
    exact once

theorem heldOnce_run (settings : Settings) (events : List ClientEvent) :
    (run { settings } events).HeldOnce := by
  induction events using List.reverseRecOn with
  | nil => exact List.nil_subperm
  | append_singleton events event once =>
    rw [run_concat]
    exact once.turn ((run { settings } events).step_held event)

/-- Requests have tickets of their own, and so have the attempts under way. -/
structure Orderly (cl : Client) : Prop where
  sent : cl.Sent
  once : cl.HeldOnce

theorem orderly_start (settings : Settings) : Orderly { settings } :=
  ⟨sent_start settings, List.nil_subperm⟩

theorem Orderly.step (orderly : cl.Orderly) (event : ClientEvent) : (cl.step event).Orderly :=
  ⟨orderly.sent.step event, orderly.once.turn (cl.step_held event)⟩

theorem orderly_run (settings : Settings) (events : List ClientEvent) :
    (run { settings } events).Orderly :=
  ⟨(sent_start settings).run events, heldOnce_run settings events⟩

theorem Orderly.older (orderly : cl.Orderly) (held : t ∈ cl.held) :
    t.serial < cl.correlator.registered := by
  obtain ⟨s, member, rfl⟩ := List.mem_map.mp (orderly.once.subset held)
  exact orderly.sent.older s member

theorem registered_of_held {settings : Settings} {events : List ClientEvent}
    (held : t ∈ (run { settings } events).held) :
    t.serial < (run { settings } events).correlator.registered :=
  (orderly_run settings events).older held

/-- An attempt that holds a ticket now and did so before has held it all the time. -/
theorem held_between {settings : Settings} {before later : List ClientEvent}
    (held : t ∈ (run { settings } before).held)
    (held' : t ∈ (run { settings } (before ++ later ++ [event])).held) :
    t ∈ (run { settings } (before ++ later)).held := by
  rw [run_concat] at held'
  rcases ((run { settings } (before ++ later)).step_held event).held_cases held' with
    earlier | ⟨serial, _⟩
  · exact earlier
  · have older := registered_of_held held
    have grown := ((run { settings } before).run_grows later).registered
    rw [← run_append] at grown
    omega

/-! ## Tickets do not get mixed up -/

/-- The attempts under way hold tickets of different sequence numbers, and nobody waits by
hand for a ticket of such a number. -/
structure TicketsApart (cl : Client) : Prop where
  distinct : (cl.held.map Ticket.seq).Nodup
  waited : ∀ (index : Nat) (u : Ticket) (limit deadline : Nat),
    cl.jobs[index]? = some (.awaiting u limit deadline) → ∀ t ∈ cl.held, t.seq ≠ u.seq

/-- Tickets are kept apart at every moment of a sequence of events. -/
def StaysApart (cl : Client) (events : List ClientEvent) : Prop :=
  ∀ first, first <+: events → (cl.run first).TicketsApart

theorem StaysApart.of_append {events later : List ClientEvent}
    (apart : cl.StaysApart (events ++ later)) : cl.StaysApart events :=
  fun first part => apart first (part.trans (List.prefix_append _ _))

theorem script_await {op : Operation} {settings : Settings} {limit : Nat}
    (accepted : op.script settings = .ok (.await t limit)) : op = .await t limit := by
  cases op with
  | await u ms =>
    cases accepted
    rfl
  | testDelay | setMode | setLogLevel | reload | closeConnection | updateProvider =>
    simp only [Operation.script] at accepted
    obtain ⟨_, _, last⟩ := bind_ok accepted
    cases last
  | select =>
    simp only [Operation.script] at accepted
    obtain ⟨_, _, rest⟩ := bind_ok accepted
    obtain ⟨_, _, last⟩ := bind_ok rest
    cases last
  | _ => cases accepted

theorem JobGoes.ne_awaiting {index : Nat} {job job' : Job} (goes : cl.JobGoes index job job' cl')
    (t : Ticket) (limit deadline : Nat) : job' ≠ .awaiting t limit deadline := by
  rintro rfl
  generalize new : Job.awaiting t limit deadline = job' at goes
  cases goes with
  | reads r modeOnly phase phase' sends c cache step => cases r <;> cases new
  | _ => cases new

theorem awaiting_origin {index limit deadline : Nat}
    (found : (cl.step event).jobs[index]? = some (.awaiting t limit deadline)) :
    cl.jobs[index]? = some (.awaiting t limit deadline) ∨ event = .start (.await t limit) := by
  cases step_origin found with
  | stood same => exact Or.inl same
  | heard u result job found₀ _ hears =>
    have same : job = .awaiting t limit deadline := by cases job <;> cases hears; rfl
    exact Or.inl (same ▸ found₀)
  | gone _ withdrawn => cases withdrawn
  | goes job found₀ advance next => exact absurd rfl (next.ne_awaiting t limit deadline)
  | started op start last opens =>
    unfold opened at opens
    split at opens
    · rename_i script accepted
      cases script <;> cases opens
      rw [start, script_await accepted]
      exact Or.inr rfl
    · cases opens

theorem awaiting_started {settings : Settings} {events : List ClientEvent}
    {index limit deadline : Nat}
    (found : (run { settings } events).jobs[index]? = some (.awaiting t limit deadline)) :
    .start (.await t limit) ∈ events := by
  induction events using List.reverseRecOn with
  | nil => cases found
  | append_singleton events event earlier =>
    rw [run_concat] at found
    rcases awaiting_origin found with before | rfl
    · exact List.mem_append_left _ (earlier before)
    · exact List.mem_append_right _ (List.mem_singleton.mpr rfl)

/-- Tickets stay apart as long as the sequence numbers do not come round, if nobody waits by
hand for a ticket of the number of a request. -/
theorem staysApart_of_few {settings : Settings} {before later : List ClientEvent}
    (few : drawn { settings } (before ++ later) ≤ UInt64.size)
    (waited : ∀ u limit, .start (.await u limit) ∈ before ++ later →
      ∀ s ∈ (run { settings } (before ++ later)).sends, s.ticket.seq ≠ u.seq) :
    (run { settings } before).StaysApart later := by
  rintro first ⟨rest, rfl⟩
  rw [← run_append]
  rw [← List.append_assoc] at few waited
  have once := heldOnce_run settings (before ++ first)
  have start : ({ settings } : Client).correlator.nextSeq.toNat +
      drawn { settings } (before ++ first) ≤ UInt64.size := by
    rw [show ({ settings } : Client).correlator.nextSeq.toNat = 0 from rfl, Nat.zero_add]
    exact Nat.le_trans (drawn_le_append _ (before ++ first) rest) few
  refine ⟨?_, ?_⟩
  · have numbers := (sequenced_run { settings } (before ++ first) start).distinct
    rw [← Function.comp_def Ticket.seq, ← List.map_map] at numbers
    obtain ⟨arranged, perm, sublist⟩ := once
    exact (perm.map Ticket.seq).nodup_iff.mp ((sublist.map Ticket.seq).nodup numbers)
  · intro index u limit deadline found t held
    obtain ⟨s, sent, rfl⟩ := List.mem_map.mp (once.subset held)
    refine waited u limit (List.mem_append_left _ (awaiting_started found)) s ?_
    rw [run_append]
    exact ((run { settings } (before ++ first)).run_grows rest).sends.subset sent

/-! ## What is kept for a ticket -/

theorem TicketsApart.given {sends : List Sending} {given : List Ticket} (apart : cl.TicketsApart)
    (own : given ⊆ cl.held)
    (balance : (cl'.held ++ given).Perm (sends.map Sending.ticket ++ cl.held))
    (older : ∀ s ∈ sends, s.ticket ≠ t) (held : t ∈ cl.held) (held' : t ∈ cl'.held) :
    ∀ u ∈ given, u.seq ≠ t.seq := by
  intro u gone number
  obtain rfl : u = t := List.inj_on_of_nodup_map apart.distinct (own gone) held number
  -- it would have been held twice before
  have fresh : (sends.map Sending.ticket).count u = 0 :=
    List.count_eq_zero.mpr fun member => by
      obtain ⟨s, sent, same⟩ := List.mem_map.mp member
      exact older s sent same
  have single := List.nodup_iff_count_le_one.mp apart.distinct.of_map u
  have counts := balance.count_eq u
  rw [List.count_append, List.count_append, fresh] at counts
  have kept := List.count_pos_iff.mpr held'
  have lost := List.count_pos_iff.mpr gone
  omega

/-- As long as an attempt holds a ticket, only what the correlator is told from outside
changes what is kept for it. -/
theorem Orderly.status_kept (orderly : cl.Orderly) (apart : cl.TicketsApart)
    (untold : event.tells = false) (held : t ∈ cl.held) (held' : t ∈ (cl.step event).held) :
    (cl.step event).correlator.status t = cl.correlator.status t := by
  have older := orderly.older held
  have turn := cl.step_held event
  have evolves := (cl.step_extends event).correlator
  cases turn with
  | told _ _ tells =>
    rw [untold] at tells
    cases tells
  | trades sends more trades =>
    obtain ⟨given, own, balance, gives⟩ := trades
    refine gives.status evolves orderly.sent.shape older
      (apart.given own balance ?_ held held')
    intro s sending same
    have serial := (gives.registers s sending).1
    rw [same] at serial
    omega
  | hand index u limit deadline found _ sends gives =>
    refine gives.status evolves orderly.sent.shape older ?_
    intro v gone number
    rw [List.mem_singleton.mp gone] at number
    exact apart.waited index u limit deadline found t held number.symm

theorem status_kept {settings : Settings} {before : List ClientEvent} {event : ClientEvent}
    (apart : (run { settings } before).TicketsApart) (untold : event.tells = false)
    (held : t ∈ (run { settings } before).held)
    (held' : t ∈ (run { settings } (before ++ [event])).held) :
    (run { settings } (before ++ [event])).correlator.status t =
      (run { settings } before).correlator.status t := by
  rw [run_concat] at held' ⊢
  exact (orderly_run settings before).status_kept apart untold held held'

end Client

end ProxyConsole
