import ProxyConsole.Client.Read
import ProxyConsole.Proofs.Cache.Basic
import ProxyConsole.Proofs.Call

/-!
# What one step of a read does

A read that looks its resource up hits, follows or leads; a follower shares what its
fetch landed with; a leader goes on with its call and lands the fetch when the call is
over.
-/

set_option autoImplicit false

namespace ProxyConsole.ReadPlan

variable {α : Type}

/-- A read in this phase looks its resource up next. -/
def Looks (cache : Cache α) : ReadPhase → Prop
  | .arriving => True
  | .following flight => cache.flights[flight]? ≠ some .running ∧
      ∀ result, cache.flights[flight]? ≠ some (.landed result)
  | .leading _ _ => False

/-- All the ways in which a read goes on. -/
inductive Step (p : ReadPlan α) (now : Nat) (cache : Cache α) (c : Correlator) :
    ReadPhase → Progress ReadPhase (Except CallError α) × Cache α → Prop where
  | stays (phase : ReadPhase) : Step p now cache c phase (.stay, cache)
  | hits (phase : ReadPhase) (value : α) (looks : Looks cache phase)
      (young : cache.fresh? now p.ttl p.signature = some value) :
      Step p now cache c phase (.finish (.ok value) c, cache)
  | follows (phase : ReadPhase) (flight : Nat) (looks : Looks cache phase)
      (running : cache.joinable? p.signature = some flight) :
      Step p now cache c phase (.move (.following flight) [] c, cache)
  | leads (phase : ReadPhase) (call : CallPhase) (sends : List Sending) (c' : Correlator)
      (looks : Looks cache phase) (free : cache.joinable? p.signature = none)
      (evolves : c.Evolves c') (sent : p.fetch.Sends call sends c) :
      Step p now cache c phase
        (.move (.leading cache.flights.length call) sends c', cache.launch p.signature)
  | shares (flight : Nat) (result : Except CallError α)
      (landed : cache.flights[flight]? = some (.landed result)) :
      Step p now cache c (.following flight) (.finish result c, cache)
  | proceeds (flight : Nat) (call call' : CallPhase) (sends : List Sending) (c' : Correlator)
      (evolves : c.Evolves c') (sent : p.fetch.Sends call' sends c) :
      Step p now cache c (.leading flight call) (.move (.leading flight call') sends c', cache)
  | lands (flight : Nat) (call : CallPhase) (result : Except CallError α) (c' : Correlator)
      (evolves : c.Evolves c')
      (obtained : ∀ value, result = .ok value → p.fetch.Obtains call c value) :
      Step p now cache c (.leading flight call)
        (.finish result c', cache.land now p.signature flight result)

theorem lookUp_step (p : ReadPlan α) (now : Nat) (cache : Cache α) (c : Correlator)
    {phase : ReadPhase} (looks : Looks cache phase) :
    p.Step now cache c phase (p.lookUp now cache c) := by
  unfold lookUp
  rcases cache.inspect_cases now p.ttl p.signature with
    ⟨value, young, looked⟩ | ⟨_, flight, running, looked⟩ | ⟨_, free, looked⟩
  · simp only [looked]
    exact .hits phase value looks young
  · simp only [looked]
    exact .follows phase flight looks running
  · simp only [looked]
    obtain ⟨evolves, sent⟩ := p.fetch.beginAttempt_cases 1 now (c := c) rfl
    exact .leads phase _ _ _ looks free evolves sent

theorem step_spec (p : ReadPlan α) (phase : ReadPhase) (now : Nat) (cache : Cache α)
    (c : Correlator) : p.Step now cache c phase (p.step phase now cache c) := by
  cases phase with
  | arriving => exact p.lookUp_step now cache c trivial
  | following flight =>
    simp only [ReadPlan.step]
    split
    · exact .stays _
    · rename_i result landed
      exact .shares flight result landed
    · rename_i notRunning notLanded
      exact p.lookUp_step now cache c ⟨notRunning, notLanded⟩
  | leading flight call =>
    simp only [ReadPlan.step]
    have within := p.fetch.step_within call now c
    split
    · exact .stays _
    · rename_i call' sends c' progress
      rw [progress] at within
      exact .proceeds flight call call' sends c' within (CallPlan.step_sends progress)
    · rename_i result c' progress
      rw [progress] at within
      refine .lands flight call result c' within ?_
      rintro value rfl
      exact CallPlan.step_obtains progress

theorem step_within (p : ReadPlan α) (phase : ReadPhase) (now : Nat) (cache : Cache α)
    (c : Correlator) : (p.step phase now cache c).1.Within c := by
  have spec := p.step_spec phase now cache c
  generalize p.step phase now cache c = outcome at spec ⊢
  cases spec with
  | stays => trivial
  | hits => exact .refl c
  | follows => exact .refl c
  | leads _ _ _ _ _ _ evolves _ => exact evolves
  | shares => exact .refl c
  | proceeds _ _ _ _ _ evolves _ => exact evolves
  | lands _ _ _ _ evolves _ => exact evolves

end ProxyConsole.ReadPlan
