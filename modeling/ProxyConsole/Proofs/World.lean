import ProxyConsole.Proofs.Client.Schedule
import ProxyConsole.World

/-!
# A world only lets events happen

While a world runs operations its client goes through a sequence of client events.  What
holds of a client after every sequence of events therefore holds of the client of every
world.
-/

set_option autoImplicit false

namespace ProxyConsole

/-! ## The clock -/

namespace Clock

variable {σ : Type} {w : Wakeup σ} {P : σ → Prop}

theorem passUntil_preserves (wakes : ∀ moment s, P s → P (w.wake moment s)) (done : σ → Bool)
    (fuel : Nat) {s : σ} (start : P s) : P (passUntil w done fuel s) := by
  induction fuel generalizing s with
  | zero => exact start
  | succ fuel ih =>
    simp only [passUntil]
    split
    · exact start
    · split
      · exact ih (wakes _ s start)
      · exact start

end Clock

/-! ## Reaching -/

/-- A client comes from another by a sequence of events. -/
def Client.Reaches (cl cl' : Client) : Prop :=
  ∃ events, cl' = cl.run events

namespace Client

theorem Reaches.refl (cl : Client) : cl.Reaches cl :=
  ⟨[], rfl⟩

theorem Reaches.step {cl cl' : Client} (reaches : cl.Reaches cl') (event : ClientEvent) :
    cl.Reaches (cl'.step event) := by
  obtain ⟨events, rfl⟩ := reaches
  exact ⟨events ++ [event], (run_concat cl events event).symm⟩

theorem Reaches.stepJob {cl cl' next : Client} (reaches : cl.Reaches cl') {index : Nat}
    (moved : cl'.stepJob index = some next) : cl.Reaches next := by
  have stepped := reaches.step (.advance index)
  simpa only [Client.step, moved, Option.getD_some] using stepped

theorem Reaches.stepListener {cl cl' next : Client} (reaches : cl.Reaches cl')
    (moved : cl'.stepListener = some next) : cl.Reaches next := by
  have stepped := reaches.step .listen
  simpa only [Client.step, moved, Option.getD_some] using stepped

end Client

namespace World

variable {cl : Client}

theorem event_reaches {w : World} (reaches : cl.Reaches w.client) (e : ClientEvent) :
    cl.Reaches (w.event e).client :=
  reaches.step e

theorem respond_reaches {w : World} (reaches : cl.Reaches w.client) (e : InboundEnvelope) :
    cl.Reaches (w.respond e).client := by
  unfold respond
  split <;> exact event_reaches reaches _

theorem cut_reaches {w : World} (reaches : cl.Reaches w.client) : cl.Reaches w.cut.client := by
  unfold cut
  split <;> exact event_reaches reaches _

theorem reply_reaches {w : World} (reaches : cl.Reaches w.client) (id : RequestId)
    (r : ScriptedReply) : cl.Reaches (reply id w r).client := by
  unfold reply
  split
  · exact respond_reaches reaches _
  · exact reaches

theorem replies_reach {w : World} (reaches : cl.Reaches w.client) (id : RequestId)
    (replies : List ScriptedReply) : cl.Reaches (replies.foldl (reply id) w).client := by
  induction replies generalizing w with
  | nil => exact reaches
  | cons r rest ih => exact ih (reply_reaches reaches id r)

theorem planCut_reaches {w : World} (reaches : cl.Reaches w.client) (cutAfter : Option Nat) :
    cl.Reaches (w.planCut cutAfter).client := by
  unfold planCut
  split
  · exact reaches
  · split
    · exact cut_reaches reaches
    · exact reaches

theorem accept_reaches {w : World} (reaches : cl.Reaches w.client) (sending : Sending)
    (step : BackendStep) : cl.Reaches (w.accept sending step).client := by
  unfold accept
  split
  · exact event_reaches reaches _
  · exact event_reaches (planCut_reaches (replies_reach reaches _ _) _) _

theorem transmit_reaches {w : World} (reaches : cl.Reaches w.client) (sending : Sending) :
    cl.Reaches (w.transmit sending).client := by
  unfold transmit
  dsimp only
  split
  · refine accept_reaches ?_ sending _
    exact reaches
  · exact reaches

theorem handOver_reaches {w : World} (reaches : cl.Reaches w.client) (sending : Sending) :
    cl.Reaches (w.handOver sending).client := by
  unfold handOver
  split
  · exact event_reaches reaches _
  · exact transmit_reaches reaches sending
  · dsimp only
    split
    · exact event_reaches reaches _
    · exact transmit_reaches reaches sending

theorem deliver_reaches {w : World} (reaches : cl.Reaches w.client) (delivery : Delivery) :
    cl.Reaches (w.deliver delivery).client := by
  cases delivery with
  | accepted sending step =>
    simp only [deliver]
    split
    · exact accept_reaches reaches sending step
    · exact reaches
  | response e => exact respond_reaches reaches e
  | cut => exact cut_reaches reaches

theorem step_reaches {w w' : World} (reaches : cl.Reaches w.client) (moved : w.step = some w') :
    cl.Reaches w'.client := by
  unfold step at moved
  split at moved
  · cases moved
    refine handOver_reaches ?_ _
    exact reaches
  · split at moved
    · cases moved
      refine deliver_reaches ?_ _
      exact reaches
    · split at moved
      · rename_i stepped
        cases moved
        obtain ⟨index, _, moved⟩ := List.exists_of_findSome?_eq_some stepped
        exact reaches.stepJob moved
      · obtain ⟨client, listened, rfl⟩ := Option.map_eq_some_iff.mp moved
        exact reaches.stepListener listened

theorem runSteps_reaches (fuel : Nat) {w : World} (reaches : cl.Reaches w.client) :
    cl.Reaches (runSteps fuel w).client := by
  induction fuel generalizing w with
  | zero => exact reaches
  | succ fuel ih =>
    simp only [runSteps]
    split
    · rename_i moved
      exact ih (step_reaches reaches moved)
    · exact reaches

theorem wake_reaches (moment : Nat) {w : World} (reaches : cl.Reaches w.client) :
    cl.Reaches (wakeup.wake moment w).client :=
  runSteps_reaches fuel (event_reaches reaches (.pass moment))

theorem starts_reach (ops : List Operation) {w : World} (reaches : cl.Reaches w.client) :
    cl.Reaches (ops.foldl (fun w op => w.event (.start op)) w).client := by
  induction ops generalizing w with
  | nil => exact reaches
  | cons op rest ih => exact ih (event_reaches reaches (.start op))

/-- A world that runs operations until they are over only lets events happen to its client. -/
theorem performAll_reaches (w : World) (ops : List Operation) :
    w.client.Reaches (w.performAll ops).2.client :=
  Clock.passUntil_preserves (P := fun (w' : World) => w.client.Reaches w'.client)
    (fun moment _ reaches => wake_reaches moment reaches) _ _
    (runSteps_reaches fuel (starts_reach ops (.refl w.client)))

theorem shutDown_reaches (w : World) : w.client.Reaches w.shutDown.client :=
  runSteps_reaches fuel (event_reaches (.refl w.client) .stopListener)

end World

end ProxyConsole
