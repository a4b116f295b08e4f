import ProxyConsole.Console.Command
import ProxyConsole.Proofs.World

/-!
# What dialogues print

A dialogue gets its answers from a client: each operation that it asks for becomes a job
among the others, and the dialogue goes on with the result, whatever happens to the
client in the meantime.  What it prints is judged by one rule for each way in which a
dialogue goes on.
-/

set_option autoImplicit false

namespace ProxyConsole

open Console

/-! ## Answers of a client -/

/-- The answers that a dialogue gets from a client under any events.  It may stop at an
operation that is not over. -/
inductive Console.Dialogue.Gets : Client → Dialogue → List Answer → Prop where
  | finish (cl : Client) (outcome : Outcome) : Gets cl (.finish outcome) []
  | print {cl : Client} (s : Screen) {next : Dialogue} {answers : List Answer}
      (rest : Gets cl next answers) : Gets cl (.print s next) answers
  | waits (cl : Client) (op : Operation) (next : Answer → Dialogue) : Gets cl (.ask op next) []
  | ask {cl : Client} {op : Operation} {next : Answer → Dialogue} (events : List ClientEvent)
      (answer : Answer) {answers : List Answer}
      (finished : (cl.run (.start op :: events)).jobs[cl.jobs.length]? = some (.over answer))
      (rest : Gets (cl.run (.start op :: events)) (next answer) answers) :
      Gets cl (.ask op next) (answer :: answers)

namespace World

/-- A result that a world gives of an operation is that of the job which the operation became. -/
theorem perform_spec {w w' : World} {op : Operation} {answer : Answer}
    (performed : w.perform op = (some answer, w')) :
    ∃ events, w'.client = w.client.run (.start op :: events) ∧
      w'.client.jobs[w.client.jobs.length]? = some (.over answer) := by
  let after := Clock.passUntil wakeup (areOver [w.client.jobs.length]) fuel
    (w.event (.start op)).settle
  have reaches : (w.client.step (.start op)).Reaches after.client :=
    Clock.passUntil_preserves (P := fun (w' : World) =>
      (w.client.step (.start op)).Reaches w'.client)
      (fun moment _ reaches => wake_reaches moment reaches) _ _
      (runSteps_reaches fuel (.refl _))
  have outcome : w.perform op = (after.resultAt? w.client.jobs.length, after) := rfl
  rw [outcome] at performed
  obtain ⟨result, rfl⟩ := Prod.mk.inj performed
  obtain ⟨events, run⟩ := reaches
  obtain ⟨job, found, finished⟩ := Option.bind_eq_some_iff.mp result
  refine ⟨events, run, ?_⟩
  cases job <;> cases finished
  exact found

end World

namespace Console.Dialogue

/-- In a world a dialogue replays answers that it gets from the client. -/
theorem run_gets (d : Dialogue) (w : World) :
    ∃ answers, d.Gets w.client answers ∧ (d.run w).1 = d.replay answers := by
  induction d generalizing w with
  | finish outcome => exact ⟨[], .finish _ outcome, rfl⟩
  | print s next ih =>
    obtain ⟨answers, gets, replayed⟩ := ih w
    exact ⟨answers, .print s gets, congrArg (Transcript.after s) replayed⟩
  | ask op next ih =>
    cases performed : w.perform op with
    | mk result w' =>
      cases result with
      | none => exact ⟨[], .waits _ op next, by simp only [run, performed, replay]⟩
      | some answer =>
        obtain ⟨events, ran, found⟩ := World.perform_spec performed
        obtain ⟨answers, gets, replayed⟩ := ih answer w'
        rw [ran] at gets found
        refine ⟨answer :: answers, .ask events answer found gets, ?_⟩
        simp only [run, performed, replay, replayed]

/-! ## Prints -/

/-- Whatever answers a dialogue gets, it prints nothing on standard output unless it ends
well, and then a text and a line feed, the text being right for the operations asked for and
their answers. -/
def Prints (cl : Client) (d : Dialogue) (right : List Operation → List Answer → String → Prop) :
    Prop :=
  ∀ answers, d.Gets cl answers →
    ((d.replay answers).outcome ≠ some (.ok ()) → (d.replay answers).screen.out = "") ∧
    ((d.replay answers).outcome = some (.ok ()) →
      ∃ text, (d.replay answers).screen.out = text ++ "\n" ∧ right (d.asked answers) answers text)

variable {cl : Client} {right : List Operation → List Answer → String → Prop}

theorem prints_fail (causes : Causes) : (fail causes).Prints cl right := by
  intro answers gets
  exact ⟨fun _ => rfl, nofun⟩

theorem Prints.unseen {s : Screen} {next : Dialogue} (prints : next.Prints cl right)
    (silent : s.out = "") : (Dialogue.print s next).Prints cl right := by
  intro answers gets
  cases gets with
  | print _ rest =>
    have same : ((Dialogue.print s next).replay answers).screen.out =
        (next.replay answers).screen.out := by
      change s.out ++ (next.replay answers).screen.out = _
      rw [silent, String.empty_append]
    rw [same]
    exact prints answers rest

theorem prints_report (action : String) (e : CallError) : (report action e).Prints cl right :=
  (prints_fail _).unseen rfl

theorem prints_line {text : String} (shows : right [] [] text) :
    (conclude (.line text)).Prints cl right := by
  intro answers gets
  cases gets with
  | print _ rest =>
    cases rest
    refine ⟨fun failed => absurd rfl failed, fun _ => ⟨text, ?_, shows⟩⟩
    change (text ++ "\n") ++ "" = _
    rw [String.append_empty]

theorem prints_document {j : Json} (shows : right [] [] j.prettyText) :
    (document j).Prints cl right :=
  prints_line shows

theorem prints_ask {op : Operation} {next : Answer → Dialogue}
    (goesOn : ∀ events answer,
      (cl.run (.start op :: events)).jobs[cl.jobs.length]? = some (.over answer) →
        (next answer).Prints (cl.run (.start op :: events)) fun ops answers text =>
          right (op :: ops) (answer :: answers) text) :
    (Dialogue.ask op next).Prints cl right := by
  intro answers gets
  cases gets with
  | waits => exact ⟨fun _ => rfl, nofun⟩
  | ask events answer finished rest => exact goesOn events answer finished _ rest

theorem prints_request {α : Type} {op : Operation} {action : String} {pick : Reply → Option α}
    {next : α → Dialogue}
    (goesOn : ∀ events reply a,
      (cl.run (.start op :: events)).jobs[cl.jobs.length]? = some (.over (.ok reply)) →
        pick reply = some a → (next a).Prints (cl.run (.start op :: events)) fun ops answers text =>
          right (op :: ops) (.ok reply :: answers) text) :
    (request op action pick next).Prints cl right := by
  refine prints_ask fun events answer finished => ?_
  cases answer with
  | error e => exact prints_report action e
  | ok reply =>
    cases picked : pick reply with
    | none =>
      simp only [picked]
      exact prints_fail _
    | some a =>
      simp only [picked]
      exact goesOn events reply a finished picked

end Console.Dialogue

end ProxyConsole
