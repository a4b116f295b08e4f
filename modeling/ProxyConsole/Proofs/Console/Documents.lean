import ProxyConsole.Console.Program
import ProxyConsole.Proofs.Client.Decoded
import ProxyConsole.Proofs.Console.Dialogue
import ProxyConsole.Proofs.Console.Sorted
import ProxyConsole.Proofs.Json.Pretty
import ProxyConsole.Proofs.Resource

/-!
# Documents for machines

A command that reports a resource as a document prints nothing else on standard output:
nothing at all if it fails, and otherwise one document from which exactly the resource
is read that the client returned.
-/

set_option autoImplicit false

namespace ProxyConsole

open Json Console

/-- What the core reports about itself. -/
structure StatusReport where
  version : VersionInfo
  config : RuntimeConfig
  deriving DecidableEq, Repr

namespace StatusReport

def record : Record StatusReport where
  blank := ⟨VersionInfo.record.blank, RuntimeConfig.record.blank⟩
  fields :=
    [ .of "version" VersionInfo.codec version (fun s v => { s with version := v }) true,
      .of "config" RuntimeConfig.codec config (fun s v => { s with config := v }) true ]

def codec : Codec StatusReport := record.codec

theorem faithful : codec.Faithful :=
  Record.faithful (by decide) fun _ =>
    .cons (Field.restores_of VersionInfo.faithful ..) <|
    .cons (Field.restores_of RuntimeConfig.faithful ..) .nil

theorem orderless : codec.Orderless :=
  Record.orderless (Record.independent_of_pairwise (by simp [record, Field.commutes_of]))
    (by simp [record, Field.orderless_of, VersionInfo.orderless, RuntimeConfig.orderless])

end StatusReport

/-! ## Tidy reports -/

theorem Codec.writesTidy_bool : bool.WritesTidy :=
  fun b => .bool b

theorem Codec.writesTidy_string : string.WritesTidy :=
  fun s => .string s

theorem Codec.writesTidy_uint16 : uint16.WritesTidy :=
  fun _ => .number _

theorem VersionInfo.writesTidy : codec.WritesTidy :=
  Record.writesTidy (by decide)
    (by simp [record, Field.writesTidy_of, Codec.writesTidy_string, Codec.writesTidy_bool])

theorem TunSettings.writesTidy : record.codec.WritesTidy := by
  have stack : Codec.string.option.WritesTidy
    | none => .null
    | some s => .string s
  exact Record.writesTidy (by decide)
    (by simp [record, Field.writesTidy_of, Codec.writesTidy_bool, stack])

theorem RuntimeConfig.writesTidy : codec.WritesTidy := by
  have mode : Mode.codec.WritesTidy := fun m => .string m.name
  have level : LogLevel.codec.WritesTidy := fun l => .string l.name
  exact Record.writesTidy (by decide)
    (by simp [record, Field.writesTidy_of, Codec.writesTidy_bool, Codec.writesTidy_uint16, mode,
      level, TunSettings.writesTidy])

theorem StatusReport.writesTidy : codec.WritesTidy :=
  Record.writesTidy (by decide)
    (by simp [record, Field.writesTidy_of, VersionInfo.writesTidy, RuntimeConfig.writesTidy])

/-! ## Documents -/

theorem Codec.Keeps.ofText_prettyText {α : Type} {c : Codec α} {a : α} (keeps : c.Keeps a) :
    c.ofText (c.encode a).prettyText = .ok a := by
  obtain ⟨node, written, decoded⟩ := keeps
  rw [Codec.ofText, decodeText_prettyText written, decoded]

theorem StatusReport.ofText_statusDocument (v : VersionInfo) (c : RuntimeConfig) :
    codec.ofText (Command.statusDocument v c).prettyText = .ok ⟨v, c⟩ := by
  obtain ⟨node, written, decoded⟩ := faithful.sorted orderless writesTidy ⟨v, c⟩
  have document : Written (Command.statusDocument v c) node := written
  rw [Codec.ofText, decodeText_prettyText document, decoded]

/-- Every resource is read from its pretty document. -/
structure ResourcesSurvive : Prop where
  version : ∀ v, VersionInfo.codec.ofText (VersionInfo.codec.encode v).prettyText = .ok v
  config : ∀ c, RuntimeConfig.codec.ofText (RuntimeConfig.codec.encode c).prettyText = .ok c
  proxies : ∀ s : ProxiesSnapshot, Ascending s.proxies →
    ProxiesSnapshot.codec.ofText (ProxiesSnapshot.codec.encode s).prettyText = .ok s
  node : ∀ n, ProxyNode.codec.ofText (ProxyNode.codec.encode n).prettyText = .ok n
  delay : ∀ d, DelayResult.codec.ofText (DelayResult.codec.encode d).prettyText = .ok d
  connections : ∀ s,
    ConnectionsSnapshot.codec.ofText (ConnectionsSnapshot.codec.encode s).prettyText = .ok s
  rules : ∀ r, RuleList.codec.ofText (RuleList.codec.encode r).prettyText = .ok r

theorem resources_survive : ResourcesSurvive where
  version v := Codec.Keeps.ofText_prettyText (VersionInfo.faithful v)
  config c := Codec.Keeps.ofText_prettyText (RuntimeConfig.faithful c)
  proxies _ ascending := (ProxiesSnapshot.keeps ascending).ofText_prettyText
  node n := Codec.Keeps.ofText_prettyText (ProxyNode.faithful n)
  delay d := Codec.Keeps.ofText_prettyText (DelayResult.faithful d)
  connections s := Codec.Keeps.ofText_prettyText (ConnectionsSnapshot.faithful s)
  rules r := Codec.Keeps.ofText_prettyText (RuleList.faithful r)

/-- A command that reports a whole resource as a document. -/
inductive Console.Command.Reports : Command → Prop where
  | status (wait : Bool) : Reports (.status wait true)
  | proxies (group : Option String) : Reports (.listProxies group true)
  | connections : Reports (.listConnections true)
  | rules : Reports (.listRules none true)

/-- The text from which is read what the operations of a command returned. -/
inductive Console.Command.Documents (interrupt : Option Nat) :
    Command → List Operation → List Answer → String → Prop where
  | status (wait : Bool) (v : VersionInfo) (c : RuntimeConfig) (text : String)
      (read : StatusReport.codec.ofText text = .ok ⟨v, c⟩) :
      Documents interrupt (.status wait true)
        [if wait then .waitReady interrupt else .version, .runningConfig]
        [.ok (.version v), .ok (.config c)] text
  | proxies (s : ProxiesSnapshot) (text : String)
      (read : ProxiesSnapshot.codec.ofText text = .ok s) :
      Documents interrupt (.listProxies none true) [.proxies] [.ok (.proxies s)] text
  | group (name : String) (s : ProxiesSnapshot) (node : ProxyNode) (text : String)
      (named : s.get? name = some node) (read : ProxyNode.codec.ofText text = .ok node) :
      Documents interrupt (.listProxies (some name) true) [.proxies] [.ok (.proxies s)] text
  | connections (s : ConnectionsSnapshot) (text : String)
      (read : ConnectionsSnapshot.codec.ofText text = .ok s) :
      Documents interrupt (.listConnections true) [.connections] [.ok (.connections s)] text
  | rules (r : RuleList) (text : String) (read : RuleList.codec.ofText text = .ok r) :
      Documents interrupt (.listRules none true) [.rules] [.ok (.rules r)] text

/-! ## Commands -/

theorem Client.proxies_ascending {settings : Settings} {before events : List ClientEvent}
    {s : ProxiesSnapshot}
    (finished : ((run { settings } before).run (.start .proxies :: events)).jobs[
      (run { settings } before).jobs.length]? = some (.over (.ok (.proxies s)))) :
    Ascending s.proxies := by
  rw [← run_append] at finished
  obtain ⟨value, same, read⟩ := @read_decoded _ _ .proxies .proxies rfl _ _ finished
  cases same
  obtain ⟨node, decoded⟩ := read.decode
  exact ProxiesSnapshot.ascending_of_decode decoded

namespace Console.Command

open Dialogue

variable {cl : Client}

theorem prints_statusOf {right : List Operation → List Answer → String → Prop} {v : VersionInfo}
    (shows : ∀ c, right [.runningConfig] [.ok (.config c)] (statusDocument v c).prettyText) :
    (statusOf true v).Prints cl right := by
  refine prints_request fun events reply c _ picked => ?_
  cases reply <;> cases picked
  exact prints_document (shows c)

theorem prints_status (interrupt : Option Nat) (wait : Bool) :
    (dialogue (.status wait true) interrupt).Prints cl
      (Documents interrupt (.status wait true)) := by
  have document := StatusReport.ofText_statusDocument
  cases wait with
  | true =>
    refine prints_request fun events reply v _ picked => ?_
    cases reply <;> cases picked
    exact prints_statusOf fun c => .status true v c _ (document v c)
  | false =>
    refine prints_ask fun events answer _ => ?_
    cases answer with
    | error e =>
      dsimp only
      split
      · exact (prints_report _ e).unseen rfl
      · exact prints_report _ e
    | ok reply =>
      cases picked : reply.version? with
      | none =>
        simp only [picked]
        exact prints_fail _
      | some v =>
        simp only [picked]
        cases reply <;> cases picked
        exact prints_statusOf fun c => .status false v c _ (document v c)

/-- Whatever happens to a client, a command that reports a resource prints nothing on
standard output unless it succeeds, and then the document of what the client returned. -/
theorem prints_documents (settings : Settings) (before : List ClientEvent) (interrupt : Option Nat)
    {c : Command} (reports : c.Reports) :
    (c.dialogue interrupt).Prints (Client.run { settings } before) (Documents interrupt c) := by
  cases reports with
  | status wait => exact prints_status interrupt wait
  | proxies group =>
    refine prints_request fun events reply s finished picked => ?_
    cases reply <;> cases picked
    have ascending := Client.proxies_ascending finished
    cases group with
    | none =>
      exact prints_document (.proxies s _ (resources_survive.proxies s ascending))
    | some name =>
      cases named : s.get? name with
      | none =>
        simp only [named]
        exact (prints_fail _).unseen rfl
      | some node =>
        simp only [named]
        exact prints_document (.group name s node _ named (resources_survive.node node))
  | connections =>
    refine prints_request fun events reply s _ picked => ?_
    cases reply <;> cases picked
    exact prints_document (.connections s _ (resources_survive.connections s))
  | rules =>
    refine prints_request fun events reply r _ picked => ?_
    cases reply <;> cases picked
    exact prints_document (.rules r _ (resources_survive.rules r))

theorem Documents.succeeds {interrupt : Option Nat} {c : Command} {ops : List Operation}
    {answers : List Answer} {text : String} (documents : Documents interrupt c ops answers text) :
    ((c.dialogue interrupt).replay answers).outcome = some (.ok ()) := by
  cases documents with
  | status wait => cases wait <;> rfl
  | group name s node text named =>
    simp [dialogue, listProxiesDialogue, request, replay, Reply.proxies?, named, document, conclude,
      done, Transcript.after]
  | _ => rfl

/-- A run of the program printed nothing on standard output, and certainly so if it failed, or it
printed one document of what its operations returned. -/
def Printed (interrupt : Option Nat) (c : Command) (f : Finished) : Prop :=
  (f.exitCode ≠ 0 → f.screen.out = "") ∧
    (f.screen.out ≠ "" → ∃ ops answers text, f.screen.out = text ++ "\n" ∧
      Documents interrupt c ops answers text)

theorem runCommand_printed (e : Environment) (files : FileTree)
    (routes : List (String × List BackendStep)) (settings : Settings) {c : Command}
    (reports : c.Reports) : Printed e.interrupt c (runCommand e files routes settings c) := by
  let start : World :=
    { client := { settings }, backend := { routes }, link := e.link settings, inlet := .channel }
  obtain ⟨answers, gets, replayed⟩ := (c.dialogue e.interrupt).run_gets start
  obtain ⟨failed, succeeded⟩ := prints_documents settings [] e.interrupt reports answers gets
  rw [← replayed] at failed succeeded
  have printed : (runCommand e files routes settings c).screen.out =
      ((c.dialogue e.interrupt).run start).1.screen.out := by
    change ((c.dialogue e.interrupt).run start).1.screen.out ++ (conclusion _).2.out = _
    have silent : ∀ outcome, (conclusion outcome).2.out = "" := by
      intro outcome
      cases outcome <;> rfl
    rw [silent, String.append_empty]
  rw [Printed, printed]
  constructor
  · intro nonzero
    refine failed fun success => nonzero ?_
    change (conclusion (((c.dialogue e.interrupt).run start).1.outcome.getD (.ok ()))).1 = 0
    rw [success]
    rfl
  · intro marked
    by_cases success : ((c.dialogue e.interrupt).run start).1.outcome = some (.ok ())
    · obtain ⟨text, out, documents⟩ := succeeded success
      exact ⟨_, _, text, out, documents⟩
    · exact absurd (failed success) marked

/-- Whatever the backend does, whatever else happens to the client and whenever the user
interrupts a wait for the core, a command that reports a resource prints exactly one
document of what the client returned, or nothing at all if it fails. -/
theorem documents_exact (settings : Settings) {c : Command} (reports : c.Reports) :
    (∀ before interrupt,
        (c.dialogue interrupt).Prints (Client.run { settings } before) (Documents interrupt c)) ∧
      (∀ interrupt ops answers text, Documents interrupt c ops answers text →
        ((c.dialogue interrupt).replay answers).outcome = some (.ok ())) ∧
      (∀ e files routes, Printed e.interrupt c (runCommand e files routes settings c)) ∧
      ResourcesSurvive :=
  ⟨fun before interrupt => prints_documents settings before interrupt reports,
    fun _ _ _ _ => Documents.succeeds,
    fun e files routes => runCommand_printed e files routes settings reports, resources_survive⟩

/-- A group and its member, sent in the wrong order. -/
def groupBody : String :=
  "\x7b\"proxies\":\x7b\"B\":\x7b\"name\":\"B\"\x7d," ++
    "\"A\":\x7b\"now\":\"B\",\"all\":[\"B\"]\x7d\x7d\x7d"

def groupNode : ProxyNode := { now := some "B", all := ["B"] }

def groupSnapshot : ProxiesSnapshot where
  proxies := [("A", groupNode), ("B", { name := "B" })]

def groupAnswer : Answer :=
  .ok (.proxies groupSnapshot)

def groupEvents : List ClientEvent :=
  [.advance 0, .transmitted ⟨⟨1⟩, 0, 0⟩ (.ok ()), .arrive (.ok ⟨1⟩ groupBody), .listen, .advance 0]

theorem group_gets :
    ((listProxies (some "A") true).dialogue none).Gets (Client.run {} []) [groupAnswer] := by
  have shown : (((Client.run {} (.start .proxies :: groupEvents)).jobs[0]?.bind Job.result?).bind
      fun r => r.toOption.bind Reply.proxies?) = some groupSnapshot := by
    decide +kernel
  obtain ⟨reply, settled, picked⟩ := Client.over_of_reply shown
  cases reply <;> cases picked
  exact .ask groupEvents groupAnswer settled (.print _ (.finish _ _))

theorem documents_exact_group :
    (listProxies (some "A") true).Reports ∧
    ∃ text, (((listProxies (some "A") true).dialogue none).replay [groupAnswer]).screen.out =
        text ++ "\n" ∧
      Documents none (listProxies (some "A") true) [.proxies] [groupAnswer] text :=
  ⟨.proxies _, ((documents_exact {} (.proxies (some "A"))).1 [] none [groupAnswer] group_gets).2
    rfl⟩

end Console.Command

end ProxyConsole
