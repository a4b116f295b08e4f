import ProxyConsole.Proofs.Client.Mutations
import ProxyConsole.Proofs.Client.Validation
import ProxyConsole.Proofs.Percent
import ProxyConsole.Text.Lines

/-!
# What a path addresses

A path is taken apart at its slashes and its query at the signs between parameters and values.  As
every name in a path is encoded, what comes out is what the path was put together from.  So the path
of a request says what the request is about, whatever characters the names have: two requests have
one path only if they are about the same thing, and no name leads from one kind of thing to another.
-/

set_option autoImplicit false

namespace ProxyConsole

open Text (trim Shows)
open Percent (Clean)

namespace Text

section Split

variable {α : Type} [DecidableEq α] {x : α} {piece : List α}

theorem splitWhere_whole (whole : x ∉ piece) : splitWhere (· = x) piece = [piece] := by
  induction piece with
  | nil => rfl
  | cons y piece ih =>
    have other : y ≠ x := fun same => whole (same ▸ List.mem_cons_self)
    have rest := ih fun member => whole (List.mem_cons_of_mem y member)
    rw [splitWhere, decide_eq_false other, rest]
    rfl

theorem splitWhere_append (whole : x ∉ piece) (rest : List α) :
    splitWhere (· = x) (piece ++ x :: rest) = piece :: splitWhere (· = x) rest := by
  induction piece with
  | nil => simp [splitWhere]
  | cons y piece ih =>
    have other : y ≠ x := fun same => whole (same ▸ List.mem_cons_self)
    have others := ih fun member => whole (List.mem_cons_of_mem y member)
    rw [List.cons_append, splitWhere, decide_eq_false other, others]
    rfl

theorem splitWhere_joined {pieces : List (List α)} (first : x ∉ piece)
    (whole : ∀ piece ∈ pieces, x ∉ piece) :
    splitWhere (· = x) (piece ++ pieces.flatMap (x :: ·)) = piece :: pieces := by
  induction pieces generalizing piece with
  | nil => simpa using splitWhere_whole first
  | cons next pieces ih =>
    have others := ih (whole next List.mem_cons_self)
      fun piece member => whole piece (List.mem_cons_of_mem next member)
    rw [List.flatMap_cons, List.cons_append, splitWhere_append first, others]

end Split

end Text

/-! ## Paths and their parts -/

/-- The parts of a path, each after a slash, and the parameters of its query. -/
structure Address where
  parts : List String
  parameters : List (String × String) := []
  deriving DecidableEq, Repr

namespace Address

def assignment (p : String × String) : List Char :=
  p.1.toList ++ '=' :: p.2.toList

def query : List (String × String) → List Char
  | [] => []
  | first :: rest => '?' :: (assignment first ++ rest.flatMap fun p => '&' :: assignment p)

def path (a : Address) : String :=
  String.ofList (a.parts.flatMap (fun part => '/' :: part.toList) ++ query a.parameters)

def ofAssignment (cs : List Char) : String × String :=
  (String.ofList (cs.takeWhile (· ≠ '=')), String.ofList (cs.dropWhile (· ≠ '=')).tail)

def ofQuery : List Char → List (String × String)
  | [] => []
  | _ :: cs => (Text.splitWhere (· = '&') cs).map ofAssignment

/-- A path taken apart.  What stands before its first slash is left out. -/
def ofPath (path : String) : Address where
  parts := (Text.splitWhere (· = '/') (path.toList.takeWhile (· ≠ '?'))).tail.map String.ofList
  parameters := ofQuery (path.toList.dropWhile (· ≠ '?'))

/-- Nothing in an address takes its path apart in another way. -/
structure Proper (a : Address) : Prop where
  parts : ∀ part ∈ a.parts, Clean part
  parameters : ∀ p ∈ a.parameters, Clean p.1 ∧ Clean p.2

theorem stays_of_not_mem {sign : Char} {cs : List Char} (without : sign ∉ cs) :
    ∀ c ∈ cs, decide (c ≠ sign) = true :=
  fun _ member => decide_eq_true fun same => without (same ▸ member)

theorem ofAssignment_assignment {p : String × String} (clean : Clean p.1) :
    ofAssignment (assignment p) = p := by
  have whole : '=' ∉ p.1.toList := clean.without (by decide)
  have key := stays_of_not_mem whole
  rw [ofAssignment, assignment, List.takeWhile_append_of_pos key, List.dropWhile_append_of_pos key]
  simp

theorem assignment_whole {p : String × String} (clean : Clean p.1 ∧ Clean p.2) :
    '&' ∉ assignment p := by
  intro member
  rcases List.mem_append.mp member with inKey | later
  · exact clean.1.without (by decide) inKey
  · rcases List.mem_cons.mp later with same | inValue
    · exact absurd same (by decide)
    · exact clean.2.without (by decide) inValue

theorem ofQuery_query {parameters : List (String × String)}
    (clean : ∀ p ∈ parameters, Clean p.1 ∧ Clean p.2) :
    ofQuery (query parameters) = parameters := by
  cases parameters with
  | nil => rfl
  | cons first rest =>
    have whole : ∀ piece ∈ rest.map assignment, '&' ∉ piece := by
      intro piece member
      obtain ⟨p, listed, rfl⟩ := List.mem_map.mp member
      exact assignment_whole (clean p (List.mem_cons_of_mem first listed))
    have split := Text.splitWhere_joined (assignment_whole (clean first List.mem_cons_self)) whole
    rw [List.flatMap_map] at split
    have read : ∀ p ∈ first :: rest, (ofAssignment ∘ assignment) p = id p := by
      intro p member
      exact ofAssignment_assignment (clean p member).1
    rw [query, ofQuery, split, ← List.map_cons, List.map_map, List.map_congr_left read,
      List.map_id]

theorem ofPath_path {a : Address} (proper : a.Proper) : ofPath a.path = a := by
  have place : '?' ∉ a.parts.flatMap (fun part => '/' :: part.toList) := by
    intro member
    obtain ⟨part, listed, member⟩ := List.mem_flatMap.mp member
    rcases List.mem_cons.mp member with same | inside
    · exact absurd same (by decide)
    · exact (proper.parts part listed).without (by decide) inside
  have ends : (query a.parameters).takeWhile (· ≠ '?') = [] ∧
      (query a.parameters).dropWhile (· ≠ '?') = query a.parameters := by
    cases a.parameters <;> simp [query]
  have whole : ∀ piece ∈ a.parts.map String.toList, '/' ∉ piece := by
    intro piece member
    obtain ⟨part, listed, rfl⟩ := List.mem_map.mp member
    exact (proper.parts part listed).without (by decide)
  have split := Text.splitWhere_joined (List.not_mem_nil (a := '/')) whole
  rw [List.flatMap_map, List.nil_append] at split
  have parts : (ofPath a.path).parts = a.parts := by
    rw [ofPath, path, String.toList_ofList,
      List.takeWhile_append_of_pos (stays_of_not_mem place), ends.1, List.append_nil, split,
      List.tail_cons, List.map_map]
    simp [Function.comp_def]
  have parameters : (ofPath a.path).parameters = a.parameters := by
    rw [ofPath, path, String.toList_ofList,
      List.dropWhile_append_of_pos (stays_of_not_mem place), ends.2,
      ofQuery_query proper.parameters]
  calc ofPath a.path = ⟨(ofPath a.path).parts, (ofPath a.path).parameters⟩ := rfl
    _ = a := by rw [parts, parameters]

end Address

/-! ## What there is to address -/

inductive Target where
  | version
  | configs
  | reload
  | proxies
  | connections
  | rules
  | fakeIps
  | providers
  | group (name : String)
  | delay (node url : String) (timeout : Nat)
  | connection (id : String)
  | provider (name : String)
  deriving DecidableEq, Repr

namespace Target

/-- A whole collection or a place without a name, not one thing among others. -/
def IsWhole : Target → Prop
  | .group _ | .delay .. | .connection _ | .provider _ => False
  | _ => True

def address : Target → Address
  | .version => ⟨["version"], []⟩
  | .configs => ⟨["configs"], []⟩
  | .reload => ⟨["configs"], [("force", "true")]⟩
  | .proxies => ⟨["proxies"], []⟩
  | .connections => ⟨["connections"], []⟩
  | .rules => ⟨["rules"], []⟩
  | .fakeIps => ⟨["cache", "fakeip", "flush"], []⟩
  | .providers => ⟨["providers", "proxies"], []⟩
  | .group name => ⟨["proxies", Percent.encode name], []⟩
  | .delay node url timeout =>
    ⟨["proxies", Percent.encode node, "delay"],
      [("timeout", Decimal.natText timeout), ("url", Percent.encode url)]⟩
  | .connection id => ⟨["connections", Percent.encode id], []⟩
  | .provider name => ⟨["providers", "proxies", Percent.encode name], []⟩

def path (t : Target) : String :=
  t.address.path

/-- What a reader of the address takes it for. -/
def ofAddress? (a : Address) : Option Target :=
  match a.parts, a.parameters with
  | ["version"], [] => some .version
  | ["configs"], [] => some .configs
  | ["configs"], [("force", "true")] => some .reload
  | ["proxies"], [] => some .proxies
  | ["connections"], [] => some .connections
  | ["rules"], [] => some .rules
  | ["cache", "fakeip", "flush"], [] => some .fakeIps
  | ["providers", "proxies"], [] => some .providers
  | ["proxies", name], [] => (Percent.decode name).map .group
  | ["proxies", node, "delay"], [("timeout", timeout), ("url", url)] =>
    match Percent.decode node, Percent.decode url with
    | some node, some url => some (.delay node url (Decimal.value timeout.toList))
    | _, _ => none
  | ["connections", id], [] => (Percent.decode id).map .connection
  | ["providers", "proxies", name], [] => (Percent.decode name).map .provider
  | _, _ => none

theorem natText_clean (n : Nat) : Clean (Decimal.natText n) := by
  have range : ∀ c ∈ (Decimal.natText n).toList, 0x30 ≤ c.toNat ∧ c.toNat ≤ 0x39 := by
    intro c member
    rw [Decimal.natText, String.toList_ofList] at member
    simpa [Char.isDigit, UInt32.le_iff_toNat_le] using Json.isDigit_of_mem_digits member
  constructor
  · intro c member separates
    have digit := range c member
    simp only [Percent.separators, List.mem_cons, List.not_mem_nil, or_false] at separates
    rcases separates with rfl | rfl | rfl | rfl | rfl <;> exact absurd digit (by decide)
  · intro c member
    have digit := range c member
    simp [Text.isBlank]
    omega

theorem address_proper (t : Target) : t.address.Proper := by
  constructor
  · cases t <;> simp [address, Percent.encode_clean] <;> decide
  · cases t <;> simp [address, Percent.encode_clean, natText_clean] <;> decide

theorem ofAddress?_address (t : Target) : ofAddress? t.address = some t := by
  cases t with
  | delay node url timeout =>
    have written : Decimal.value (Decimal.natText timeout).toList = timeout := by
      rw [Decimal.natText, String.toList_ofList, Decimal.value_digits]
    simp [address, ofAddress?, Percent.decode_encode, written]
  | _ => simp [address, ofAddress?, Percent.decode_encode]

theorem path_inj {t t' : Target} : t.path = t'.path ↔ t = t' := by
  constructor
  · intro same
    have read := Address.ofPath_path t.address_proper
    have read' := Address.ofPath_path t'.address_proper
    rw [path, path] at same
    rw [same, read'] at read
    have known := t.ofAddress?_address
    rw [← read, t'.ofAddress?_address] at known
    exact (Option.some.inj known).symm
  · exact congrArg path

end Target

/-! ## What an operation addresses -/

namespace Operation

/-- The client puts the requests of an operation together on its own. -/
def Own : Operation → Prop
  | .exchange .. | .attempt .. => False
  | _ => True

/-- What an operation is about, names being taken without the blanks around them. -/
def targets : Operation → List Target
  | .version | .waitReady _ => [.version]
  | .runningConfig | .currentMode | .setMode _ | .setLogLevel _ | .setAllowLan _ | .setIpv6 _
  | .setTun _ => [.configs]
  | .reload _ => [.reload]
  | .proxies => [.proxies]
  | .connections | .closeAllConnections => [.connections]
  | .rules => [.rules]
  | .flushFakeIp => [.fakeIps]
  | .testDelay node url timeout => [.delay (trim node) (trim url) timeout]
  | .testDelays nodes url timeout _ =>
    nodes.map fun node => .delay (trim node) (trim url) timeout
  | .select group _ => [.group (trim group)]
  | .closeConnection id => [.connection (trim id)]
  | .updateProvider name => [.provider (trim name)]
  | .exchange .. | .attempt .. | .reserve | .await .. => []

/-- The place and the name of what an operation changes that is named by one text. -/
def named? : Operation → Option (List String × String)
  | .select group _ => some (["proxies"], trim group)
  | .closeConnection id => some (["connections"], trim id)
  | .updateProvider name => some (["providers", "proxies"], trim name)
  | _ => none

end Operation

/-- A script turns to the backend with a request. -/
def Script.Asks (s : Settings) (request : Request) : Script → Prop
  | .call plan _ => request = plan.request
  | .readConfig _ => request = ({ settings := s } : Client).configPlan.fetch.request
  | .readProxies => request = ({ settings := s } : Client).proxiesPlan.fetch.request
  | .waitReady _ => request = Wait.request
  | .testDelays nodes url timeout _ =>
    ∃ node ∈ nodes, Operation.delayRequest node url timeout = .ok request
  | .reserve | .await .. => False

namespace Operation

/-- An operation is accepted and turns to the backend with a request. -/
def Asks (s : Settings) (op : Operation) (request : Request) : Prop :=
  ∃ script, op.script s = .ok script ∧ script.Asks s request

variable {s : Settings} {op op' : Operation} {request request' : Request}

theorem requireText_ok {what text value : String} (kept : requireText what text = .ok value) :
    Shows text ∧ value = trim text := by
  rcases requireText_cases what text with ⟨shows, made⟩ | ⟨_, made⟩
  · rw [made] at kept
    exact ⟨shows, (Except.ok.inj kept).symm⟩
  · rw [made] at kept
    cases kept

theorem delayPath_eq (node url : String) (timeout : Nat) :
    delayPath node url timeout = Target.path (.delay node url timeout) := by
  rw [← String.toList_inj]
  simp [delayPath, proxiesPath, Target.path, Target.address, Address.path, Address.query,
    Address.assignment]

theorem delayRequest_ok {node url : String} {timeout : Nat} :
    delayRequest node url timeout = .ok request ↔
      (testDelay node url timeout).Accepts ∧
        request = .get (Target.path (.delay (trim node) (trim url) timeout)) := by
  have made {request : Request} (made : delayRequest node url timeout = .ok request) :
      request = .get (Target.path (.delay (trim node) (trim url) timeout)) := by
    obtain ⟨node', kept, rest⟩ := bind_ok made
    obtain ⟨url', kept', last⟩ := bind_ok rest
    obtain ⟨_, rfl⟩ := requireText_ok kept
    obtain ⟨_, rfl⟩ := requireText_ok kept'
    split at last
    · cases last
    · rw [← Except.ok.inj last, delayPath_eq]
  rcases delayRequest_judges node url timeout with ⟨accepts, first, same, _⟩ |
    ⟨outside, reason, same⟩
  · rw [same, Except.ok.injEq, and_iff_right accepts, ← made same, eq_comm]
  · rw [same]
    exact ⟨nofun, fun both => absurd both.1 outside⟩

/-- Each request of an operation goes to something that the operation is about. -/
theorem asks_target (own : op.Own) (asks : Asks s op request) :
    ∃ t ∈ op.targets, request.path = t.path := by
  obtain ⟨script, accepted, asks⟩ := asks
  cases op with
  | testDelay node url timeout =>
    obtain ⟨made, kept, last⟩ := bind_ok accepted
    cases last
    obtain ⟨_, rfl⟩ := delayRequest_ok.mp kept
    cases asks
    exact ⟨_, List.mem_singleton_self _, rfl⟩
  | testDelays nodes url timeout width =>
    cases accepted
    obtain ⟨node, listed, kept⟩ := asks
    obtain ⟨_, rfl⟩ := delayRequest_ok.mp kept
    exact ⟨_, List.mem_map_of_mem listed, rfl⟩
  | setMode mode =>
    obtain ⟨m, _, last⟩ := bind_ok accepted
    cases last
    exact ⟨_, List.mem_singleton_self _, congrArg Request.path asks⟩
  | setLogLevel level =>
    obtain ⟨l, _, last⟩ := bind_ok accepted
    cases last
    exact ⟨_, List.mem_singleton_self _, congrArg Request.path asks⟩
  | reload path =>
    obtain ⟨path', _, last⟩ := bind_ok accepted
    cases last
    exact ⟨_, List.mem_singleton_self _, congrArg Request.path asks⟩
  | select group node =>
    obtain ⟨group', kept, rest⟩ := bind_ok accepted
    obtain ⟨node', _, last⟩ := bind_ok rest
    obtain ⟨_, rfl⟩ := requireText_ok kept
    cases last
    refine ⟨_, List.mem_singleton_self _, ?_⟩
    rw [asks, ← String.toList_inj]
    simp [plan, Request.put, Request.withJson, proxiesPath, Target.path, Target.address,
      Address.path, Address.query]
  | closeConnection id =>
    obtain ⟨id', kept, last⟩ := bind_ok accepted
    obtain ⟨_, rfl⟩ := requireText_ok kept
    cases last
    refine ⟨_, List.mem_singleton_self _, ?_⟩
    rw [asks, ← String.toList_inj]
    simp [plan, Request.delete, Target.path, Target.address, Address.path, Address.query]
  | updateProvider name =>
    obtain ⟨name', kept, last⟩ := bind_ok accepted
    obtain ⟨_, rfl⟩ := requireText_ok kept
    cases last
    refine ⟨_, List.mem_singleton_self _, ?_⟩
    rw [asks, ← String.toList_inj]
    simp [plan, Request.put, Request.withJson, Target.path, Target.address, Address.path,
      Address.query]
  | exchange weight request decode => cases own
  | attempt request timeout => cases own
  | reserve =>
    cases accepted
    cases asks
  | await t ms =>
    cases accepted
    cases asks
  | _ =>
    cases accepted
    exact ⟨_, List.mem_singleton_self _, congrArg Request.path asks⟩

theorem named_target {place : List String} {name : String}
    (named : op.named? = some (place, name)) :
    ∃ t : Target, op.targets = [t] ∧ t.address = ⟨place ++ [Percent.encode name], []⟩ := by
  cases op <;> cases named <;> exact ⟨_, rfl, rfl⟩

theorem named_own {named : List String × String} (found : op.named? = some named) : op.Own := by
  cases op <;> cases found <;> trivial

theorem named_asks {place : List String} {name : String} (named : op.named? = some (place, name))
    (asks : Asks s op request) :
    request.path = Address.path ⟨place ++ [Percent.encode name], []⟩ ∧
      Address.ofPath request.path = ⟨place ++ [Percent.encode name], []⟩ := by
  obtain ⟨t, listed, path⟩ := asks_target (named_own named) asks
  obtain ⟨t', one, address⟩ := named_target named
  rw [one, List.mem_singleton] at listed
  rw [path, listed, Target.path, Address.ofPath_path t'.address_proper, address]
  exact ⟨rfl, rfl⟩

theorem trim_ne_empty {text : String} (shows : Shows text) : trim text ≠ "" := by
  intro empty
  have kept := Text.isEmpty_trim.mpr shows
  rw [empty] at kept
  cases kept

theorem named_ne_empty {place : List String} {name : String}
    (named : op.named? = some (place, name)) (asks : Asks s op request) : name ≠ "" := by
  obtain ⟨script, accepted, _⟩ := asks
  cases op with
  | select group node | closeConnection id | updateProvider provider =>
    cases named
    obtain ⟨_, kept, _⟩ := bind_ok accepted
    exact trim_ne_empty (requireText_ok kept).1
  | _ => cases named

theorem named_accepted {named : List String × String} (found : op.named? = some named)
    (accepts : op.Accepts) : ∃ request, Asks s op request := by
  rcases op.script_judges s with ⟨_, script, made, _⟩ | ⟨outside, _⟩
  · cases op with
    | select group node =>
      obtain ⟨_, _, rest⟩ := bind_ok made
      obtain ⟨_, _, last⟩ := bind_ok rest
      cases last
      exact ⟨_, _, made, rfl⟩
    | closeConnection id | updateProvider provider =>
      obtain ⟨_, _, last⟩ := bind_ok made
      cases last
      exact ⟨_, _, made, rfl⟩
    | _ => cases found
  · exact absurd accepts outside

/-- A text stands encoded in a path: the path is not taken apart inside of it, and it is
read back. -/
structure StandsFor (written text : String) : Prop where
  clean : Clean written
  shown : written ≠ ""
  decoded : Percent.decode written = some text

theorem standsFor_encode {text : String} (shown : text ≠ "") :
    StandsFor (Percent.encode text) text :=
  ⟨Percent.encode_clean text, Percent.encode_ne_empty shown, Percent.decode_encode text⟩

/-- The path of a request says what the request is about. -/
structure Unambiguous (s : Settings) : Prop where
  tests : ∀ node url timeout, (testDelay node url timeout).Accepts →
    ∃ request, delayRequest node url timeout = .ok request
  asks : ∀ op place name, op.named? = some (place, name) → op.Accepts → ∃ request, Asks s op request
  delays : ∀ node url timeout node' url' timeout' request request',
    delayRequest node url timeout = .ok request → delayRequest node' url' timeout' = .ok request' →
      (request.path = request'.path ↔
        trim node = trim node' ∧ timeout = timeout' ∧ trim url = trim url')
  recovered : ∀ node url timeout request, delayRequest node url timeout = .ok request →
    ∃ segment value, StandsFor segment (trim node) ∧ StandsFor value (trim url) ∧
      Address.ofPath request.path = ⟨["proxies", segment, "delay"],
        [("timeout", Decimal.natText timeout), ("url", value)]⟩
  segment : ∀ op place name request, op.named? = some (place, name) → Asks s op request →
    ∃ segment, StandsFor segment name ∧ Address.ofPath request.path = ⟨place ++ [segment], []⟩
  named : ∀ op op' place place' name name' request request', op.named? = some (place, name) →
    op'.named? = some (place', name') → Asks s op request → Asks s op' request' →
      (request.path = request'.path ↔ place = place' ∧ name = name')
  /-- Any two operations have a path in common only if they are about the same thing. -/
  apart : ∀ op op' request request', op.Own → op'.Own → Asks s op request → Asks s op' request' →
    request.path = request'.path → ∃ t ∈ op.targets, t ∈ op'.targets
  wholes : ∀ op request, op.Own → (∀ t ∈ op.targets, ¬ t.IsWhole) → Asks s op request →
    ∀ t : Target, t.IsWhole → request.path ≠ t.path

theorem unambiguous (s : Settings) : Unambiguous s where
  tests _ _ _ accepts := ⟨_, delayRequest_ok.mpr ⟨accepts, rfl⟩⟩
  asks _ _ _ found accepts := named_accepted found accepts
  delays node url timeout node' url' timeout' request request' made made' := by
    obtain ⟨_, rfl⟩ := delayRequest_ok.mp made
    obtain ⟨_, rfl⟩ := delayRequest_ok.mp made'
    simp only [Request.get, Target.path_inj, Target.delay.injEq]
    constructor
    · rintro ⟨sameNode, sameUrl, sameTimeout⟩
      exact ⟨sameNode, sameTimeout, sameUrl⟩
    · rintro ⟨sameNode, sameTimeout, sameUrl⟩
      exact ⟨sameNode, sameUrl, sameTimeout⟩
  recovered node url timeout request made := by
    obtain ⟨accepts, rfl⟩ := delayRequest_ok.mp made
    refine ⟨_, _, standsFor_encode (trim_ne_empty accepts.1),
      standsFor_encode (trim_ne_empty accepts.2.1), ?_⟩
    exact Address.ofPath_path (Target.address_proper (.delay (trim node) (trim url) timeout))
  segment op place name request found asks :=
    ⟨_, standsFor_encode (named_ne_empty found asks), (named_asks found asks).2⟩
  named op op' place place' name name' request request' found found' asks asks' := by
    constructor
    · intro same
      have read := (named_asks found asks).2
      rw [same, (named_asks found' asks').2] at read
      have parts := List.append_inj' (congrArg Address.parts read) rfl
      have encoded := List.singleton_inj.mp parts.2
      exact ⟨parts.1.symm, (Percent.encode_inj.mp encoded).symm⟩
    · rintro ⟨rfl, rfl⟩
      rw [(named_asks found asks).1, (named_asks found' asks').1]
  apart op op' request request' own own' asks asks' same := by
    obtain ⟨t, listed, path⟩ := asks_target own asks
    obtain ⟨t', listed', path'⟩ := asks_target own' asks'
    rw [path, path', Target.path_inj] at same
    exact ⟨t, listed, same ▸ listed'⟩
  wholes op request own parts asks t whole same := by
    obtain ⟨t', listed, path⟩ := asks_target own asks
    rw [path, Target.path_inj] at same
    exact parts t' listed (same ▸ whole)

end Operation

end ProxyConsole
