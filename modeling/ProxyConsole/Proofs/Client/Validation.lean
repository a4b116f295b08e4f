import ProxyConsole.Proofs.Json.Document
import ProxyConsole.Proofs.Names
import ProxyConsole.Proofs.Client.Steps

/-!
# Where an input is refused

An input outside the domain of its operation is refused when the operation starts,
before anything else happens.  Nothing else refuses an input: whatever the backend
answers, an attempt comes to another kind of failure, and a body that cannot be decoded
is a failure of the transport, which is tried again.
-/

set_option autoImplicit false

namespace ProxyConsole

open Text

/-- A result that refuses the input. -/
def Refused {α : Type} (result : Except CallError α) : Prop :=
  ∃ reason, result = .error (.validation reason)

namespace Operation

/-- The inputs that an operation is for. -/
def Accepts : Operation → Prop
  | .setMode text => ∃ name ∈ ["rule", "global", "direct"], Spells text name
  | .setLogLevel text => ∃ name ∈ ["debug", "info", "warning", "error", "silent"], Spells text name
  | .reload path => Shows path
  | .select group node => Shows group ∧ Shows node
  | .closeConnection id => Shows id
  | .updateProvider name => Shows name
  | .testDelay node url timeout => Shows node ∧ Shows url ∧ 1 ≤ timeout ∧ timeout ≤ 60000
  | _ => True

/-- An operation does not judge the body of its answer on its own. -/
def Plain (op : Operation) : Prop :=
  ∀ weight request decode, op = .exchange weight request decode → ∀ body, ¬ Refused (decode body)

end Operation

/-! ## What an attempt comes to -/

section Results

variable {α β : Type}

theorem not_refused_ok (value : α) : ¬ Refused (.ok value : Except CallError α) := by
  rintro ⟨reason, same⟩
  cases same

theorem refused_map {f : α → β} {result : Except CallError α} :
    Refused (result.map f) ↔ Refused result := by
  cases result with
  | ok value =>
    exact iff_of_false (not_refused_ok (f value)) (not_refused_ok value)
  | error e =>
    constructor <;> rintro ⟨reason, same⟩ <;> cases same <;> exact ⟨reason, rfl⟩

theorem not_refused_bind {result : Except CallError α} {f : α → Except CallError β}
    (first : ¬ Refused result) (next : ∀ value, ¬ Refused (f value)) :
    ¬ Refused (result.bind f) := by
  cases result with
  | ok value => exact next value
  | error e =>
    rintro ⟨reason, same⟩
    cases same
    exact first ⟨reason, rfl⟩

theorem decodeBody_not_refused (codec : Codec α) (path body : String) :
    ¬ Refused (decodeBody codec path body) := by
  unfold decodeBody
  split <;> rintro ⟨reason, same⟩ <;> cases same

theorem classify_not_refused (e : InboundEnvelope) : ¬ Refused e.classify := by
  unfold InboundEnvelope.classify
  split
  · dsimp only
    split <;> rintro ⟨reason, same⟩ <;> cases same
  · split <;> rintro ⟨reason, same⟩ <;> cases same

theorem Ending.received_not_refused (ending : Ending) (path : String) (timeout : Nat) :
    ¬ Refused (ending.received path timeout) := by
  cases ending with
  | refused e =>
    simp only [Ending.received, CallError.ofTransport]
    split <;> rintro ⟨reason, same⟩ <;> cases same
  | answered e => exact classify_not_refused e
  | cancelled =>
    rintro ⟨reason, same⟩
    cases same
  | expired =>
    rintro ⟨reason, same⟩
    cases same

/-- No body makes a call refuse its input. -/
def CallPlan.Impartial (p : CallPlan α) : Prop :=
  ∀ body, ¬ Refused (p.decode body)

theorem CallPlan.Impartial.step {p : CallPlan α} (impartial : p.Impartial) {call : CallPhase}
    {now : Nat} {c c' : Correlator} {result : Except CallError α}
    (step : p.step call now c = .finish result c') : ¬ Refused result := by
  have cases := p.step_cases call now c
  rw [step] at cases
  cases cases with
  | ends number a ending ended last =>
    exact not_refused_bind (ending.received_not_refused _ _) impartial

theorem Wait.step_not_refused {w : Wait} {stopFirst : Bool} {phase : WaitPhase} {now : Nat}
    {c c' : Correlator} {result : Except CallError VersionInfo}
    (step : w.step stopFirst phase now c = .finish result c') : ¬ Refused result := by
  have cases := w.step_cases stopFirst phase now c
  generalize finished : w.step stopFirst phase now c = progress at cases
  rw [step] at finished
  cases cases with
  | returns a ending ended final =>
    cases finished
    refine not_refused_bind (ending.received_not_refused _ _) ?_
    intro body
    unfold Wait.decode
    split <;> rintro ⟨reason, same⟩ <;> cases same
  | calledOff resume moment off past first =>
    cases finished
    rintro ⟨reason, same⟩
    cases same
  | _ => cases finished

/-- No fetch of a cache has landed with a refusal. -/
def Cache.Impartial (cache : Cache α) : Prop :=
  ∀ (flight : Nat) (result : Except CallError α), cache.flights[flight]? =
    some (Flight.landed result) → ¬ Refused result

theorem Cache.Impartial.set {cache cache' : Cache α} (impartial : cache.Impartial) {flight : Nat}
    {outcome : Flight α} (flights : cache'.flights = cache.flights.set flight outcome)
    (fair : ∀ result, outcome = .landed result → ¬ Refused result) : cache'.Impartial := by
  intro other result landed
  rw [flights] at landed
  rcases Positions.getElem?_set_cases landed with ⟨_, same⟩ | ⟨_, before⟩
  · exact fair result same.symm
  · exact impartial other result before

theorem ReadPlan.lookUp_impartial {p : ReadPlan α} {cache : Cache α} (clean : cache.Impartial)
    (now : Nat) (c : Correlator) :
    (p.lookUp now cache c).2.Impartial ∧
      ∀ result c', (p.lookUp now cache c).1 = .finish result c' → ¬ Refused result := by
  unfold ReadPlan.lookUp
  rcases cache.inspect_cases now p.ttl p.signature with
    ⟨value, _, looked⟩ | ⟨_, flight, _, looked⟩ | ⟨_, _, looked⟩ <;> simp only [looked]
  · refine ⟨clean, ?_⟩
    rintro result c' same
    cases same
    exact not_refused_ok value
  · exact ⟨clean, by rintro _ _ ⟨⟩⟩
  · refine ⟨?_, by rintro _ _ ⟨⟩⟩
    intro flight result landed
    rw [Cache.flights_launch] at landed
    rcases Positions.getElem?_concat_cases landed with before | ⟨_, same⟩
    · exact clean flight result before
    · cases same

theorem ReadPlan.step_impartial {p : ReadPlan α} (fetch : p.fetch.Impartial) {cache : Cache α}
    (clean : cache.Impartial) (phase : ReadPhase) (now : Nat) (c : Correlator) :
    (p.step phase now cache c).2.Impartial ∧
      ∀ result c', (p.step phase now cache c).1 = .finish result c' → ¬ Refused result := by
  cases phase with
  | arriving => exact lookUp_impartial clean now c
  | following flight =>
    simp only [ReadPlan.step]
    split
    · exact ⟨clean, by rintro _ _ ⟨⟩⟩
    · rename_i result landed
      refine ⟨clean, ?_⟩
      rintro result' c' same
      cases same
      exact clean flight result landed
    · exact lookUp_impartial clean now c
  | leading flight call =>
    simp only [ReadPlan.step]
    split
    · exact ⟨clean, by rintro _ _ ⟨⟩⟩
    · exact ⟨clean, by rintro _ _ ⟨⟩⟩
    · rename_i result c' finished
      have fair := fetch.step finished
      refine ⟨clean.set (Cache.flights_land ..) ?_, ?_⟩
      · rintro result' same
        cases same
        exact fair
      · rintro result' c'' same
        cases same
        exact fair

end Results

/-! ## What an operation accepts -/

/-- A check comes to something good if the input is accepted, and refuses the input if not. -/
def Judges {α : Type} (accepts : Prop) (good : α → Prop) (check : Except CallError α) : Prop :=
  (accepts ∧ ∃ value, check = .ok value ∧ good value) ∨ (¬ accepts ∧ Refused check)

section Judges

variable {α β : Type} {accepts accepts' : Prop} {good : α → Prop} {good' : β → Prop}
  {check : Except CallError α}

theorem Judges.bind {f : α → Except CallError β} (first : Judges accepts good check)
    (next : ∀ value, good value → Judges accepts' good' (f value)) :
    Judges (accepts ∧ accepts') good' (check >>= f) := by
  rcases first with ⟨inside, value, rfl, fair⟩ | ⟨outside, reason, rfl⟩
  · rcases next value fair with ⟨inside', value', made, fair'⟩ | ⟨outside', refused⟩
    · exact Or.inl ⟨⟨inside, inside'⟩, value', made, fair'⟩
    · exact Or.inr ⟨fun both => outside' both.2, refused⟩
  · exact Or.inr ⟨fun both => outside both.1, reason, rfl⟩

theorem Judges.andThen {f : α → β} (first : Judges accepts good check)
    (fair : ∀ value, good' (f value)) :
    Judges accepts good' (check >>= fun value => pure (f value)) := by
  rcases first with ⟨inside, value, rfl, _⟩ | ⟨outside, reason, rfl⟩
  · exact Or.inl ⟨inside, f value, rfl, fair value⟩
  · exact Or.inr ⟨outside, reason, rfl⟩

end Judges

namespace Operation

theorem requireText_judges (what text : String) :
    Judges (Shows text) (fun _ => True) (requireText what text) := by
  rcases requireText_cases what text with ⟨shows, made⟩ | ⟨blank, made⟩
  · exact Or.inl ⟨shows, _, made, trivial⟩
  · exact Or.inr ⟨blank, _, made⟩

theorem delayRequest_judges (node url : String) (timeout : Nat) :
    Judges (testDelay node url timeout).Accepts (fun _ => True)
      (delayRequest node url timeout) := by
  unfold delayRequest
  refine (requireText_judges "proxy node" node).bind fun node' _ =>
    (requireText_judges "test url" url).bind fun url' _ => ?_
  by_cases outside : timeout = 0 ∨ maxDelayTimeout < timeout
  · rw [if_pos outside]
    refine Or.inr ⟨?_, _, rfl⟩
    simp only [maxDelayTimeout] at outside
    omega
  · rw [if_neg outside]
    refine Or.inl ⟨?_, _, rfl, trivial⟩
    simp only [maxDelayTimeout] at outside
    omega

theorem mode_listed {text : String} :
    (setMode text).Accepts ↔ ∃ m : Mode, Mode.parse text = .ok m := by
  constructor
  · rintro ⟨name, member, spells⟩
    simp only [List.mem_cons, List.not_mem_nil, or_false] at member
    rcases member with rfl | rfl | rfl
    · exact ⟨.rule, Mode.parse_ok_iff.mpr spells⟩
    · exact ⟨.global, Mode.parse_ok_iff.mpr spells⟩
    · exact ⟨.direct, Mode.parse_ok_iff.mpr spells⟩
  · rintro ⟨m, parsed⟩
    exact ⟨m.name, by cases m <;> decide, Mode.parse_ok_iff.mp parsed⟩

theorem logLevel_listed {text : String} :
    (setLogLevel text).Accepts ↔ ∃ l : LogLevel, LogLevel.parse text = .ok l := by
  constructor
  · rintro ⟨name, member, spells⟩
    simp only [List.mem_cons, List.not_mem_nil, or_false] at member
    rcases member with rfl | rfl | rfl | rfl | rfl
    · exact ⟨.debug, LogLevel.parse_ok_iff.mpr spells⟩
    · exact ⟨.info, LogLevel.parse_ok_iff.mpr spells⟩
    · exact ⟨.warning, LogLevel.parse_ok_iff.mpr spells⟩
    · exact ⟨.error, LogLevel.parse_ok_iff.mpr spells⟩
    · exact ⟨.silent, LogLevel.parse_ok_iff.mpr spells⟩
  · rintro ⟨l, parsed⟩
    exact ⟨l.name, by cases l <;> decide, LogLevel.parse_ok_iff.mp parsed⟩

theorem mode_judges (text : String) :
    Judges (setMode text).Accepts (fun _ => True) (Mode.parse text) := by
  rw [mode_listed]
  cases parsed : Mode.parse text with
  | ok m => exact Or.inl ⟨⟨m, rfl⟩, m, rfl, trivial⟩
  | error e =>
    refine Or.inr ⟨by rintro ⟨_, ⟨⟩⟩, ?_⟩
    unfold Mode.parse at parsed
    split at parsed <;> cases parsed
    exact ⟨_, rfl⟩

theorem logLevel_judges (text : String) :
    Judges (setLogLevel text).Accepts (fun _ => True) (LogLevel.parse text) := by
  rw [logLevel_listed]
  cases parsed : LogLevel.parse text with
  | ok l => exact Or.inl ⟨⟨l, rfl⟩, l, rfl, trivial⟩
  | error e =>
    refine Or.inr ⟨by rintro ⟨_, ⟨⟩⟩, ?_⟩
    unfold LogLevel.parse at parsed
    split at parsed <;> cases parsed
    exact ⟨_, rfl⟩

end Operation

/-- No answer makes what a script starts refuse its input. -/
def Script.Impartial : Script → Prop
  | .call plan _ => plan.Impartial
  | _ => True

theorem readScript_impartial {α : Type} (s : Settings) (weight : OperationClass) (path : String)
    (codec : Codec α) (reply : α → Reply) :
    (Operation.readScript s weight path codec reply).Impartial :=
  fun body refused => decodeBody_not_refused codec path body (refused_map.mp refused)

theorem changeScript_impartial (s : Settings) (weight : OperationClass) (request : Request)
    (reply : Reply) (after : Aftermath) :
    (Operation.changeScript s weight request reply after).Impartial :=
  fun _ => not_refused_ok reply

/-- An operation is refused with a reason exactly if its input is outside its domain. -/
theorem Operation.script_judges (op : Operation) (s : Settings) :
    Judges op.Accepts (fun script => op.Plain → script.Impartial) (op.script s) := by
  unfold script
  cases op with
  | setMode text =>
    exact (mode_judges text).andThen fun _ _ => changeScript_impartial _ _ _ _ _
  | setLogLevel text =>
    exact (logLevel_judges text).andThen fun _ _ => changeScript_impartial _ _ _ _ _
  | testDelay node url timeout =>
    exact (delayRequest_judges node url timeout).andThen fun _ _ => readScript_impartial _ _ _ _ _
  | reload path =>
    exact (requireText_judges "config path" path).andThen fun _ _ =>
      changeScript_impartial _ _ _ _ _
  | select group node =>
    exact (requireText_judges "proxy group" group).bind fun _ _ =>
      (requireText_judges "proxy node" node).andThen fun _ _ => changeScript_impartial _ _ _ _ _
  | closeConnection id =>
    exact (requireText_judges "connection id" id).andThen fun _ _ =>
      changeScript_impartial _ _ _ _ _
  | updateProvider name =>
    exact (requireText_judges "provider name" name).andThen fun _ _ =>
      changeScript_impartial _ _ _ _ _
  | version => exact Or.inl ⟨trivial, _, rfl, fun _ => readScript_impartial _ _ _ _ _⟩
  | connections => exact Or.inl ⟨trivial, _, rfl, fun _ => readScript_impartial _ _ _ _ _⟩
  | rules => exact Or.inl ⟨trivial, _, rfl, fun _ => readScript_impartial _ _ _ _ _⟩
  | setAllowLan enabled => exact Or.inl ⟨trivial, _, rfl, fun _ => changeScript_impartial _ _ _ _ _⟩
  | setIpv6 enabled => exact Or.inl ⟨trivial, _, rfl, fun _ => changeScript_impartial _ _ _ _ _⟩
  | setTun enabled => exact Or.inl ⟨trivial, _, rfl, fun _ => changeScript_impartial _ _ _ _ _⟩
  | closeAllConnections => exact Or.inl ⟨trivial, _, rfl, fun _ => changeScript_impartial _ _ _ _ _⟩
  | flushFakeIp => exact Or.inl ⟨trivial, _, rfl, fun _ => changeScript_impartial _ _ _ _ _⟩
  | exchange weight request decode =>
    exact Or.inl ⟨trivial, _, rfl, fun plain => plain weight request decode rfl⟩
  | attempt request timeout => exact Or.inl ⟨trivial, _, rfl, fun _ body => not_refused_ok _⟩
  | _ => exact Or.inl ⟨trivial, _, rfl, fun _ => trivial⟩

/-! ## Tests of a batch -/

/-- A test under way refuses nothing, and one that is over was refused exactly if its input is not
accepted. -/
def TestPhase.Fair (accepts : Prop) : TestPhase → Prop
  | .starting => True
  | .calling plan _ => accepts ∧ plan.Impartial
  | .over result => Refused result ↔ ¬ accepts

/-- The results of delay tests are refusals exactly where the input is not accepted. -/
def FairResults (url : String) (timeout : Nat)
    (results : List (String × Except CallError DelayResult)) : Prop :=
  ∀ node result, (node, result) ∈ results →
    (Refused result ↔ ¬ (Operation.testDelay node url timeout).Accepts)

structure Batch.Fair (b : Batch) (url : String) (timeout : Nat) : Prop where
  sameUrl : b.url = url
  sameTimeout : b.timeout = timeout
  tests : ∀ node phase, (node, phase) ∈ b.tests →
    phase.Fair (Operation.testDelay node url timeout).Accepts
  results : FairResults url timeout b.results

section Tests

variable {s : Settings} {b : Batch} {now : Nat} {c c' : Correlator} {sends : List Sending}

theorem TestPhase.Fair.step {node : String} {phase phase' : TestPhase}
    (fair : phase.Fair (Operation.testDelay node b.url b.timeout).Accepts)
    (step : phase.step s b node now c = some (phase', sends, c')) :
    phase'.Fair (Operation.testDelay node b.url b.timeout).Accepts := by
  cases phase with
  | starting =>
    simp only [TestPhase.step] at step
    rcases Operation.delayRequest_judges node b.url b.timeout with
      ⟨accepts, request, made, _⟩ | ⟨outside, reason, made⟩
    · rw [made] at step
      cases step
      exact ⟨accepts, fun body => decodeBody_not_refused _ _ body⟩
    · rw [made] at step
      cases step
      exact iff_of_true ⟨reason, rfl⟩ outside
  | calling plan call =>
    obtain ⟨accepts, impartial⟩ := fair
    simp only [TestPhase.step] at step
    split at step
    · cases step
    · cases step
      exact ⟨accepts, impartial⟩
    · rename_i finished
      cases step
      exact iff_of_false (impartial.step finished) (not_not_intro accepts)
  | _ => cases step

theorem TestPhase.Fair.mapAttempt {accepts : Prop} {phase : TestPhase} (fair : phase.Fair accepts)
    (f : Attempt → Attempt) : (phase.mapAttempt f).Fair accepts := by
  cases phase <;> exact fair

variable {url : String} {timeout : Nat}

theorem Batch.Fair.step (fair : b.Fair url timeout) :
    (∀ b' sends c', b.step s now c = .move b' sends c' → b'.Fair url timeout) ∧
      ∀ results c', b.step s now c = .finish results c' → FairResults url timeout results := by
  have goes := b.step_goes s now c
  generalize b.step s now c = progress at goes ⊢
  cases goes with
  | takesIn node waiting next room =>
    refine ⟨?_, nofun⟩
    rintro b' sends c' same
    cases same
    refine ⟨fair.sameUrl, fair.sameTimeout, ?_, fair.results⟩
    intro node phase member
    rcases List.mem_append.mp member with before | last
    · exact fair.tests node phase before
    · cases List.mem_singleton.mp last
      trivial
  | givesOut node result tests full first =>
    refine ⟨?_, nofun⟩
    rintro b' sends c' same
    cases same
    have settled := fair.tests node (.over result) (by rw [first]; exact List.mem_cons_self)
    refine ⟨fair.sameUrl, fair.sameTimeout, ?_, ?_⟩
    · intro other phase member
      exact fair.tests other phase (by rw [first]; exact List.mem_cons_of_mem _ member)
    · intro other result' member
      rcases List.mem_append.mp member with before | last
      · exact fair.results other result' before
      · cases List.mem_singleton.mp last
        exact settled
  | tests j node phase phase' sends₁ c₁ found step =>
    refine ⟨?_, nofun⟩
    rintro b' sends c' same
    cases same
    refine ⟨fair.sameUrl, fair.sameTimeout, ?_, fair.results⟩
    intro other stands member
    rcases List.mem_or_eq_of_mem_set member with before | same
    · exact fair.tests other stands before
    · cases same
      have tested := fair.tests node phase (List.mem_of_getElem? found)
      rw [← fair.sameUrl, ← fair.sameTimeout] at tested ⊢
      exact tested.step step
  | stays => exact ⟨nofun, nofun⟩
  | ends full empty =>
    refine ⟨nofun, ?_⟩
    rintro results c' same
    cases same
    exact fair.results

theorem Batch.Fair.mapAttempt (fair : b.Fair url timeout) (f : Attempt → Attempt) :
    (b.mapAttempt f).Fair url timeout := by
  refine ⟨fair.sameUrl, fair.sameTimeout, ?_, fair.results⟩
  intro node phase member
  obtain ⟨⟨node', phase'⟩, member', same⟩ := List.mem_map.mp member
  cases same
  exact (fair.tests node' phase' member').mapAttempt f

end Tests

/-! ## Jobs -/

/-- No answer of the backend makes a job refuse its input. -/
def Job.Impartial : Job → Prop
  | .call plan _ _ => plan.Impartial
  | .newCall plan _ => plan.Impartial
  | .over result => ¬ Refused result
  | _ => True

/-- A job tests delays with a URL and a time, or did so. -/
def Job.TestsFairly (url : String) (timeout : Nat) : Job → Prop
  | .testing batch => batch.Fair url timeout
  | .over result => ∀ results, result = .ok (.delays results) → FairResults url timeout results
  | .gone => True
  | _ => False

namespace Client

theorem planOf_impartial (cl : Client) (r : Resource) : (cl.planOf r).fetch.Impartial := by
  intro body
  rw [planOf_decode]
  exact decodeBody_not_refused _ _ body

theorem replyOf_not_refused {cl : Client} {r : Resource} {modeOnly : Bool}
    {result : Except CallError r.Value} (fair : ¬ Refused result) :
    ¬ Refused (cl.replyOf r modeOnly result) := by
  cases result with
  | ok value => exact not_refused_ok _
  | error e =>
    simp only [replyOf]
    split
    · exact not_refused_ok _
    · rintro ⟨reason, same⟩
      cases same
      exact fair ⟨reason, rfl⟩

theorem JobGoes.caches_impartial {cl cl' : Client} {index : Nat} {job job' : Job}
    (goes : cl.JobGoes index job job' cl') (clean : ∀ r, (cl.cacheOf r).Impartial) (r : Resource) :
    (cl'.cacheOf r).Impartial := by
  have kept : ∀ (r' : Resource) (cache : Cache r'.Value), cache.Impartial →
      ((cl.withCache r' cache).cacheOf r).Impartial := by
    intro r' cache fair
    by_cases same : r = r'
    · subst same
      rw [cacheOf_withCache_self]
      exact fair
    · rw [cacheOf_withCache_other _ same]
      exact clean r
  cases goes with
  | ends plan after call result c step =>
    have cached : ((cl.settleAftermath after result).finishJob index result c).cacheOf r =
        (cl.settleAftermath after result).cacheOf r := by cases r <;> rfl
    rw [cached, settleAftermath_cacheOf]
    split <;> exact clean r
  | reads r' modeOnly phase phase' sends c cache step =>
    have fair := (ReadPlan.step_impartial (cl.planOf_impartial r') (clean r') phase cl.now
      cl.correlator).1
    rw [step] at fair
    have cached : ((cl.withCache r' cache).moveJob index (r'.job modeOnly phase') sends c).cacheOf
        r = (cl.withCache r' cache).cacheOf r := by cases r <;> rfl
    rw [cached]
    exact kept r' cache fair
  | answers r' modeOnly phase result c cache step =>
    have fair := (ReadPlan.step_impartial (cl.planOf_impartial r') (clean r') phase cl.now
      cl.correlator).1
    rw [step] at fair
    rw [finishRead_cacheOf]
    exact kept r' cache fair
  | _ => cases r <;> exact clean _

theorem withdraw_caches_impartial {cl : Client} (clean : ∀ r, (cl.cacheOf r).Impartial) (job : Job)
    (r : Resource) : ((cl.withdraw job).cacheOf r).Impartial := by
  cases job with
  | readConfig modeOnly phase =>
    cases r with
    | proxies => exact clean .proxies
    | config =>
      cases phase with
      | leading flight call => exact (clean .config).set (Cache.flights_abandon ..) (by simp)
      | _ => exact clean .config
  | readProxies phase =>
    cases r with
    | config => exact clean .config
    | proxies =>
      cases phase with
      | leading flight call => exact (clean .proxies).set (Cache.flights_abandon ..) (by simp)
      | _ => exact clean .proxies
  | _ => cases r <;> exact clean _

theorem step_caches_impartial {cl : Client} (clean : ∀ r, (cl.cacheOf r).Impartial)
    (event : ClientEvent) (r : Resource) : ((cl.step event).cacheOf r).Impartial := by
  cases event with
  | advance index =>
    rcases cl.advance_cases index with ⟨_, still⟩ | ⟨_, _, _, goes⟩
    · rw [still]
      exact clean r
    · exact goes.caches_impartial clean r
  | listen =>
    simp only [step, stepListener]
    cases cl.listener.step cl.stopFirst cl.correlator <;> cases r <;> exact clean _
  | abandon index =>
    simp only [step, abandon]
    cases cl.jobs[index]? with
    | none => exact clean r
    | some job =>
      have cached : ((cl.withdraw job).setJob index .gone).cacheOf r =
          (cl.withdraw job).cacheOf r := by cases r <;> rfl
      rw [cached]
      exact withdraw_caches_impartial clean job r
  | _ => cases r <;> exact clean _

/-- No fetch of a resource ever lands with a refusal. -/
theorem caches_impartial (settings : Settings) (events : List ClientEvent) (r : Resource) :
    ((run { settings } events).cacheOf r).Impartial := by
  induction events using List.reverseRecOn generalizing r with
  | nil =>
    intro flight result landed
    cases r <;> cases landed
  | append_singleton events event earlier =>
    rw [run_concat]
    exact step_caches_impartial earlier event r

theorem JobGoes.impartial {cl cl' : Client} {index : Nat} {job job' : Job}
    (goes : cl.JobGoes index job job' cl') (clean : ∀ r, (cl.cacheOf r).Impartial)
    (impartial : job.Impartial) : job'.Impartial := by
  cases goes with
  | begins => exact impartial
  | calls => exact impartial
  | ends plan after call result c step => exact CallPlan.Impartial.step impartial step
  | reads r => cases r <;> trivial
  | answers r modeOnly phase result c cache step =>
    have fair := (ReadPlan.step_impartial (cl.planOf_impartial r) (clean r) phase cl.now
      cl.correlator).2
    exact replyOf_not_refused (fair result c (by rw [step]))
  | waits => trivial
  | waited wait phase result c step =>
    exact fun refused => Wait.step_not_refused step (refused_map.mp refused)
  | tests => trivial
  | _ => exact not_refused_ok _

theorem JobGoes.testsFairly {cl cl' : Client} {index : Nat} {job job' : Job}
    (goes : cl.JobGoes index job job' cl') {url : String} {timeout : Nat}
    (fair : job.TestsFairly url timeout) : job'.TestsFairly url timeout := by
  cases goes with
  | tests batch batch' sends c step => exact (Batch.Fair.step fair).1 _ _ _ step
  | tested batch results c step =>
    rintro results' same
    cases same
    exact (Batch.Fair.step fair).2 _ _ step
  | reads r => cases r <;> cases fair
  | answers r => cases r <;> cases fair
  | _ => cases fair

end Client

/-! ## An unknown mode -/

/-- A body is an object in which the mode stands under a name. -/
def GivesMode (body name : String) : Prop :=
  ∃ members ending key literal,
    (Json.Document.scan (Utf8.encode body)).root = .object members ending ∧
      (key, Json.Node.string literal) ∈ members ∧ key.text = .ok "mode" ∧ literal.text = .ok name

theorem Record.readMembers_error {σ : Type} {r : Record σ} {key : Json.Literal} {value : Json.Node}
    {name : String} {f : Field σ} (named : key.text = .ok name) (field : r.field? name = some f)
    (fails : ∀ s, ∃ e, f.store value s = .error e) {members : List (Json.Literal × Json.Node)}
    (member : (key, value) ∈ members) (seen : List String) (s : σ) :
    ∃ e, r.readMembers members seen s = .error e := by
  induction members generalizing seen s with
  | nil => cases member
  | cons first members earlier =>
    obtain ⟨key', value'⟩ := first
    rcases List.mem_cons.mp member with same | behind
    · cases same
      simp only [readMembers, named, Json.liftFault, field]
      obtain ⟨e, failed⟩ := fails s
      rw [failed]
      split
      · exact ⟨_, rfl⟩
      · exact ⟨e, rfl⟩
    · simp only [readMembers]
      split
      · exact ⟨_, rfl⟩
      · split
        · split
          · exact ⟨_, rfl⟩
          · exact earlier behind seen s
        · split
          · exact ⟨_, rfl⟩
          · split
            · exact ⟨_, rfl⟩
            · exact earlier behind _ _

theorem Mode.codec_error {literal : Json.Literal} {name : String} (text : literal.text = .ok name)
    (unknown : ¬ (Operation.setMode name).Accepts) :
    ∃ e, Mode.codec.decode (.string literal) = .error e := by
  cases parsed : Mode.parse name with
  | ok m => exact absurd (Operation.mode_listed.mpr ⟨m, parsed⟩) unknown
  | error e =>
    refine ⟨.refused e.message, ?_⟩
    simp only [codec, Codec.string, Json.decodeString, text, Json.liftFault]
    simp only [bind, Except.bind, parsed]

theorem GivesMode.undecodable {body name : String} (gives : GivesMode body name)
    (unknown : ¬ (Operation.setMode name).Accepts) :
    ∃ e, RuntimeConfig.codec.ofText body = .error e := by
  obtain ⟨members, ending, key, literal, root, member, named, text⟩ := gives
  obtain ⟨e, failed⟩ := Mode.codec_error text unknown
  have field : RuntimeConfig.record.field? "mode" = some (.of "mode" Mode.codec RuntimeConfig.mode
      (fun s v => { s with mode := v }) false) := rfl
  obtain ⟨e', unread⟩ := RuntimeConfig.record.readMembers_error named field
    (fun s => ⟨e, by simp only [Field.of, failed]; rfl⟩) member [] RuntimeConfig.record.blank
  refine ⟨e', ?_⟩
  simp only [Codec.ofText, Json.decodeText, Json.decodeBytes, root, RuntimeConfig.codec,
    Record.codec, Record.decode, unread]

theorem mem_of_written {members : List (String × Json)} {nodes : List (Json.Literal × Json.Node)}
    (written : Json.WrittenMembers members nodes) {key name : String}
    (member : (key, Json.string name) ∈ members) :
    (Json.Literal.ofText key, Json.Node.string (.ofText name)) ∈ nodes := by
  induction members generalizing nodes with
  | nil => cases member
  | cons first members earlier =>
    cases written with
    | cons key' value others =>
      rcases List.mem_cons.mp member with same | behind
      · cases same
        cases value
        exact List.mem_cons_self
      · exact List.mem_cons_of_mem _ (earlier others behind)

theorem givesMode_compactText {members : List (String × Json)}
    {nodes : List (Json.Literal × Json.Node)} (written : Json.WrittenMembers members nodes)
    {name : String} (member : ("mode", Json.string name) ∈ members) :
    GivesMode (Json.object members).compactText name := by
  have text : Utf8.encode (Json.object members).compactText = (Json.object members).bytes := by
    rw [Utf8.encode, Json.compactText, String.toList_ofList, Json.bytes]
  refine ⟨nodes, none, .ofText "mode", .ofText name, ?_, mem_of_written written member, rfl, rfl⟩
  rw [text, Json.Document.scan_bytes (.object written)]

namespace Client

/-- Where inputs are refused, and where they are not. -/
structure Validates (settings : Settings) (before : List ClientEvent) : Prop where
  refused : ∀ op, ¬ op.Accepts → ∃ reason, (run { settings } before).step (.start op) =
    { run { settings } before with
      jobs := (run { settings } before).jobs ++ [.over (.error (.validation reason))] }
  accepted : ∀ op later result, op.Accepts → op.Plain →
    (run { settings } (before ++ .start op :: later)).jobs[
      (run { settings } before).jobs.length]? = some (.over result) → ¬ Refused result
  tested : ∀ nodes url timeout width later results,
    (run { settings } (before ++ .start (.testDelays nodes url timeout width) :: later)).jobs[
      (run { settings } before).jobs.length]? = some (.over (.ok (.delays results))) →
    FairResults url timeout results
  /-- A configuration with an unknown mode is a failure of the transport, and is asked for
  again while attempts are left. -/
  unknownMode : ∀ index modeOnly flight number a e body name,
    (run { settings } before).jobs[index]? =
      some (.readConfig modeOnly (.leading flight (.attempting number a))) →
    a.ending? (run { settings } before).now (run { settings } before).correlator =
      some (.answered e) →
    e.classify = .ok body → GivesMode body name → ¬ (Operation.setMode name).Accepts →
    ∃ err : TransportError, err.kind = .decode ∧ (CallError.transport err).isRetryable = true ∧
      (number < settings.retry.attempts →
        (run { settings } (before ++ [.advance index])).jobs[index]? =
          some (.readConfig modeOnly (.leading flight (.pausing number
            ((run { settings } before).now + settings.retry.backoff.toNat))))) ∧
      (settings.retry.attempts ≤ number →
        (run { settings } (before ++ [.advance index])).jobs[index]? =
          some (.over (configReply modeOnly (run { settings } before).lastMode
            (.error (.transport err)))))
  bodies : ∀ members nodes name, Json.WrittenMembers members nodes →
    ("mode", Json.string name) ∈ members → GivesMode (Json.object members).compactText name

variable {settings : Settings} {before later : List ClientEvent}

theorem opened_inside (op : Operation) :
    (run { settings } before).jobs.length <
    (run { settings } (before ++ [.start op])).jobs.length := by
  rw [run_concat, start_jobs]
  simp

theorem opened_at {op : Operation} {job : Job}
    (found : (run { settings } (before ++ [.start op])).jobs[
      (run { settings } before).jobs.length]? = some job) :
    job = (run { settings } before).opened op := by
  rw [run_concat, start_jobs, List.getElem?_concat_length] at found
  exact (Option.some.inj found).symm

theorem opened_impartial {op : Operation} (accepts : op.Accepts) (plain : op.Plain) (cl : Client) :
    (cl.opened op).Impartial := by
  rcases op.script_judges cl.settings with ⟨_, script, made, impartial⟩ | ⟨outside, _⟩
  · simp only [opened, made]
    have fair := impartial plain
    cases script <;> exact fair
  · exact absurd accepts outside

theorem accepted_not_refused {op : Operation} {result : Except CallError Reply}
    (accepts : op.Accepts) (plain : op.Plain)
    (settled : (run { settings } (before ++ .start op :: later)).jobs[
      (run { settings } before).jobs.length]? = some (.over result)) : ¬ Refused result := by
  have split : before ++ .start op :: later = (before ++ [.start op]) ++ later := by simp
  rw [split, run_append] at settled
  refine job_run (P := Job.Impartial) (opened_inside op) ?_ trivial ?_ ?_ settled
  · intro job found
    rw [opened_at found]
    exact opened_impartial accepts plain _
  · intro job t result fair
    cases job <;> exact fair
  · intro before' rest job job' _ _ fair goes
    refine goes.impartial ?_ fair
    rw [← run_append]
    exact caches_impartial settings _

theorem tested_fairly {nodes : List String} {url : String} {timeout width : Nat}
    {results : List (String × Except CallError DelayResult)}
    (settled : (run { settings }
        (before ++ .start (.testDelays nodes url timeout width) :: later)).jobs[
      (run { settings } before).jobs.length]? = some (.over (.ok (.delays results)))) :
    FairResults url timeout results := by
  have split : before ++ .start (.testDelays nodes url timeout width) :: later =
      (before ++ [.start (.testDelays nodes url timeout width)]) ++ later := by simp
  rw [split, run_append] at settled
  have fair : (Job.over (.ok (.delays results))).TestsFairly url timeout := by
    refine job_run (P := Job.TestsFairly url timeout)
      (opened_inside (.testDelays nodes url timeout width)) ?_ trivial ?_ ?_ settled
    · intro job found
      rw [opened_at found]
      exact ⟨rfl, rfl, nofun, nofun⟩
    · intro job t result fair
      cases job with
      | testing batch => exact Batch.Fair.mapAttempt fair _
      | _ => exact fair
    · exact fun _ _ _ _ _ _ fair goes => goes.testsFairly fair
  exact fair results rfl

section Undecodable

variable {index flight number : Nat} {modeOnly : Bool} {a : Attempt} {e : InboundEnvelope}
  {body : String} {err : DecodeError}

theorem undecodable_outcome (cl : Client) (classified : e.classify = .ok body)
    (failed : RuntimeConfig.codec.ofText body = .error err) :
    cl.configPlan.fetch.outcome (.answered e) =
      .error (undecodableBody Operation.configsPath err) := by
  have decoded : cl.configPlan.fetch.decode body =
      .error (undecodableBody Operation.configsPath err) := by
    have decode : cl.configPlan.fetch.decode body =
        decodeBody RuntimeConfig.codec Operation.configsPath body := rfl
    rw [decode, decodeBody, failed]
  rw [CallPlan.outcome, Ending.received, classified]
  exact decoded

theorem undecodable_retryable (path : String) (err : DecodeError) :
    Retryable (.error (undecodableBody path err) : Except CallError RuntimeConfig) :=
  ⟨_, rfl, by simp⟩

theorem undecodable_attempt {cl : Client} (number : Nat)
    (ended : a.ending? cl.now cl.correlator = some (.answered e))
    (classified : e.classify = .ok body) (failed : RuntimeConfig.codec.ofText body = .error err) :
    cl.configPlan.fetch.step (.attempting number a) cl.now cl.correlator =
      cl.configPlan.fetch.afterAttempt number cl.now
        (.error (undecodableBody Operation.configsPath err)) (a.close cl.correlator) := by
  simp only [CallPlan.step, CallPlan.outcome?_eq, ended, Option.map_some,
    undecodable_outcome cl classified failed]

/-- Where a configuration cannot be decoded and attempts are left, its reader pauses. -/
theorem undecodable_pauses {cl : Client}
    (found : cl.jobs[index]? = some (.readConfig modeOnly (.leading flight (.attempting number a))))
    (ended : a.ending? cl.now cl.correlator = some (.answered e))
    (classified : e.classify = .ok body) (failed : RuntimeConfig.codec.ofText body = .error err)
    (left : number < cl.settings.retry.attempts) :
    (cl.step (.advance index)).jobs[index]? = some (.readConfig modeOnly (.leading flight
      (.pausing number (cl.now + cl.settings.retry.backoff.toNat)))) := by
  have attempt := undecodable_attempt number ended classified failed
  rcases cl.configPlan.fetch.afterAttempt_cases number cl.now
      (.error (undecodableBody Operation.configsPath err)) (a.close cl.correlator) with
    ⟨_, _, next⟩ | ⟨useless | spent, _⟩
  · rw [next] at attempt
    simp only [step, stepJob, found, ReadPlan.step, attempt, Option.getD_some]
    exact Positions.getElem?_set_of_some _ found
  · exact absurd (undecodable_retryable _ err) useless
  · exact absurd left (Nat.not_lt.mpr spent)

theorem undecodable_ends {cl : Client}
    (found : cl.jobs[index]? = some (.readConfig modeOnly (.leading flight (.attempting number a))))
    (ended : a.ending? cl.now cl.correlator = some (.answered e))
    (classified : e.classify = .ok body) (failed : RuntimeConfig.codec.ofText body = .error err)
    (spent : cl.settings.retry.attempts ≤ number) :
    (cl.step (.advance index)).jobs[index]? = some (.over (configReply modeOnly cl.lastMode
      (.error (undecodableBody Operation.configsPath err)))) := by
  have attempt := undecodable_attempt number ended classified failed
  rcases cl.configPlan.fetch.afterAttempt_cases number cl.now
      (.error (undecodableBody Operation.configsPath err)) (a.close cl.correlator) with
    ⟨_, left, _⟩ | ⟨_, next⟩
  · exact absurd left (Nat.not_lt.mpr spent)
  · rw [next] at attempt
    simp only [step, stepJob, found, ReadPlan.step, attempt, Option.getD_some]
    exact Positions.getElem?_set_of_some _ found

end Undecodable

/-- Inputs are refused locally, completely, and nowhere else. -/
theorem validates (settings : Settings) (before : List ClientEvent) :
    Validates settings before where
  refused op outside := by
    rcases op.script_judges (run { settings } before).settings with ⟨accepts, _⟩ | ⟨_, reason, made⟩
    · exact absurd accepts outside
    · exact ⟨reason, by simp only [step, start, made]⟩
  accepted _ _ _ accepts plain settled := accepted_not_refused accepts plain settled
  tested _ _ _ _ _ _ settled := tested_fairly settled
  unknownMode index modeOnly flight number a e body name found ended classified gives unknown := by
    obtain ⟨err, failed⟩ := gives.undecodable unknown
    have same : (run { settings } before).settings = settings := (run_grows _ before).settings
    refine ⟨⟨.decode, "invalid response body for " ++ Operation.configsPath ++ ": " ++ err.quoted⟩,
      rfl, rfl, ?_, ?_⟩
    · intro left
      rw [run_concat]
      have paused := undecodable_pauses found ended classified failed (by rwa [same])
      rwa [same] at paused
    · intro spent
      rw [run_concat]
      exact undecodable_ends found ended classified failed (by rwa [same])
  bodies _ _ _ written member := givesMode_compactText written member

end Client

end ProxyConsole
