import ProxyConsole.Client.Basic
import ProxyConsole.Proofs.Client.Read

/-!
# The resources behind the caches

The running configuration and the proxies are read in the same way, each through a cache of its own.
What a client does for one of them is stated once, for any of the two.
-/

set_option autoImplicit false

namespace ProxyConsole

/-- What a client keeps in a cache. -/
inductive Resource where
  | config
  | proxies
  deriving DecidableEq

namespace Resource

/-- What a resource is read as. -/
def Value : Resource → Type
  | .config => RuntimeConfig
  | .proxies => ProxiesSnapshot

/-- Where a resource is found, which is also its signature. -/
def path : Resource → String
  | .config => Operation.configsPath
  | .proxies => Operation.proxiesPath

/-- How a resource is decoded. -/
def codec : (r : Resource) → Codec r.Value
  | .config => RuntimeConfig.codec
  | .proxies => ProxiesSnapshot.codec

/-- The job that reads a resource. -/
def job (r : Resource) (modeOnly : Bool) (phase : ReadPhase) : Job :=
  match r with
  | .config => .readConfig modeOnly phase
  | .proxies => .readProxies phase

/-- What a read answers with a value. -/
def answer (r : Resource) (modeOnly : Bool) (value : r.Value) : Reply :=
  match r, modeOnly, value with
  | .config, true, value => .mode (RuntimeConfig.mode value)
  | .config, false, value => .config value
  | .proxies, _, value => .proxies value

end Resource

/-- The resource that a job reads, and where the read stands. -/
def Job.reads? : Job → Option (Resource × ReadPhase)
  | .readConfig _ phase => some (.config, phase)
  | .readProxies phase => some (.proxies, phase)
  | _ => none

theorem Job.reads?_job (r : Resource) (modeOnly : Bool) (phase : ReadPhase) :
    (r.job modeOnly phase).reads? = some (r, phase) := by
  cases r <;> rfl

theorem Job.mapAttempt_job (r : Resource) (modeOnly : Bool) (phase : ReadPhase)
    (f : Attempt → Attempt) :
    (r.job modeOnly phase).mapAttempt f = r.job modeOnly (phase.mapAttempt f) := by
  cases r <;> rfl

theorem Job.reads?_eq_some {job : Job} {r : Resource} {phase : ReadPhase}
    (reads : job.reads? = some (r, phase)) : ∃ modeOnly, job = r.job modeOnly phase := by
  cases job with
  | readConfig modeOnly phase' =>
    cases reads
    exact ⟨modeOnly, rfl⟩
  | readProxies phase' =>
    cases reads
    exact ⟨false, rfl⟩
  | _ => cases reads

namespace Client

/-- The cache of a resource. -/
def cacheOf (cl : Client) : (r : Resource) → Cache r.Value
  | .config => cl.configs
  | .proxies => cl.proxies

/-- How a resource is read. -/
def planOf (cl : Client) : (r : Resource) → ReadPlan r.Value
  | .config => cl.configPlan
  | .proxies => cl.proxiesPlan

/-- The client with another cache for a resource. -/
def withCache (cl : Client) : (r : Resource) → Cache r.Value → Client
  | .config, cache => { cl with configs := cache }
  | .proxies, cache => { cl with proxies := cache }

/-- What a read answers with its own result: a failed read for the mode alone falls back on the last
mode known. -/
def replyOf (cl : Client) (r : Resource) (modeOnly : Bool) :
    Except CallError r.Value → Except CallError Reply
  | .ok value => .ok (r.answer modeOnly value)
  | .error e =>
    match r, modeOnly, cl.lastMode with
    | .config, true, some m => .ok (.mode m)
    | _, _, _ => .error e

/-- A read of a resource is over. -/
def finishRead (cl : Client) (index : Nat) (modeOnly : Bool) (c : Correlator) :
    (r : Resource) → Except CallError r.Value → Client
  | .config, result => cl.finishConfigRead index modeOnly result c
  | .proxies, result => cl.finishJob index (Except.map Reply.proxies result) c

/-- The job at an index reads a resource, and stands where told. -/
def Reads (cl : Client) (r : Resource) (index : Nat) (phase : ReadPhase) : Prop :=
  ∃ job, cl.jobs[index]? = some job ∧ job.reads? = some (r, phase)

theorem planOf_signature (cl : Client) (r : Resource) : (cl.planOf r).signature = r.path := by
  cases r <;> rfl

theorem planOf_request (cl : Client) (r : Resource) :
    (cl.planOf r).fetch.request = .get r.path := by
  cases r <;> rfl

theorem planOf_decode (cl : Client) (r : Resource) :
    (cl.planOf r).fetch.decode = decodeBody r.codec r.path := by
  cases r <;> rfl

theorem cacheOf_withCache_self (cl : Client) (r : Resource) (cache : Cache r.Value) :
    (cl.withCache r cache).cacheOf r = cache := by
  cases r <;> rfl

theorem cacheOf_withCache_other (cl : Client) {r r' : Resource} (other : r' ≠ r)
    (cache : Cache r.Value) : (cl.withCache r cache).cacheOf r' = cl.cacheOf r' := by
  cases r <;> cases r' <;> first | rfl | exact absurd rfl other

theorem withCache_jobs (cl : Client) (r : Resource) (cache : Cache r.Value) :
    (cl.withCache r cache).jobs = cl.jobs := by
  cases r <;> rfl

theorem withCache_sends (cl : Client) (r : Resource) (cache : Cache r.Value) :
    (cl.withCache r cache).sends = cl.sends := by
  cases r <;> rfl

theorem withCache_settings (cl : Client) (r : Resource) (cache : Cache r.Value) :
    (cl.withCache r cache).settings = cl.settings := by
  cases r <;> rfl

theorem finishRead_jobs (cl : Client) (index : Nat) (modeOnly : Bool) (c : Correlator)
    (r : Resource) (result : Except CallError r.Value) :
    (cl.finishRead index modeOnly c r result).jobs =
      cl.jobs.set index (.over (cl.replyOf r modeOnly result)) := by
  cases r with
  | proxies => cases result <;> rfl
  | config =>
    cases result with
    | ok value => cases modeOnly <;> rfl
    | error e => cases modeOnly <;> cases known : cl.lastMode <;>
        simp [finishRead, finishConfigRead, finishJob, moveJob, setJob, configReply, replyOf, known]

theorem finishRead_cacheOf (cl : Client) (index : Nat) (modeOnly : Bool) (c : Correlator)
    (r r' : Resource) (result : Except CallError r.Value) :
    (cl.finishRead index modeOnly c r result).cacheOf r' = cl.cacheOf r' := by
  cases r <;> cases r' <;> rfl

theorem finishRead_correlator (cl : Client) (index : Nat) (modeOnly : Bool) (c : Correlator)
    (r : Resource) (result : Except CallError r.Value) :
    (cl.finishRead index modeOnly c r result).correlator = c := by
  cases r <;> rfl

theorem finishRead_sends (cl : Client) (index : Nat) (modeOnly : Bool) (c : Correlator)
    (r : Resource) (result : Except CallError r.Value) :
    (cl.finishRead index modeOnly c r result).sends = cl.sends := by
  cases r <;> exact List.append_nil _

theorem finishRead_settings (cl : Client) (index : Nat) (modeOnly : Bool) (c : Correlator)
    (r : Resource) (result : Except CallError r.Value) :
    (cl.finishRead index modeOnly c r result).settings = cl.settings := by
  cases r <;> rfl

end Client

end ProxyConsole
