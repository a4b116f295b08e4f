import ProxyConsole.Proofs.Client.Freshness

/-!
# Reads answer what was decoded

Nothing but a decoded body is ever kept in a cache, so a read that succeeds answers with
one, whoever fetched it and whatever else happened to the client.
-/

set_option autoImplicit false

namespace ProxyConsole

theorem Cache.invalidate_empty {α : Type} (signature : String) :
    ({} : Cache α) = ({} : Cache α).invalidate signature := by
  simp [Cache.invalidate, Cache.setSlot]

theorem Codec.decode_of_ofText {α : Type} {c : Codec α} {text : String} {a : α}
    (read : c.ofText text = .ok a) : ∃ node, c.decode node = .ok a := by
  simp only [Codec.ofText, Json.decodeText, Json.decodeBytes] at read
  cases decoded : c.decode (Json.Document.scan (Utf8.encode text)).root with
  | error e =>
    rw [decoded] at read
    cases read
  | ok value =>
    rw [decoded] at read
    refine ⟨_, decoded.trans ?_⟩
    cases ending : (Json.Document.scan (Utf8.encode text)).trailing with
    | none =>
      rw [ending] at read
      exact read
    | some f =>
      rw [ending] at read
      cases read

namespace Client

/-- A value that was decoded from a body. -/
def Decoded (r : Resource) (value : r.Value) : Prop :=
  ∃ body, decodeBody r.codec r.path body = .ok value

theorem Decoded.decode {r : Resource} {value : r.Value} (decoded : Decoded r value) :
    ∃ node, r.codec.decode node = .ok value := by
  obtain ⟨body, read⟩ := decoded
  unfold decodeBody at read
  split at read
  · rename_i found
    cases read
    exact Codec.decode_of_ofText found
  · cases read

theorem FetchedSince.decoded {r : Resource} {start : Client} {events : List ClientEvent}
    {value : r.Value} (fetched : FetchedSince r start events value) : Decoded r value := by
  obtain ⟨_, _, body, _, _, _, decoded⟩ := fetched
  exact ⟨body, decoded⟩

theorem ahead_start (r : Resource) (settings : Settings) (events : List ClientEvent) :
    Ahead r { settings } events := by
  have empty : ({ settings } : Client).cacheOf r =
    (({ settings } : Client).cacheOf r).invalidate r.path := by
    cases r <;> exact Cache.invalidate_empty _
  exact ahead_run (sound_run r settings []) empty events

/-- A job that reads a resource, was given up, or is over and has answered with a decoded value. -/
def AnswersDecoded (r : Resource) (job : Job) : Prop :=
  (∃ phase, job = r.job false phase) ∨ job = .gone ∨ ∃ result, job = .over result ∧
    ∀ reply, result = .ok reply → ∃ value, reply = r.answer false value ∧ Decoded r value

theorem JobGoes.answersDecoded {settings : Settings} {events : List ClientEvent} {index : Nat}
    {job job' : Job} {cl : Client} {r : Resource} (answers : AnswersDecoded r job)
    (found : (run { settings } events).jobs[index]? = some job)
    (goes : (run { settings } events).JobGoes index job job' cl) : AnswersDecoded r job' := by
  rcases answers with ⟨phase, rfl⟩ | rfl | ⟨result, rfl, _⟩
  · rcases goes.turn.of_read with ⟨phase', _, _, _, rfl, _, _⟩ | ⟨result, c, cache, rfl, step, _⟩
    · exact .inl ⟨phase', rfl⟩
    · refine .inr (.inr ⟨_, rfl, fun reply success => ?_⟩)
      cases result with
      | ok value =>
        cases success
        have fetched := (ahead_start r settings events).answer (Nat.zero_le index)
          ⟨_, found, Job.reads?_job ..⟩ step
        exact ⟨value, rfl, fetched.decoded⟩
      | error e => exact absurd (replyOf_error_ok success).2 (by decide)
  · exact absurd rfl goes.turn.unsettled.1
  · exact absurd rfl (goes.turn.unsettled.2 result)

theorem read_decoded {settings : Settings} {before : List ClientEvent} {op : Operation}
    {r : Resource} (reads : op.reads? = some (r, false)) {events : List ClientEvent} {reply : Reply}
    (finished : (run { settings } (before ++ .start op :: events)).jobs[
      (run { settings } before).jobs.length]? = some (.over (.ok reply))) :
    ∃ value, reply = r.answer false value ∧ Decoded r value := by
  have split : ∀ later, run { settings } (before ++ .start op :: later) =
      ((run { settings } before).step (.start op)).run later := by
    intro later
    rw [run_append]
    rfl
  rw [split] at finished
  have opens : ((run { settings } before).step (.start op)).jobs =
      (run { settings } before).jobs ++ [r.job false .arriving] := by
    obtain ⟨script, accepted, job⟩ := script_of_reads reads (run { settings } before)
    rw [start_jobs, opened, accepted]
    exact congrArg (fun j => (run { settings } before).jobs ++ [j]) job
  have answers : AnswersDecoded r (.over (.ok reply)) := by
    refine job_run (P := AnswersDecoded r) ?_ ?_ (.inr (.inl rfl)) ?_ ?_ finished
    · rw [opens]
      simp
    · intro job stands
      rw [opens, List.getElem?_concat_length] at stands
      cases stands
      exact .inl ⟨_, rfl⟩
    · rintro job t result (⟨phase, rfl⟩ | rfl | ⟨result', rfl, source⟩)
      · exact .inl ⟨_, Job.mapAttempt_job ..⟩
      · exact .inr (.inl rfl)
      · exact .inr (.inr ⟨result', rfl, source⟩)
    · intro before' rest job job' _ found reading goes
      rw [← split] at found goes
      exact goes.answersDecoded reading found
  rcases answers with ⟨phase, same⟩ | same | ⟨result, same, source⟩
  · cases r <;> cases same
  · cases same
  · cases same
    exact source reply rfl

end Client

end ProxyConsole
