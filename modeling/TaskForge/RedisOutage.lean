import TaskForge.ReadBack
import TaskForge.RetryCounts

/-!
# Redis outages

A handling makes up to five calls to Redis: the GET of the terminal check, and a GET and
a SET for each of at most two status writes.  Each of them may fail.  A failed GET is
taken for a missing document, and a failed SET is only logged, so the handler goes on and
its message is deleted in the end.

The first part reads the calls off the traces of `handle_message`, the second lets a
pattern of failures answer them.  The theorem at the end says for which patterns the
outcome of the job survives.
-/

namespace TaskForge

open Json (Object)

/-! ### The calls of a handling -/

def Effect.isRedis : Effect → Bool
  | .redisGet _ | .redisSet .. => true
  | _ => false

/-- Exchanges that are no calls to Redis. -/
def Silent (events : List Exchange) : Prop := ∀ exchange ∈ events, exchange.1.isRedis = false

theorem Silent.append {first second : List Exchange} (hfirst : Silent first)
    (hsecond : Silent second) : Silent (first ++ second) :=
  List.forall_mem_append.mpr ⟨hfirst, hsecond⟩

theorem silent_singleton {e : Effect} {answer : Response e} (he : e.isRedis = false) :
    Silent [⟨e, answer⟩] :=
  List.forall_mem_singleton.mpr he

def Effect.isSend : Effect → Bool
  | .sqsSend .. => true
  | _ => false

/-- An attempt neither calls Redis nor sends a message. -/
theorem of_attempt {worker : Worker} {request : TaskRequest} {definition : TaskDefinition}
    {dir : TempDir} {events : List Exchange}
    (h : (attemptRequest worker request definition dir).Ends Effect.isException events) :
    ∀ exchange ∈ events, exchange.1.isRedis = false ∧ exchange.1.isSend = false := by
  intro exchange hmem
  have hattempt := (attemptRequest_confined _ _ _ _).ends h (fun _ _ => trivial) exchange hmem
  revert hattempt
  cases exchange.1 <;> simp [Effect.isAttempt, Effect.isRedis, Effect.isSend]

/-- A message of the job was sent. -/
def SendsFor (codec : JsonCodec) (job : JobId) (events : List Exchange) : Prop :=
  ∃ body group deduplicationId message,
    (⟨.sqsSend body group deduplicationId, .ok ()⟩ : Exchange) ∈ events ∧
    codec.parseObject body = some message ∧ message.get "job_id" = some (.string job.bytes)

theorem SendsFor.mono {codec : JsonCodec} {job : JobId} {events events' : List Exchange}
    (h : SendsFor codec job events) (hsub : events ⊆ events') : SendsFor codec job events' := by
  obtain ⟨body, group, id, message, hmem, hmessage⟩ := h
  exact ⟨body, group, id, message, hsub hmem, hmessage⟩

/-- The last status write of a handling: of a final status, unless a retry was sent. -/
structure LastWrite (codec : JsonCodec) (job : JobId) (before : List Exchange) (status : Bytes)
    (updates : Object) : Prop where
  proper : ProperUpdates updates
  formed : (Json.object updates).FormedAt (fun _ => True) Json.maxDepth
  outcome : isTerminal status = true ∨ SendsFor codec job before

theorem formedAt_uploadResults (uploads : List (DirectoryEntry × Bytes)) :
    (Json.array (uploads.map uploadResult)).FormedAt (fun _ => True) 2 := by
  refine (Json.formedAt_array_iff 1 _).mpr fun result hresult => ?_
  obtain ⟨upload, -, rfl⟩ := List.mem_map.mp hresult
  rw [uploadResult, Json.formedAt_object_iff]
  simp [Object.keys]

section Shape

variable {worker : Worker} {body : Bytes} {job : JobId} {message : Object}
  (haccepted : intake worker.codec body = .accepted job message)

include haccepted

/-- A recorded failure ends with one status write. -/
theorem retryOrGiveUp_trace {reason : Bytes} {tryCount : Int32} {events : List Exchange}
    (htrace : (retryOrGiveUp worker job.bytes message reason tryCount).Trace events ()) :
    ∃ before status updates seen now saved, Silent before ∧
      LastWrite worker.codec job before status updates ∧
      events = before ++ statusExchanges worker job.bytes status updates seen now saved := by
  have hlast : ∀ {republish reason before status}, isTerminal status = true ∨
      SendsFor worker.codec job before →
      LastWrite worker.codec job before status (retryUpdates republish reason tryCount) :=
    fun houtcome => ⟨retryUpdates_proper _ _ _,
      formedAt_retryUpdates anyText (Json.strings_any _) trivial, houtcome⟩
  -- both ways to `failed`: the entry is removed, then the status is written
  have hfailed : ∀ {republish reason} {rest : List Exchange}, (do
      removeEntry worker.configurations.dlqPath job.bytes
      setJobStatus worker job.bytes "failed" (retryUpdates republish reason tryCount) :
        Handler Unit).Trace rest () →
      ∃ removed seen now saved, Silent removed ∧ rest = removed ++ statusExchanges worker
        job.bytes "failed" (retryUpdates republish reason tryCount) seen now saved := by
    intro republish reason rest h
    obtain ⟨_, _, rfl, hstatus⟩ := Prog.trace_perform_bind.mp h
    obtain ⟨seen, now, saved, rfl⟩ := setJobStatus_trace.mp hstatus
    exact ⟨[_], seen, now, saved, silent_singleton rfl, rfl⟩
  unfold retryOrGiveUp Code.retryOrGiveUp at htrace
  change (ite _ _ _ : Handler Unit).Trace _ _ at htrace
  split at htrace
  · obtain ⟨error | ⟨⟩, rest, rfl, hrest⟩ := Prog.trace_perform_bind.mp htrace
    · obtain ⟨removed, seen, now, saved, hsilent, rfl⟩ := hfailed hrest
      refine ⟨_ :: removed, _, _, seen, now, saved, ?_, hlast (Or.inl (by decide)), rfl⟩
      exact List.forall_mem_cons.mpr ⟨rfl, hsilent⟩
    · obtain ⟨seen, now, saved, rfl⟩ := setJobStatus_trace.mp hrest
      refine ⟨[_], _, _, seen, now, saved, silent_singleton rfl, hlast (Or.inr ?_), rfl⟩
      obtain ⟨hparse, -, hjob⟩ := intake_accepted.mp (intake_retryBody haccepted tryCount)
      exact ⟨_, _, _, _, .head _, hparse, hjob⟩
  · obtain ⟨removed, seen, now, saved, hsilent, rfl⟩ := hfailed htrace
    exact ⟨removed, _, _, seen, now, saved, hsilent, hlast (Or.inl (by decide)), rfl⟩

/-- So does every failure. -/
theorem handleProcessingFailure_lastWrite {reason : Bytes} {events : List Exchange}
    (htrace : (handleProcessingFailure worker job.bytes body reason).Trace events ()) :
    ∃ before status updates seen now saved, Silent before ∧
      LastWrite worker.codec job before status updates ∧
      events = before ++ statusExchanges worker job.bytes status updates seen now saved := by
  obtain ⟨existing, _ | _, rest, rfl, hretry, hfailed⟩ :=
    (handleProcessingFailure_trace haccepted).mp htrace
  · obtain ⟨seen, now, saved, rfl⟩ := setJobStatus_trace.mp (hfailed rfl)
    refine ⟨[_, _], _, _, seen, now, saved, ?_, ⟨failureUpdates_proper _ _,
      formedAt_failureUpdates anyText (Json.strings_any _) trivial, Or.inl (by decide)⟩, rfl⟩
    exact (silent_singleton rfl).append (silent_singleton rfl)
  · obtain ⟨before, status, updates, seen, now, saved, hsilent, hlast, rfl⟩ :=
      retryOrGiveUp_trace haccepted (hretry rfl)
    refine ⟨[_, _] ++ before, status, updates, seen, now, saved, ?_, ⟨hlast.proper, hlast.formed,
      hlast.outcome.imp_right fun hsent => ?_⟩, rfl⟩
    · exact ((silent_singleton rfl).append (silent_singleton rfl)).append hsilent
    · exact hsent.mono (List.subset_append_right _ _)

variable {request : TaskRequest}

/-- **The calls of a handling**, by what the terminal check finds. -/
inductive HandlingTrace (worker : Worker) (job : JobId) (message : Object) (request : TaskRequest) :
    Option Bytes → List Exchange → Prop
  | skipped {text} : (documentStatus worker.codec text).any isTerminal = true →
      HandlingTrace worker job message request text []
  | unregistered {text} (updates seen now saved after) :
      (documentStatus worker.codec text).any isTerminal = false →
      findTask worker.configurations.taskWhitelist (Bytes.cStr request.taskName) = none →
      Silent after → LastWrite worker.codec job [] "failed" updates →
      HandlingTrace worker job message request text
        (statusExchanges worker job.bytes "failed" updates seen now saved ++ after)
  | attempted {text} (definition seen now saved work status updates seen' now' saved' after) :
      (documentStatus worker.codec text).any isTerminal = false →
      findTask worker.configurations.taskWhitelist (Bytes.cStr request.taskName) =
        some definition →
      Silent work → Silent after → LastWrite worker.codec job work status updates →
      HandlingTrace worker job message request text
        (statusExchanges worker job.bytes "running" (contractFields message) seen now saved ++
          (work ++ (statusExchanges worker job.bytes status updates seen' now' saved' ++ after)))

/-- The trace of an attempt: its exchanges lie between two status writes. -/
theorem attempted_calls {definition : TaskDefinition} {text : Option Bytes}
    {rest failure : List Exchange} {result : Except Bytes Unit}
    (hterminal : (documentStatus worker.codec text).any isTerminal = false)
    (hfind : findTask worker.configurations.taskWhitelist (Bytes.cStr request.taskName) =
      some definition)
    (hprocess : (processRequest worker job message request).Trace
      (⟨.redisGet job.bytes, text⟩ :: rest) result)
    (hfailure : match (motive := Except Bytes Unit → Prop) result with
      | .ok () => failure = []
      | .error reason =>
        (handleProcessingFailure worker job.bytes body reason).Trace failure ()) :
    HandlingTrace worker job message request text (rest ++ failure) := by
  obtain ⟨seen, now, saved, _, rfl, hattempt⟩ := (processRequest_trace hfind hterminal).mp hprocess
  obtain ⟨work, outcome, closing, rfl, hwork, hclosing⟩ := attemptAndClose_trace.mp hattempt
  have hsilent : Silent work := fun exchange hmem => (of_attempt hwork.ends exchange hmem).1
  let dir := tempDirOf worker.tempDirectory job.bytes
  let made : List Exchange :=
    [⟨.createDirectories dir.inputs, ()⟩, ⟨.createDirectories dir.outputs, ()⟩]
  let removed : List Exchange := [⟨.removeAll dir.root, ()⟩]
  have hmade : Silent made := (silent_singleton rfl).append (silent_singleton rfl)
  have hremoved : Silent removed := silent_singleton rfl
  rcases outcome with reason | outcome
  · obtain ⟨rfl, rfl⟩ := Prog.trace_pure.mp hclosing
    obtain ⟨before, status, updates, seen', now', saved', hbefore, hlast, rfl⟩ :=
      handleProcessingFailure_lastWrite haccepted hfailure
    have hlast' : LastWrite worker.codec job (made ++ (work ++ (removed ++ before))) status
        updates := by
      refine ⟨hlast.proper, hlast.formed, hlast.outcome.imp_right fun hsent => hsent.mono ?_⟩
      exact fun _ hmem => List.mem_append_right _ (List.mem_append_right _
        (List.mem_append_right _ hmem))
    refine (congrArg (HandlingTrace worker job message request text) ?_).mpr
      (.attempted definition seen now saved _ status updates seen' now' saved' [] hterminal hfind
        (hmade.append (hsilent.append (hremoved.append hbefore))) (List.forall_mem_nil _) hlast')
    simp only [openingExchanges, List.append_assoc, List.nil_append, List.append_nil]
    rfl
  · obtain ⟨rfl, seen', now', saved', rfl⟩ := closeRequest_trace_ok.mp hclosing
    obtain rfl : failure = [] := hfailure
    obtain ⟨run, -, -, rfl⟩ := attemptRequest_trace_ok.mp hwork
    have hafter : Silent (⟨.dlqRemove (entryPath worker.configurations.dlqPath job.bytes), ()⟩ ::
        removed) := List.forall_mem_cons.mpr ⟨rfl, hremoved⟩
    have hlast : LastWrite worker.codec job (made ++ work) "done"
        (doneUpdates message run.outcome.1 run.outcome.2) :=
      ⟨doneUpdates_proper _ _ _, formedAt_doneUpdates anyText (Json.strings_any _) trivial
        ((formedAt_uploadResults _).mono (by decide)), Or.inl (by decide)⟩
    refine (congrArg (HandlingTrace worker job message request text) ?_).mpr
      (.attempted definition seen now saved _ _ _ seen' now' saved' _ hterminal hfind
        (hmade.append hsilent) hafter hlast)
    simp only [openingExchanges, closingExchanges, List.append_assoc, List.append_nil]
    rfl

/-- Every trace of an accepted message is of this kind. -/
theorem handleMessage_calls (hasks : Asks message job request) {events : List Exchange}
    (htrace : (handleMessage worker body).Trace events ()) :
    ∃ text rest, events = ⟨.redisGet job.bytes, text⟩ :: rest ∧
      HandlingTrace worker job message request text rest := by
  rw [handleMessage_accepted haccepted, hasks.processJob_eq] at htrace
  obtain ⟨_, result, failure, rfl, hprocess, hfailure⟩ := Prog.trace_bind.mp htrace
  obtain ⟨text, rest, rfl⟩ := processRequest_trace_guard hprocess
  refine ⟨text, rest ++ failure, rfl, ?_⟩
  cases hterminal : (documentStatus worker.codec text).any isTerminal with
  | true =>
    obtain ⟨rfl, rfl⟩ := (processRequest_trace_finished hterminal).mp hprocess
    obtain ⟨rfl, -⟩ := Prog.trace_pure.mp hfailure
    exact .skipped hterminal
  | false =>
    cases hfind : findTask worker.configurations.taskWhitelist (Bytes.cStr request.taskName) with
    | none =>
      obtain ⟨rfl, seen, now, saved, rfl⟩ :=
        (processRequest_trace_unregistered hfind hterminal).mp hprocess
      obtain ⟨rfl, -⟩ := Prog.trace_pure.mp hfailure
      rw [List.append_nil]
      exact .unregistered _ seen now saved _ hterminal hfind (silent_singleton rfl)
        ⟨failureUpdates_proper _ _, formedAt_failureUpdates anyText (Json.strings_any _) trivial,
          Or.inl (by decide)⟩
    | some definition =>
      refine attempted_calls haccepted hterminal hfind hprocess ?_
      rcases result with reason | ⟨⟩
      · exact hfailure
      · exact (Prog.trace_pure.mp hfailure).1

end Shape

/-! ### Answers under an outage -/

/-- The text stored under each key. -/
abbrev Redis := Bytes → Option Bytes

/-- What is stored after a SET that fails or not. -/
def Redis.set (redis : Redis) (failed : Bool) (key text : Bytes) : Redis :=
  if failed then redis else Function.update redis key (some text)

/-- What a GET finds that fails or not. -/
def Redis.get (redis : Redis) (failed : Bool) (key : Bytes) : Option Bytes :=
  if failed then none else redis key

@[simp] theorem Redis.set_failed (redis : Redis) (key text : Bytes) :
    redis.set true key text = redis := rfl

@[simp] theorem Redis.set_self (redis : Redis) (key text : Bytes) :
    redis.set false key text key = some text :=
  Function.update_self ..

@[simp] theorem Redis.get_ok (redis : Redis) (key : Bytes) : redis.get false key = redis key := rfl

/-- The exchanges are answered by Redis when the calls with these numbers fail, counted
    from `n`; afterwards `redis'` is stored. -/
def Serves (codec : JsonCodec) (fails : Nat → Bool) :
    (n : Nat) → Redis → List Exchange → (redis' : Redis) → Prop
  | _, redis, [], redis' => redis' = redis
  | n, redis, ⟨.redisGet key, answer⟩ :: rest, redis' =>
    answer = redis.get (fails n) key ∧ Serves codec fails (n + 1) redis rest redis'
  | n, redis, ⟨.redisSet key document _, saved⟩ :: rest, redis' =>
    saved = !fails n ∧ Serves codec fails (n + 1)
      (redis.set (fails n) key (codec.serialize (.object document))) rest redis'
  | n, redis, _ :: rest, redis' => Serves codec fails n redis rest redis'

section Serves

variable {codec : JsonCodec} {fails : Nat → Bool} {n : Nat} {redis redis' : Redis}

theorem serves_silent {silent : List Exchange} (hsilent : Silent silent) (rest : List Exchange) :
    Serves codec fails n redis (silent ++ rest) redis' ↔ Serves codec fails n redis rest redis' := by
  induction silent with
  | nil => exact Iff.rfl
  | cons exchange silent ih =>
    obtain ⟨hhead, hrest⟩ := List.forall_mem_cons.mp hsilent
    rw [← ih hrest]
    obtain ⟨e, answer⟩ := exchange
    cases e with
    | redisGet | redisSet => cases hhead
    | _ => exact Iff.rfl

theorem serves_silent_only {silent : List Exchange} (hsilent : Silent silent) :
    Serves codec fails n redis silent redis' ↔ redis' = redis := by
  rw [← List.append_nil silent, serves_silent hsilent]
  exact Iff.rfl

/-- A status write is two calls. -/
theorem serves_status {worker : Worker} {jobId status : Bytes} {updates : Object}
    {seen : Option Bytes} {now : UtcTime} {saved : Bool} {rest : List Exchange} :
    Serves worker.codec fails n redis
        (statusExchanges worker jobId status updates seen now saved ++ rest) redis' ↔
      seen = redis.get (fails n) jobId ∧ saved = !fails (n + 1) ∧
      Serves worker.codec fails (n + 2) (redis.set (fails (n + 1)) jobId
        (worker.codec.serialize (.object (mergeStatus worker.codec seen jobId status updates
          now)))) rest redis' :=
  Iff.rfl

end Serves

/-! ### Finished documents -/

/-- The text of a document with a final status: it parses to the document, or it was
    written from it. -/
def HoldsFinished (codec : JsonCodec) (text : Option Bytes) : Prop :=
  ∃ t status, ∃ document : Object, text = some t ∧
    (Json.object document).FormedAt (fun _ => True) Json.maxDepth ∧
    (codec.parse t = some (.object document) ∨ t = codec.serialize (.object document)) ∧
    document.get "status" = some (.string status) ∧ isTerminal status = true

section Finished

variable {codec : JsonCodec}

theorem holdsFinished_of_terminal {text : Option Bytes}
    (h : (documentStatus codec text).any isTerminal = true) : HoldsFinished codec text := by
  cases hstatus : documentStatus codec text with
  | none =>
    rw [hstatus] at h
    cases h
  | some status =>
    rw [hstatus] at h
    obtain ⟨t, document, rfl, hparse, hget⟩ := exists_of_documentStatus hstatus
    exact ⟨t, status, document, rfl, (codec.readable_of_parse _ _ hparse).any, Or.inl hparse,
      hget, h⟩

/-- A readable document without a final status is no text of a finished one. -/
theorem not_holdsFinished {t : Bytes} {document : Object} {status : Bytes}
    (hparse : codec.parse t = some (.object document))
    (hstatus : document.get "status" = some (.string status))
    (hopen : isTerminal status = false) : ¬ HoldsFinished codec (some t) := by
  rintro ⟨_, status', document', ⟨rfl⟩, hformed, htext, hstatus', hterminal⟩
  obtain rfl : document' = document := by
    rcases htext with hparse' | rfl
    · cases hparse.symm.trans hparse'
      rfl
    · rcases parse_serialize_formed codec hformed with hparse' | hnone
      · cases hparse.symm.trans hparse'
        rfl
      · cases hparse.symm.trans hnone
  cases hstatus.symm.trans hstatus'
  exact absurd hterminal (by rw [hopen]; decide)

/-- A final status that was just written. -/
theorem holdsFinished_write {worker : Worker} {job : JobId} {before : List Exchange}
    {status : Bytes} {updates : Object} (hlast : LastWrite worker.codec job before status updates)
    (hterminal : isTerminal status = true) (seen : Option Bytes) (now : UtcTime) :
    HoldsFinished worker.codec (some (worker.codec.serialize
      (.object (mergeStatus worker.codec seen job.bytes status updates now)))) :=
  ⟨_, status, _, rfl, formedAt_mergeStatus anyText (baseDocument_readable _ seen).any hlast.formed
    trivial trivial, Or.inr rfl, get_mergeStatus_status hlast.proper.nodup hlast.proper.status,
    hterminal⟩

end Finished

/-! ### When the outcome survives -/

/-- Nothing is destroyed: a finished document stays as it is.  Nothing is lost: afterwards
    the job is finished, or a message of it was sent. -/
structure OutcomeKept (codec : JsonCodec) (job : JobId) (redis : Redis) (events : List Exchange)
    (redis' : Redis) : Prop where
  kept : HoldsFinished codec (redis job.bytes) → redis' job.bytes = redis job.bytes
  settled : HoldsFinished codec (redis' job.bytes) ∨ SendsFor codec job events

/-- The numbers of the SETs of a handling that passes the terminal check. -/
def setCalls (worker : Worker) (request : TaskRequest) : List Nat :=
  if (findTask worker.configurations.taskWhitelist (Bytes.cStr request.taskName)).isSome then [2, 4]
  else [2]

/-- The pattern spares the outcome.  A finished job is seen by the terminal check, or all
    SETs fail; for an unfinished one, the last SET succeeds. -/
structure Spared (worker : Worker) (job : JobId) (request : TaskRequest) (redis : Redis)
    (fails : Nat → Bool) : Prop where
  finished : HoldsFinished worker.codec (redis job.bytes) →
    (fails 0 = false ∧ (documentStatus worker.codec (redis job.bytes)).any isTerminal = true) ∨
      ∀ n ∈ setCalls worker request, fails n = true
  unfinished : ¬ HoldsFinished worker.codec (redis job.bytes) →
    ∀ n, (setCalls worker request).getLast? = some n → fails n = false

section Outage

variable {worker : Worker} {body : Bytes} {job : JobId} {message : Object} {request : TaskRequest}
  {redis redis' : Redis} {fails : Nat → Bool} {events : List Exchange}

/-- A terminal check that finds a finished job has read its document. -/
theorem check_terminal {failed : Bool}
    (h : (documentStatus worker.codec (redis.get failed job.bytes)).any isTerminal = true) :
    failed = false ∧ (documentStatus worker.codec (redis job.bytes)).any isTerminal = true := by
  cases failed with
  | true => cases h
  | false => exact ⟨rfl, h⟩

theorem setCalls_none
    (hfind : findTask worker.configurations.taskWhitelist (Bytes.cStr request.taskName) = none) :
    setCalls worker request = [2] := by
  rw [setCalls, hfind]
  rfl

theorem setCalls_some {definition : TaskDefinition}
    (hfind : findTask worker.configurations.taskWhitelist (Bytes.cStr request.taskName) =
      some definition) : setCalls worker request = [2, 4] := by
  rw [setCalls, hfind]
  rfl

/-- The terminal check was passed, so the first way of `Spared.finished` is out. -/
theorem Spared.all_fail (h : Spared worker job request redis fails)
    (hopen : (documentStatus worker.codec (redis.get (fails 0) job.bytes)).any isTerminal = false)
    (hfinished : HoldsFinished worker.codec (redis job.bytes)) :
    ∀ n ∈ setCalls worker request, fails n = true := by
  refine (h.finished hfinished).resolve_left ?_
  rintro ⟨hok, hterminal⟩
  rw [hok, Redis.get_ok, hterminal] at hopen
  cases hopen

theorem Spared.outcomeKept (h : Spared worker job request redis fails)
    (haccepted : intake worker.codec body = .accepted job message)
    (hasks : Asks message job request) (htrace : (handleMessage worker body).Trace events ())
    (hserves : Serves worker.codec fails 0 redis events redis') :
    OutcomeKept worker.codec job redis events redis' := by
  obtain ⟨text, rest, rfl, hcalls⟩ := handleMessage_calls haccepted hasks htrace
  obtain ⟨htext, hserves⟩ := hserves
  cases hcalls with
  | skipped hterminal =>
    obtain rfl : redis' = redis := hserves
    subst htext
    exact ⟨fun _ => rfl, Or.inl (holdsFinished_of_terminal (check_terminal hterminal).2)⟩
  | unregistered updates seen now saved after hopen hfind hafter hlast =>
    subst htext
    obtain ⟨-, -, hserves⟩ := serves_status.mp hserves
    obtain rfl := (serves_silent_only hafter).mp hserves
    by_cases hfinished : HoldsFinished worker.codec (redis job.bytes)
    · have hfails := h.all_fail hopen hfinished
      rw [setCalls_none hfind, List.forall_mem_singleton] at hfails
      rw [hfails, Redis.set_failed]
      exact ⟨fun _ => rfl, Or.inl hfinished⟩
    · have hok := h.unfinished hfinished 2 (by rw [setCalls_none hfind]; rfl)
      rw [hok]
      refine ⟨fun hfinished' => absurd hfinished' hfinished, Or.inl ?_⟩
      rw [Redis.set_self]
      exact holdsFinished_write hlast (by decide) seen now
  | attempted definition seen now saved work status updates seen' now' saved' after hopen hfind
      hwork hafter hlast =>
    subst htext
    obtain ⟨-, -, hserves⟩ := serves_status.mp hserves
    obtain ⟨-, -, hserves⟩ := serves_status.mp ((serves_silent hwork _).mp hserves)
    obtain rfl := (serves_silent_only hafter).mp hserves
    by_cases hfinished : HoldsFinished worker.codec (redis job.bytes)
    · have hfails := h.all_fail hopen hfinished
      rw [setCalls_some hfind, List.forall_mem_cons, List.forall_mem_singleton] at hfails
      rw [hfails.1, hfails.2, Redis.set_failed, Redis.set_failed]
      exact ⟨fun _ => rfl, Or.inl hfinished⟩
    · have hok := h.unfinished hfinished 4 (by rw [setCalls_some hfind]; rfl)
      rw [hok]
      refine ⟨fun hfinished' => absurd hfinished' hfinished, ?_⟩
      rw [Redis.set_self]
      rcases hlast.outcome with hterminal | hsent
      · exact Or.inl (holdsFinished_write hlast hterminal seen' now')
      · refine Or.inr (hsent.mono fun _ hmem => ?_)
        exact .tail _ (List.mem_append_right _ (List.mem_append_left _ hmem))

/-- A handling that throws has tried to store `running`, and no more. -/
theorem Spared.kept_of_throws (h : Spared worker job request redis fails)
    (haccepted : intake worker.codec body = .accepted job message)
    (hasks : Asks message job request)
    (hthrows : (handleMessage worker body).Throws Effect.isException events)
    (hserves : Serves worker.codec fails 0 redis events redis')
    (hfinished : HoldsFinished worker.codec (redis job.bytes)) :
    redis' job.bytes = redis job.bytes := by
  have hprocess := (handleMessage_throws haccepted hasks).mp hthrows
  obtain ⟨text, rest, definition, rfl, hopen, hfind⟩ := processRequest_throws_guard hprocess
  obtain ⟨seen, now, saved, run, hcovers, hlisting, rfl⟩ :=
    (processRequest_throws hfind hopen).mp hprocess
  obtain ⟨rfl, hserves⟩ := hserves
  have hattempt : (attemptRequest worker request definition
      (tempDirOf worker.tempDirectory job.bytes)).Throws Effect.isException _ :=
    attemptRequest_throws.mpr ⟨run, hcovers, hlisting, rfl⟩
  have hsilent : Silent (run.exchanges worker request definition
      (tempDirOf worker.tempDirectory job.bytes)) :=
    fun exchange hmem => (of_attempt (.inr hattempt) exchange hmem).1
  rw [openingExchanges, List.append_assoc] at hserves
  obtain ⟨-, -, hserves⟩ := serves_status.mp hserves
  obtain rfl := (serves_silent_only (List.forall_mem_cons.mpr ⟨rfl,
    List.forall_mem_cons.mpr ⟨rfl, hsilent⟩⟩)).mp hserves
  have hfails := h.all_fail hopen hfinished
  rw [setCalls_some hfind, List.forall_mem_cons] at hfails
  rw [hfails.1, Redis.set_failed]

/-! ### A handling without trouble elsewhere -/

/-- What Redis holds after a status write at this time, with these two calls failing. -/
def Redis.write (redis : Redis) (worker : Worker) (job : JobId) (getFails setFails : Bool)
    (status : String) (updates : Object) (now : UtcTime) : Redis :=
  redis.set setFails job.bytes (worker.codec.serialize (.object
    (mergeStatus worker.codec (redis.get getFails job.bytes) job.bytes status updates now)))

/-- A write that succeeds leaves a readable document with its status and time. -/
theorem Redis.write_ok (redis : Redis) (worker : Worker) (job : JobId) (getFails : Bool)
    (status : String) {updates : Object} (now : UtcTime) (hproper : ProperUpdates updates)
    (hupdates : (Json.object updates).Readable) :
    ∃ t, ∃ document : Object, redis.write worker job getFails false status updates now job.bytes =
        some t ∧ worker.codec.parse t = some (.object document) ∧
      document.get "status" = some (.string status) ∧
      document.get "updated_at" = some (.string (formatTimestamp now)) := by
  have hparse := parse_serialize_mergeStatus worker.codec (redis.get getFails job.bytes) job status
    now hupdates
  exact ⟨_, _, Redis.set_self .., hparse, get_mergeStatus_status hproper.nodup hproper.status,
    Object.get_set_self ..⟩

/-- The updates of a task that exits with 0, without output. -/
def quietUpdates (message : Object) : Object := doneUpdates message ⟨0, []⟩ []

/-- What Redis holds after a handling in which nothing else fails, at this time. -/
def Redis.handled (redis : Redis) (worker : Worker) (job : JobId) (message : Object)
    (request : TaskRequest) (fails : Nat → Bool) (now : UtcTime) : Redis :=
  if (findTask worker.configurations.taskWhitelist (Bytes.cStr request.taskName)).isSome then
    (redis.write worker job (fails 1) (fails 2) "running" (contractFields message) now).write worker
      job (fails 3) (fails 4) "done" (quietUpdates message) now
  else
    redis.write worker job (fails 1) (fails 2) "failed"
      (failureUpdates message (unregisteredReason request)) now

theorem not_sendsFor {codec : JsonCodec} (h : ∀ exchange ∈ events, exchange.1.isSend = false) :
    ¬ SendsFor codec job events := by
  rintro ⟨_, _, _, _, hmem, -⟩
  cases h _ hmem

section Quiet

variable (worker message redis fails)
  (hopen : (documentStatus worker.codec (redis.get (fails 0) job.bytes)).any isTerminal = false)
  (now : UtcTime)

include hopen

theorem exists_unregistered
    (hfind : findTask worker.configurations.taskWhitelist (Bytes.cStr request.taskName) = none) :
    ∃ events, (processRequest worker job message request).Trace events (.ok ()) ∧
      Serves worker.codec fails 0 redis events
        (redis.handled worker job message request fails now) ∧
      ¬ SendsFor worker.codec job events := by
  refine ⟨_, (processRequest_trace_unregistered hfind hopen).mpr
    ⟨rfl, redis.get (fails 1) job.bytes, now, !fails 2, rfl⟩, ?_, not_sendsFor ?_⟩
  · refine ⟨rfl, serves_status.mpr ⟨rfl, rfl, (serves_silent_only (silent_singleton rfl)).mpr ?_⟩⟩
    rw [Redis.handled, hfind]
    rfl
  · simp [statusExchanges, Effect.isSend]

theorem exists_completed {definition : TaskDefinition}
    (hfind : findTask worker.configurations.taskWhitelist (Bytes.cStr request.taskName) =
      some definition) :
    ∃ events, (processRequest worker job message request).Trace events (.ok ()) ∧
      Serves worker.codec fails 0 redis events
        (redis.handled worker job message request fails now) ∧
      ¬ SendsFor worker.codec job events := by
  let run := TaskOutput.run ⟨[], []⟩ request
  let dir := tempDirOf worker.tempDirectory job.bytes
  have hrun : run.Of request := TaskOutput.run_of ⟨[], []⟩ request
  let running := redis.write worker job (fails 1) (fails 2) "running" (contractFields message) now
  have hattempt : (attemptRequest worker request definition dir).Trace
      (run.exchanges worker request definition dir) (.ok run.outcome) :=
    attemptRequest_trace_ok.mpr ⟨run, hrun, rfl, rfl⟩
  refine ⟨⟨.redisGet job.bytes, redis.get (fails 0) job.bytes⟩ ::
    (openingExchanges worker job message (redis.get (fails 1) job.bytes) now (!fails 2) ++
      (run.exchanges worker request definition dir ++
        (closingExchanges worker job message run.outcome (running.get (fails 3) job.bytes) now
          (!fails 4) ++ [⟨.removeAll dir.root, ()⟩]))), ?_, ?_, not_sendsFor ?_⟩
  · refine (processRequest_trace hfind hopen).mpr ⟨_, _, _, _, rfl, ?_⟩
    refine attemptAndClose_trace.mpr ⟨_, .ok run.outcome, _, rfl, hattempt, ?_⟩
    exact closeRequest_trace_ok.mpr ⟨rfl, _, _, _, rfl⟩
  · have hmade : Silent [⟨.createDirectories dir.inputs, ()⟩, ⟨.createDirectories dir.outputs, ()⟩] :=
      (silent_singleton rfl).append (silent_singleton rfl)
    have hwork : Silent (run.exchanges worker request definition dir) :=
      fun exchange hmem => (of_attempt hattempt.ends exchange hmem).1
    have hafter : Silent [⟨.dlqRemove (entryPath worker.configurations.dlqPath job.bytes), ()⟩,
        ⟨.removeAll dir.root, ()⟩] := (silent_singleton rfl).append (silent_singleton rfl)
    rw [openingExchanges, closingExchanges, List.append_assoc, List.append_assoc]
    refine ⟨rfl, serves_status.mpr ⟨rfl, rfl, (serves_silent hmade _).mpr ?_⟩⟩
    refine (serves_silent hwork _).mpr (serves_status.mpr ⟨rfl, rfl, ?_⟩)
    refine (serves_silent_only hafter).mpr ?_
    rw [Redis.handled, hfind]
    rfl
  · have hwork : ∀ exchange ∈ run.exchanges worker request definition dir,
        exchange.1.isSend = false := fun exchange hmem => (of_attempt hattempt.ends exchange hmem).2
    simp only [openingExchanges, closingExchanges, statusExchanges, List.forall_mem_append,
      List.forall_mem_cons, Effect.isSend, List.not_mem_nil, false_implies, implies_true,
      and_true, true_and]
    exact hwork

end Quiet

variable (worker redis fails) in
/-- Such a handling exists, as soon as the terminal check is passed. -/
theorem exists_handled (haccepted : intake worker.codec body = .accepted job message)
    (hasks : Asks message job request)
    (hopen : (documentStatus worker.codec (redis.get (fails 0) job.bytes)).any isTerminal = false)
    (now : UtcTime) :
    ∃ events, (handleMessage worker body).Trace events () ∧
      Serves worker.codec fails 0 redis events
        (redis.handled worker job message request fails now) ∧
      ¬ SendsFor worker.codec job events := by
  have hprocessed : ∃ events, (processRequest worker job message request).Trace events (.ok ()) ∧
      Serves worker.codec fails 0 redis events
        (redis.handled worker job message request fails now) ∧
      ¬ SendsFor worker.codec job events := by
    cases hfind : findTask worker.configurations.taskWhitelist (Bytes.cStr request.taskName) with
    | none => exact exists_unregistered worker message redis fails hopen now hfind
    | some definition => exact exists_completed worker message redis fails hopen now hfind
  obtain ⟨events, htrace, hserves, hunsent⟩ := hprocessed
  exact ⟨events, handleMessage_trace_of_processRequest haccepted hasks htrace, hserves, hunsent⟩

@[simp] theorem Redis.write_failed (redis : Redis) (worker : Worker) (job : JobId)
    (getFails : Bool) (status : String) (updates : Object) (now : UtcTime) :
    redis.write worker job getFails true status updates now = redis := rfl

theorem Redis.handled_none (redis : Redis) (message : Object) (now : UtcTime)
    (hfind : findTask worker.configurations.taskWhitelist (Bytes.cStr request.taskName) = none) :
    redis.handled worker job message request fails now =
      redis.write worker job (fails 1) (fails 2) "failed"
        (failureUpdates message (unregisteredReason request)) now := by
  rw [Redis.handled, hfind]
  rfl

theorem Redis.handled_some (redis : Redis) (message : Object) (now : UtcTime)
    {definition : TaskDefinition}
    (hfind : findTask worker.configurations.taskWhitelist (Bytes.cStr request.taskName) =
      some definition) :
    redis.handled worker job message request fails now =
      (redis.write worker job (fails 1) (fails 2) "running" (contractFields message) now).write
        worker job (fails 3) (fails 4) "done" (quietUpdates message) now := by
  rw [Redis.handled, hfind]
  rfl

variable (worker redis fails) in
/-- If any SET succeeds, what is stored afterwards tells the time of the handling. -/
theorem handled_written (hmessage : (Json.object message).utf8 = true)
    (hasks : Asks message job request) (now : UtcTime)
    (hok : ∃ n ∈ setCalls worker request, fails n = false) :
    ∃ t, ∃ document : Object,
      redis.handled worker job message request fails now job.bytes = some t ∧
      worker.codec.parse t = some (.object document) ∧
      document.get "updated_at" = some (.string (formatTimestamp now)) := by
  obtain ⟨n, hn, hok⟩ := hok
  cases hfind : findTask worker.configurations.taskWhitelist (Bytes.cStr request.taskName) with
  | none =>
    rw [setCalls_none hfind] at hn
    rw [List.mem_singleton.mp hn] at hok
    have hupdates := formedAt_failureUpdates (n := 31) utf8Text hmessage
      (utf8_unregistered (utf8Text.cStr (hasks.utf8_taskName hmessage)))
    obtain ⟨t, document, hstored, hparse, -, htime⟩ := redis.write_ok worker job (fails 1) "failed"
      now (failureUpdates_proper _ _) hupdates
    rw [Redis.handled_none _ _ _ hfind, hok]
    exact ⟨t, document, hstored, hparse, htime⟩
  | some definition =>
    rw [setCalls_some hfind] at hn
    rw [Redis.handled_some _ _ _ hfind]
    cases hlast : fails 4 with
    | false =>
      have hupdates : (Json.object (quietUpdates message)).Readable :=
        formedAt_doneUpdates utf8Text hmessage Bytes.utf8_nil
          ((Json.formedAt_array_iff _ _).mpr (List.forall_mem_nil _))
      obtain ⟨t, document, hstored, hparse, -, htime⟩ := Redis.write_ok
        (redis.write worker job (fails 1) (fails 2) "running" (contractFields message) now) worker
        job (fails 3) "done" now (doneUpdates_proper _ _ _) hupdates
      exact ⟨t, document, hstored, hparse, htime⟩
    | true =>
      have hrunning : fails 2 = false := by
        rcases List.mem_pair.mp hn with rfl | rfl
        · exact hok
        · rw [hlast] at hok
          cases hok
      obtain ⟨t, document, hstored, hparse, -, htime⟩ := redis.write_ok worker job (fails 1)
        "running" now (contractFields_proper message) (formedAt_contractFields utf8Text hmessage)
      rw [Redis.write_failed, hrunning]
      exact ⟨t, document, hstored, hparse, htime⟩

/-- If the last SET fails, an unfinished job stays unfinished. -/
theorem handled_lost (hmessage : (Json.object message).utf8 = true) (now : UtcTime)
    (hunfinished : ¬ HoldsFinished worker.codec (redis job.bytes)) {n : Nat}
    (hn : (setCalls worker request).getLast? = some n) (hlost : fails n = true) :
    ¬ HoldsFinished worker.codec
      (redis.handled worker job message request fails now job.bytes) := by
  cases hfind : findTask worker.configurations.taskWhitelist (Bytes.cStr request.taskName) with
  | none =>
    rw [setCalls_none hfind] at hn
    obtain rfl : 2 = n := Option.some.inj hn
    rw [Redis.handled_none _ _ _ hfind, hlost]
    exact hunfinished
  | some definition =>
    rw [setCalls_some hfind] at hn
    obtain rfl : 4 = n := Option.some.inj hn
    rw [Redis.handled_some _ _ _ hfind, hlost, Redis.write_failed]
    cases hrunning : fails 2 with
    | true => exact hunfinished
    | false =>
      obtain ⟨t, document, hstored, hparse, hstatus, -⟩ := redis.write_ok worker job (fails 1)
        "running" now (contractFields_proper message) (formedAt_contractFields utf8Text hmessage)
      rw [hstored]
      exact not_holdsFinished hparse hstatus (by decide)

/-- **Which outages a job survives.**  Whatever else happens, handling an accepted message
    destroys no finished document and, if it returns, loses no outcome, if and only if the
    pattern of failing calls spares it. -/
theorem outcome_survives_iff (haccepted : intake worker.codec body = .accepted job message)
    (hasks : Asks message job request) (redis : Redis) (fails : Nat → Bool) :
    ((∀ events redis', (handleMessage worker body).Trace events () →
      Serves worker.codec fails 0 redis events redis' →
      OutcomeKept worker.codec job redis events redis') ∧
    ∀ events redis', (handleMessage worker body).Throws Effect.isException events →
      Serves worker.codec fails 0 redis events redis' →
      HoldsFinished worker.codec (redis job.bytes) → redis' job.bytes = redis job.bytes) ↔
    Spared worker job request redis fails := by
  have hmessage := utf8_of_accepted haccepted
  refine ⟨fun ⟨hkept, _⟩ => ⟨fun hfinished => ?_, fun hunfinished n hn => ?_⟩, fun h =>
    ⟨fun events redis' htrace hserves => h.outcomeKept haccepted hasks htrace hserves,
      fun events redis' hthrows hserves => h.kept_of_throws haccepted hasks hthrows hserves⟩⟩
  · by_contra hnot
    rw [not_or] at hnot
    have hopen : (documentStatus worker.codec (redis.get (fails 0) job.bytes)).any isTerminal =
        false := Bool.eq_false_iff.mpr fun h => hnot.1 (check_terminal h)
    have hok : ∃ n ∈ setCalls worker request, fails n = false := by
      by_contra hall
      refine hnot.2 fun n hn => ?_
      cases hfails : fails n with
      | true => rfl
      | false => exact absurd ⟨n, hn, hfails⟩ hall
    -- handlings at different times would all leave the text that was there
    have hsame : ∀ now, ∃ t, ∃ document : Object, redis job.bytes = some t ∧
        worker.codec.parse t = some (.object document) ∧
        document.get "updated_at" = some (.string (formatTimestamp now)) := by
      intro now
      obtain ⟨events, htrace, hserves, -⟩ := exists_handled worker redis fails haccepted hasks hopen now
      rw [← (hkept events _ htrace hserves).kept hfinished]
      exact handled_written worker redis fails hmessage hasks now hok
    obtain ⟨t, document, ht, hparse, htime⟩ := hsame sampleTime
    obtain ⟨t', document', ht', hparse', htime'⟩ := hsame ⟨2027, 1, 1, 0, 0, 0⟩
    cases ht.symm.trans ht'
    cases hparse.symm.trans hparse'
    cases htime.symm.trans htime'
  · refine Bool.eq_false_iff.mpr fun hlost => ?_
    have hopen : (documentStatus worker.codec (redis.get (fails 0) job.bytes)).any isTerminal =
        false := Bool.eq_false_iff.mpr fun h =>
          hunfinished (holdsFinished_of_terminal (check_terminal h).2)
    obtain ⟨events, htrace, hserves, hunsent⟩ := exists_handled worker redis fails haccepted hasks hopen
      sampleTime
    rcases (hkept events _ htrace hserves).settled with hheld | hsent
    · exact handled_lost hmessage _ hunfinished hn hlost hheld
    · exact hunsent hsent

end Outage

/-! ### Outages of the sample request -/

theorem not_holdsFinished_none (codec : JsonCodec) : ¬ HoldsFinished codec none := by
  rintro ⟨_, _, _, h, -⟩
  cases h

/-- The SET of `running` fails, and nothing is lost. -/
theorem outage_spares_sample :
    ∃ events redis', (handleMessage (echoWorker 3) sampleBody).Trace events () ∧
      Serves (echoWorker 3).codec (· == 2) 0 (fun _ => none) events redis' ∧
      OutcomeKept (echoWorker 3).codec sampleJob (fun _ => none) events redis' := by
  have hasks := echoMessage_asks sampleJob
  obtain ⟨events, htrace, hserves, -⟩ := exists_handled (echoWorker 3) (fun _ => none) (· == 2)
    sampleBody_accepted hasks rfl sampleTime
  refine ⟨events, _, htrace, hserves, ?_⟩
  refine ((outcome_survives_iff sampleBody_accepted hasks (fun _ => none) (· == 2)).mpr ?_).1 _ _
    htrace hserves
  refine ⟨fun h => absurd h (not_holdsFinished_none _), fun _ n hn => ?_⟩
  rw [setCalls_some echoRequest_registered] at hn
  obtain rfl : 4 = n := Option.some.inj hn
  rfl

/-- Redis with a finished document of the sample job. -/
def doneRedis : Redis :=
  Function.update (fun _ => none) sampleJob.bytes
    (some (JsonText.codec.serialize (.object [("status", .string "done")])))

theorem doneRedis_parse : JsonText.codec.parse
    (JsonText.codec.serialize (.object [("status", .string "done")])) =
      some (.object [("status", .string "done")]) :=
  JsonText.codec.parse_serialize _ ((Json.formedAt_object_iff _ _).mpr
    ⟨by simp [Object.keys], by simp [utf8Text.literal]⟩)

/-- The GET of the terminal check fails, and the finished document is overwritten.  The
    last SET fails, and nothing is known of the outcome although the message is deleted. -/
theorem outage_loses_outcome :
    (documentStatus JsonText.codec (doneRedis sampleJob.bytes) = some ("done" : Bytes) ∧
      ∃ events redis', (handleMessage (echoWorker 3) sampleBody).Trace events () ∧
        Serves (echoWorker 3).codec (· == 0) 0 doneRedis events redis' ∧
        redis' sampleJob.bytes ≠ doneRedis sampleJob.bytes) ∧
    ∃ events redis', (handleMessage (echoWorker 3) sampleBody).Trace events () ∧
      Serves (echoWorker 3).codec (· == 4) 0 (fun _ => none) events redis' ∧
      ¬ HoldsFinished (echoWorker 3).codec (redis' sampleJob.bytes) ∧
      ¬ SendsFor (echoWorker 3).codec sampleJob events := by
  have hasks := echoMessage_asks sampleJob
  have hmessage := utf8_of_accepted sampleBody_accepted
  have hcalls := setCalls_some echoRequest_registered
  refine ⟨⟨documentStatus_eq doneRedis_parse rfl, ?_⟩, ?_⟩
  · obtain ⟨events, htrace, hserves, -⟩ := exists_handled (echoWorker 3) doneRedis (· == 0)
      sampleBody_accepted hasks rfl sampleTime
    obtain ⟨t, document, ht, hparse, htime⟩ := handled_written (echoWorker 3) doneRedis
      (· == 0) hmessage hasks sampleTime ⟨4, by rw [hcalls]; decide, rfl⟩
    refine ⟨events, _, htrace, hserves, fun hsame => ?_⟩
    cases ht.symm.trans hsame
    cases hparse.symm.trans doneRedis_parse
    cases htime
  · obtain ⟨events, htrace, hserves, hunsent⟩ := exists_handled (echoWorker 3) (fun _ => none)
      (· == 4) sampleBody_accepted hasks rfl sampleTime
    refine ⟨events, _, htrace, hserves, ?_, hunsent⟩
    exact handled_lost hmessage _ (not_holdsFinished_none _) (n := 4) (by rw [hcalls]; rfl) rfl

end TaskForge
