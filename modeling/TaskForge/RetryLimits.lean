import TaskForge.Completion
import TaskForge.MachineIntegers
import TaskForge.RetryCounts

/-!
# Retry limits

A failed job is counted in its entry of the retry store and retried up to a limit.  The
counts start as 64-bit numbers, one in the message and one in the entry; both are cast to
`int` before they are compared and incremented.  The theorem says from which counts the
next one is larger than both, so that a job whose tries are used up stays so.
-/

namespace TaskForge

open Json (Object)

/-! ### The counts before the cast -/

/-- The `dlq_try_count` of a message. -/
def messageTryCount (message : Object) : Int64 :=
  match message.get "dlq_try_count" with
  | some (.int64 n) => n
  | _ => 0

/-- The `try_count` of an entry, as far as it can be read. -/
def entryTryCount (codec : JsonCodec) (existing : Option Bytes) : Int64 :=
  match (existing.bind codec.parseObject).bind (·.get "try_count") with
  | some (.int64 n) => n
  | _ => 0

theorem inboundTryCount_eq (message : Object) :
    inboundTryCount message = (messageTryCount message).toInt32 := by
  unfold inboundTryCount messageTryCount
  cases message.get "dlq_try_count" with
  | none => rfl
  | some value => cases value <;> rfl

theorem storedTryCount_getD (codec : JsonCodec) (existing : Option Bytes) :
    (storedTryCount codec existing).getD 0 = (entryTryCount codec existing).toInt32 := by
  unfold storedTryCount entryTryCount
  cases (existing.bind codec.parseObject).bind (·.get "try_count") with
  | none => rfl
  | some value => cases value <;> rfl

/-- A count that can be incremented: it is below the largest `int`, and so is what the cast
    makes of it. -/
def Incrementable (n : Int64) : Prop :=
  n.toInt < 2 ^ 31 - 1 ∧ n.toInt % 2 ^ 32 ≠ 2 ^ 31 - 1

/-- Both counts can be incremented, or lie below what an increment can wrap to. -/
def CountsUp (d s : Int64) : Prop :=
  (Incrementable d ∧ Incrementable s) ∨ (d.toInt < -2 ^ 31 ∧ s.toInt < -2 ^ 31)

theorem lt_nextTryCount_iff (codec : JsonCodec) (message : Object) (existing : Option Bytes) :
    ((messageTryCount message).toInt <
        (nextTryCount codec (inboundTryCount message) existing).toInt ∧
      (entryTryCount codec existing).toInt <
        (nextTryCount codec (inboundTryCount message) existing).toInt) ↔
      CountsUp (messageTryCount message) (entryTryCount codec existing) := by
  obtain ⟨top, hnext, htop⟩ := nextTryCount_eq codec (inboundTryCount message) existing
  rw [inboundTryCount_eq, storedTryCount_getD] at htop
  rw [hnext]
  generalize messageTryCount message = d at htop ⊢
  generalize entryTryCount codec existing = s at htop ⊢
  obtain ⟨hdlower, hdupper, k, hd⟩ := MachineInt.toInt32_cases d
  obtain ⟨hslower, hsupper, l, hs⟩ := MachineInt.toInt32_cases s
  unfold CountsUp Incrementable
  by_cases hmax : top.toInt = 2 ^ 31 - 1
  · -- the increment wraps
    rw [toInt_add_one_max hmax]
    omega
  · rw [toInt_add_one (by omega)]
    omega

/-! ### Giving up -/

/-- The job is set to `failed`, and nothing is sent. -/
structure GivenUp (job : JobId) (events : List Exchange) : Prop where
  failed : ∃ document ttl saved, (⟨.redisSet job.bytes document ttl, saved⟩ : Exchange) ∈ events ∧
    document.get "status" = some (.string "failed")
  unsent : ∀ body group deduplicationId answer,
    (⟨.sqsSend body group deduplicationId, answer⟩ : Exchange) ∉ events

section Failure

variable {worker : Worker} {body : Bytes} {job : JobId} {message : Object}

/-- Tries that are used up: the entry is removed and the job fails. -/
theorem givenUp_of_exhausted {reason : Bytes} {tryCount : Int32} {events : List Exchange}
    (hlimit : worker.configurations.dlqMaxRetryCount.toInt < tryCount.toInt)
    (htrace : (retryOrGiveUp worker job.bytes message reason tryCount).Trace events ()) :
    GivenUp job events := by
  have hcan : ¬ canRetry worker.configurations.dlqMaxRetryCount tryCount = true := by
    rw [canRetry_iff]
    omega
  unfold retryOrGiveUp Code.retryOrGiveUp at htrace
  rw [if_neg hcan] at htrace
  obtain ⟨_, _, rfl, hstatus⟩ := Prog.trace_perform_bind.mp htrace
  obtain ⟨seen, now, saved, rfl⟩ := setJobStatus_trace.mp hstatus
  constructor
  · refine ⟨_, _, saved, List.mem_cons_of_mem _ (.tail _ (.tail _ (.head _))), ?_⟩
    have hproper := retryUpdates_proper message reason tryCount
    exact get_mergeStatus_status hproper.nodup hproper.status
  · intro body group deduplicationId answer hmem
    simp [statusExchanges] at hmem

/-- The entry is found as `existing`, and it can be written. -/
structure EntryAccess (existing : Option Bytes) (events : List Exchange) : Prop where
  read : ∀ path answer, (⟨.dlqRead path, answer⟩ : Exchange) ∈ events → answer = existing
  written : ∀ path entry answer, (⟨.dlqWrite path entry, answer⟩ : Exchange) ∈ events →
    answer = true

/-- The retry or its absence can be carried out, without another access to the entry. -/
theorem exists_retryOrGiveUp (worker : Worker) (job : JobId) (message : Object) (reason : Bytes)
    (tryCount : Int32) (existing : Option Bytes) :
    ∃ events, (retryOrGiveUp worker job.bytes message reason tryCount).Trace events () ∧
      EntryAccess existing events ∧
      (canRetry worker.configurations.dlqMaxRetryCount tryCount = true →
        ∃ sent group deduplicationId,
          (⟨.sqsSend sent group deduplicationId, .ok ()⟩ : Exchange) ∈ events) := by
  have hstatus : ∀ status updates, (setJobStatus worker job.bytes status updates).Trace
      (statusExchanges worker job.bytes status updates none sampleTime true) () :=
    fun _ _ => setJobStatus_trace.mpr ⟨none, sampleTime, true, rfl⟩
  unfold retryOrGiveUp Code.retryOrGiveUp
  dsimp only
  split
  · refine ⟨_, Prog.trace_perform_bind.mpr ⟨.ok (), _, rfl, hstatus _ _⟩, ?_, ?_⟩
    · constructor <;> simp [statusExchanges]
    · exact fun _ => ⟨_, _, _, .head _⟩
  · rename_i hcan
    refine ⟨_, Prog.trace_perform_bind.mpr ⟨(), _, rfl, hstatus _ _⟩, ?_, ?_⟩
    · constructor <;> simp [statusExchanges]
    · exact fun hcan' => absurd hcan' hcan

/-- The entry is read and written, and `rest` is what follows. -/
def failureExchanges (worker : Worker) (job : JobId) (body reason : Bytes)
    (existing : Option Bytes) (tryCount : Int32) (rest : List Exchange) : List Exchange :=
  ⟨.dlqRead (entryPath worker.configurations.dlqPath job.bytes), existing⟩ ::
    ⟨.dlqWrite (entryPath worker.configurations.dlqPath job.bytes)
      (failureEntry job.bytes tryCount reason body), true⟩ :: rest

theorem EntryAccess.failureExchanges {existing : Option Bytes} {rest : List Exchange}
    (h : EntryAccess existing rest) {reason : Bytes} {tryCount : Int32} :
    EntryAccess existing
      (failureExchanges worker job body reason existing tryCount rest) := by
  constructor
  · intro path answer hmem
    simp only [TaskForge.failureExchanges, List.mem_cons] at hmem
    rcases hmem with hread | hwrite | hrest
    · cases hread
      rfl
    · cases hwrite
    · exact h.read path answer hrest
  · intro path entry answer hmem
    simp only [TaskForge.failureExchanges, List.mem_cons] at hmem
    rcases hmem with hread | hwrite | hrest
    · cases hread
    · cases hwrite
      rfl
    · exact h.written path entry answer hrest

theorem tryCount_of_failureExchanges {existing : Option Bytes} {reason : Bytes}
    {tryCount tryCount' : Int32} {rest rest' : List Exchange}
    (h : failureExchanges worker job body reason existing tryCount rest =
      failureExchanges worker job body reason existing tryCount' rest') :
    tryCount = tryCount' := by
  simp only [failureExchanges, failureEntry, List.cons.injEq, Sigma.mk.injEq,
    Effect.dlqWrite.injEq, Prod.mk.injEq, Json.int64.injEq] at h
  have hcast := congrArg Int64.toInt32 h.2.1.1.2.2.1.2
  rwa [Int32.toInt32_toInt64, Int32.toInt32_toInt64] at hcast

/-- The failure is counted: the entry holds `tryCount`, and `tryCount` decides what follows. -/
def FailureCounted (worker : Worker) (job : JobId) (body : Bytes) (message : Object) (reason : Bytes)
    (existing : Option Bytes) (tryCount : Int32) (rest events : List Exchange) : Prop :=
  events = failureExchanges worker job body reason existing tryCount rest ∧
    (retryOrGiveUp worker job.bytes message reason tryCount).Trace rest ()

theorem counted_of_handleProcessingFailure
    (haccepted : intake worker.codec body = .accepted job message) {reason : Bytes}
    {existing : Option Bytes} {events : List Exchange}
    (htrace : (handleProcessingFailure worker job.bytes body reason).Trace events ())
    (haccess : EntryAccess existing events) :
    ∃ rest, FailureCounted worker job body message reason existing
      (nextTryCount worker.codec (inboundTryCount message) existing) rest events := by
  obtain ⟨found, written, rest, rfl, hretry, -⟩ :=
    (handleProcessingFailure_trace haccepted).mp htrace
  obtain rfl := haccess.read _ _ (.head _)
  obtain rfl := haccess.written _ _ _ (.tail _ (.head _))
  exact ⟨rest, rfl, hretry rfl⟩

/-- A request for a task that is not registered does not fail, it is refused. -/
theorem not_failed_of_unregistered {request : TaskRequest} {events : List Exchange}
    {reason : Bytes}
    (hfind : findTask worker.configurations.taskWhitelist (Bytes.cStr request.taskName) = none) :
    ¬ (processRequest worker job message request).Trace events (.error reason) := by
  intro htrace
  obtain ⟨text, rest, rfl⟩ := processRequest_trace_guard htrace
  cases hterminal : (documentStatus worker.codec text).any isTerminal with
  | true => cases ((processRequest_trace_finished hterminal).mp htrace).2
  | false => cases ((processRequest_trace_unregistered hfind hterminal).mp htrace).1

theorem FailureCounted.trace (haccepted : intake worker.codec body = .accepted job message)
    {reason : Bytes} {existing : Option Bytes} {rest events : List Exchange}
    (h : FailureCounted worker job body message reason existing
      (nextTryCount worker.codec (inboundTryCount message) existing) rest events) :
    (handleProcessingFailure worker job.bytes body reason).Trace events () := by
  obtain ⟨rfl, hrest⟩ := h
  apply (handleProcessingFailure_trace haccepted).mpr
  exact ⟨existing, true, rest, rfl, fun _ => hrest, by simp⟩

/-- A registered task can fail, whatever entry is found. -/
theorem exists_countedFailure (worker : Worker)
    (haccepted : intake worker.codec body = .accepted job message)
    {request : TaskRequest} (hasks : Asks message job request) {definition : TaskDefinition}
    (hfind : findTask worker.configurations.taskWhitelist (Bytes.cStr request.taskName) =
      some definition) (existing : Option Bytes) :
    ∃ before reason rest after, (processJob worker message).Trace before (.error reason) ∧
      (handleMessage worker body).Trace (before ++ after) () ∧ EntryAccess existing after ∧
      FailureCounted worker job body message reason existing
        (nextTryCount worker.codec (inboundTryCount message) existing) rest after ∧
      (canRetry worker.configurations.dlqMaxRetryCount
          (nextTryCount worker.codec (inboundTryCount message) existing) = true →
        ∃ sent group deduplicationId,
          (⟨.sqsSend sent group deduplicationId, .ok ()⟩ : Exchange) ∈ rest) := by
  obtain ⟨before, reason, hfails⟩ := exists_failedRequest worker job message request hfind
  rw [← hasks.processJob_eq] at hfails
  obtain ⟨rest, hrest, hquiet, hsent⟩ := exists_retryOrGiveUp worker job message reason
    (nextTryCount worker.codec (inboundTryCount message) existing) existing
  refine ⟨before, reason, rest, _, hfails, ?_, hquiet.failureExchanges, ⟨rfl, hrest⟩, hsent⟩
  rw [handleMessage_accepted haccepted]
  exact Prog.trace_bind.mpr ⟨_, _, _, rfl, hfails, FailureCounted.trace haccepted ⟨rfl, hrest⟩⟩

/-- **The retry counter grows, and used up tries stay used up**, if and only if the task is
    not registered, so that no attempt is made, or both counts can be incremented. -/
theorem retry_count_grows_iff (worker : Worker)
    (haccepted : intake worker.codec body = .accepted job message)
    {request : TaskRequest} (hasks : Asks message job request) (existing : Option Bytes) :
    (∀ before reason after, (processJob worker message).Trace before (.error reason) →
      (handleMessage worker body).Trace (before ++ after) () → EntryAccess existing after →
        ∃ tryCount rest,
          FailureCounted worker job body message reason existing tryCount rest after ∧
          (messageTryCount message).toInt < tryCount.toInt ∧
          (entryTryCount worker.codec existing).toInt < tryCount.toInt ∧
          (worker.configurations.dlqMaxRetryCount.toInt ≤ (messageTryCount message).toInt ∨
            worker.configurations.dlqMaxRetryCount.toInt ≤
              (entryTryCount worker.codec existing).toInt → GivenUp job rest)) ↔
    (findTask worker.configurations.taskWhitelist (Bytes.cStr request.taskName) = none ∨
      CountsUp (messageTryCount message) (entryTryCount worker.codec existing)) := by
  have hiff := lt_nextTryCount_iff worker.codec message existing
  constructor
  · intro h
    cases hfind : findTask worker.configurations.taskWhitelist (Bytes.cStr request.taskName) with
    | none => exact Or.inl rfl
    | some definition =>
      obtain ⟨before, reason, _, _, hfails, htrace, haccess, ⟨rfl, -⟩, -⟩ :=
        exists_countedFailure worker haccepted hasks hfind existing
      obtain ⟨tryCount, _, ⟨heq, -⟩, hmessage, hentry, -⟩ :=
        h before reason _ hfails htrace haccess
      rw [← tryCount_of_failureExchanges heq] at hmessage hentry
      exact Or.inr (hiff.mp ⟨hmessage, hentry⟩)
  · intro hcounts before reason after hfails htrace haccess
    rw [handleMessage_accepted haccepted] at htrace
    obtain ⟨rest, hcounted⟩ := counted_of_handleProcessingFailure haccepted
      (hfails.rest htrace) haccess
    have hregistered : ¬ findTask worker.configurations.taskWhitelist
        (Bytes.cStr request.taskName) = none := by
      intro hfind
      rw [hasks.processJob_eq] at hfails
      exact not_failed_of_unregistered hfind hfails
    obtain ⟨hmessage, hentry⟩ := hiff.mpr (hcounts.resolve_left hregistered)
    refine ⟨_, rest, hcounted, hmessage, hentry, fun hlimit => ?_⟩
    exact givenUp_of_exhausted (by omega) hcounted.2

end Failure

/-- The first failure of the sample job is counted. -/
theorem echo_failure_counted :
    ∃ before reason after tryCount rest,
      (handleMessage (echoWorker 3) sampleBody).Trace (before ++ after) () ∧
      FailureCounted (echoWorker 3) sampleJob sampleBody (echoMessage sampleJob) reason none
        tryCount rest after ∧ 0 < tryCount.toInt := by
  have hasks := echoMessage_asks sampleJob
  obtain ⟨before, reason, _, after, hfails, htrace, haccess, -⟩ :=
    exists_countedFailure (echoWorker 3) sampleBody_accepted hasks
      echoRequest_registered none
  have hcounts : CountsUp (messageTryCount (echoMessage sampleJob)) (entryTryCount
      (echoWorker 3).codec none) :=
    Or.inl ⟨⟨by decide, by decide⟩, by decide, by decide⟩
  obtain ⟨tryCount, rest, hcounted, hlt, -⟩ :=
    (retry_count_grows_iff (echoWorker 3) sampleBody_accepted hasks none).mpr
      (Or.inr hcounts) before reason after hfails htrace haccess
  exact ⟨before, reason, after, tryCount, rest, htrace, hcounted, hlt⟩

/-- The sample request with a `dlq_try_count` of `2^32`. -/
def countedMessage : Object := (echoMessage sampleJob).set "dlq_try_count" (.int64 4294967296)

theorem countedMessage_accepted :
    intake JsonText.codec (JsonText.codec.serialize (.object countedMessage)) =
      .accepted sampleJob countedMessage := by
  have hsame : SameFields (echoMessage sampleJob) countedMessage := fun key hkey =>
    Object.get_set_ne (echoMessage sampleJob) hkey _
  refine intake_serialize JsonText.codec ?_ ?_ rfl
  · exact Json.formedAt_set (echoMessage_readable sampleJob) (Bytes.utf8_ofString _)
      (Json.formedAt_int64 _ _)
  · rw [hsame.validateRequest, echoMessage_valid]

/-- Of three tries `2^32` are used up.  The failure is counted as the first, and the job is
    retried. -/
theorem large_count_starts_over :
    (echoWorker 3).configurations.dlqMaxRetryCount = 3 ∧
    messageTryCount countedMessage = 4294967296 ∧
    ∃ body before reason after rest sent group deduplicationId,
      intake JsonText.codec body = .accepted sampleJob countedMessage ∧
      (processJob (echoWorker 3) countedMessage).Trace before (.error reason) ∧
      (handleMessage (echoWorker 3) body).Trace (before ++ after) () ∧
      FailureCounted (echoWorker 3) sampleJob body countedMessage reason none 1 rest after ∧
      (⟨.sqsSend sent group deduplicationId, .ok ()⟩ : Exchange) ∈ rest := by
  have hasks : Asks countedMessage sampleJob echoRequest :=
    ⟨rfl, (echoMessage_asks sampleJob).task, (echoMessage_asks sampleJob).downloads, rfl⟩
  obtain ⟨before, reason, rest, after, hfails, htrace, -, hcounted, hsent⟩ :=
    exists_countedFailure (echoWorker 3) countedMessage_accepted hasks
      echoRequest_registered none
  obtain ⟨sent, group, deduplicationId, hmem⟩ := hsent (by decide)
  exact ⟨rfl, rfl, _, before, reason, after, rest, sent, group, deduplicationId,
    countedMessage_accepted, hfails, htrace, hcounted, hmem⟩

end TaskForge
