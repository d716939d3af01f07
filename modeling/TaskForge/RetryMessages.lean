import TaskForge.Attempts

/-!
# Retried messages

A retry is the body parsed a second time, with `dlq_try_count` set, written again.
Whatever the number of retries, the message stays the same request: every other
field is as in the original, unknown fields included, so it is accepted again and
processed in the same way.
-/

namespace TaskForge

open Json (Object)

/-! ### One retry -/

/-- The message under a count. -/
abbrev withTryCount (message : Object) (tryCount : Int32) : Object :=
  message.set "dlq_try_count" (.int64 tryCount.toInt64)

section

variable {codec : JsonCodec} {body : Bytes} {message : Object}

theorem parseObject_retryBody (hparse : codec.parseObject body = some message)
    (tryCount : Int32) :
    codec.parseObject (retryBody codec message tryCount) =
      some (withTryCount message tryCount) := by
  have hmessage := codec.readable_of_parse _ _ (codec.parseObject_eq_some.mp hparse)
  have hreadable : (Json.object (withTryCount message tryCount)).Readable :=
    Json.formedAt_set hmessage (Bytes.utf8_ofString _) (Json.formedAt_int64 _ _)
  -- the text has no zero byte, so `c_str` does not cut it
  unfold retryBody
  rw [Bytes.cStr_eq_self (codec.zero_notMem_serialize _)]
  exact codec.parseObject_eq_some.mpr (codec.parse_serialize _ hreadable)

end

/-- Two messages that differ in `dlq_try_count` at most. -/
def SameFields (message message' : Object) : Prop :=
  ∀ key : Bytes, key ≠ "dlq_try_count" → message'.get key = message.get key

theorem sameFields_withTryCount (message : Object) (tryCount : Int32) :
    SameFields message (withTryCount message tryCount) := by
  intro key hkey
  exact Object.get_set_ne message hkey _

theorem SameFields.trans {message message' message'' : Object} (h : SameFields message message')
    (h' : SameFields message' message'') : SameFields message message'' := by
  intro key hkey
  rw [h' key hkey, h key hkey]

section

variable {message message' : Object} (h : SameFields message message')

include h

theorem SameFields.requireNonEmptyString (key error : Bytes) (hkey : key ≠ "dlq_try_count") :
    requireNonEmptyString message' key error = requireNonEmptyString message key error := by
  rw [TaskForge.requireNonEmptyString, h key hkey]
  rfl

/-- `validate_request` does not look at the count. -/
theorem SameFields.validateRequest : validateRequest message' = validateRequest message := by
  have hjobId : checkJobId message' = checkJobId message := by
    rw [checkJobId, h "job_id" (by decide)]
    rfl
  have hmode : checkMode message' = checkMode message := by
    rw [checkMode, h "mode" (by decide)]
    rfl
  have htask : checkTask message' = checkTask message := by
    rw [checkTask, h "task" (by decide)]
    rfl
  have hdownloads : checkDownloads message' = checkDownloads message := by
    rw [checkDownloads, h "download_s3" (by decide)]
    rfl
  unfold TaskForge.validateRequest
  rw [h.requireNonEmptyString _ _ (by decide), hjobId, hmode, htask, hdownloads,
    h.requireNonEmptyString _ _ (by decide)]

theorem SameFields.contractFields : contractFields message' = contractFields message := by
  unfold TaskForge.contractFields taskNameField
  rw [h "task" (by decide), h "enqueued_at" (by decide)]

theorem SameFields.atString (key : Bytes) (hkey : key ≠ "dlq_try_count") :
    atString message' key = atString message key := by
  unfold TaskForge.atString
  rw [h key hkey]

theorem SameFields.atObject (key : Bytes) (hkey : key ≠ "dlq_try_count") :
    atObject message' key = atObject message key := by
  unfold TaskForge.atObject
  rw [h key hkey]

theorem SameFields.downloadInputs (inputsDir : Bytes) :
    downloadInputs message' inputsDir = downloadInputs message inputsDir := by
  unfold TaskForge.downloadInputs Code.downloadInputs atArray
  rw [h "download_s3" (by decide)]

theorem SameFields.finishJob (worker : Worker) (jobId taskName : Bytes) (dir : TempDir)
    (result : Except Bytes TaskExecutionResult) :
    finishJob worker jobId message' taskName dir result =
      finishJob worker jobId message taskName dir result := by
  unfold TaskForge.finishJob doneUpdates
  rw [h.atString _ (by decide), h.contractFields]

/-- The whole of `process_job` is the same program. -/
theorem SameFields.processJob (worker : Worker) :
    processJob worker message' = processJob worker message := by
  unfold TaskForge.processJob Code.processJob failWithoutRetry failureUpdates Code.runJob
  simp only [h.atString "job_id" (by decide), h.atObject "task" (by decide),
    h.contractFields, h.downloadInputs, h.finishJob]

end

/-! ### Any number of retries -/

/-- The handler of `body` republishes `body'`, with some responses of the outside. -/
def Republishes (worker : Worker) (body body' : Bytes) : Prop :=
  ∃ group id, (handleMessage worker body).Performs (.sqsSend body' group id)

theorem Republishes.eq_retryBody {worker : Worker} {body body' : Bytes}
    (h : Republishes worker body body') : ∃ job message tryCount,
      intake worker.codec body = .accepted job message ∧
        body' = retryBody worker.codec message tryCount := by
  obtain ⟨group, id, hperforms⟩ := h
  obtain ⟨φ, φ', hnext⟩ := (handleMessage_follows worker body).performs hperforms (.ok ())
  cases hnext with
  | neutral hneutral => cases hneutral
  | @send _ tryCount job message _ haccepted _ => exact ⟨job, message, tryCount, haccepted, rfl⟩

/-- What the handlers take from a message. -/
structure SameRequest (message message' : Object) : Prop where
  jobId : message'.get "job_id" = message.get "job_id"
  taskName : (atObject message' "task" >>= (atString · "name")) =
    (atObject message "task" >>= (atString · "name"))
  arguments : (atObject message' "task" >>= taskArguments) =
    (atObject message "task" >>= taskArguments)
  timeoutSec : (atObject message' "task" >>= taskTimeoutSec) =
    (atObject message "task" >>= taskTimeoutSec)
  downloads : message'.get "download_s3" = message.get "download_s3"
  outputs : message'.get "output_prefix" = message.get "output_prefix"
  contractFields : contractFields message' = contractFields message
  process : ∀ worker, processJob worker message' = processJob worker message

theorem SameFields.sameRequest {message message' : Object} (h : SameFields message message') :
    SameRequest message message' where
  jobId := h _ (by decide)
  taskName := by rw [h.atObject _ (by decide)]
  arguments := by rw [h.atObject _ (by decide)]
  timeoutSec := by rw [h.atObject _ (by decide)]
  downloads := h _ (by decide)
  outputs := h _ (by decide)
  contractFields := h.contractFields
  process := h.processJob

/-- **Retries never change the job**: after any number of failed attempts the body that
    was republished last is an object with the fields of the original except for
    `dlq_try_count`, is accepted, and is the same request. -/
theorem retries_never_change_job (worker : Worker) {body₀ body : Bytes} {message₀ : Object}
    (hparse : worker.codec.parse body₀ = some (.object message₀))
    (hvalid : validateRequest message₀ = .ok ())
    (hretries : Relation.ReflTransGen (Republishes worker) body₀ body) :
    ∃ message, worker.codec.parse body = some (.object message) ∧
      validateRequest message = .ok () ∧ SameFields message₀ message ∧
      SameRequest message₀ message := by
  suffices ∃ message, worker.codec.parseObject body = some message ∧
      SameFields message₀ message by
    obtain ⟨message, hmessage, hsame⟩ := this
    exact ⟨message, worker.codec.parseObject_eq_some.mp hmessage,
      hsame.validateRequest.trans hvalid, hsame, hsame.sameRequest⟩
  induction hretries with
  | refl => exact ⟨message₀, worker.codec.parseObject_eq_some.mpr hparse, fun _ _ => rfl⟩
  | tail _ hrepublishes ih =>
    obtain ⟨message, hmessage, hsame⟩ := ih
    obtain ⟨job, message', tryCount, haccepted, rfl⟩ := hrepublishes.eq_retryBody
    obtain rfl : message' = message :=
      Option.some.inj ((intake_accepted.mp haccepted).1.symm.trans hmessage)
    exact ⟨_, parseObject_retryBody hmessage tryCount,
      hsame.trans (sameFields_withTryCount message' tryCount)⟩

/-- The first retry of a sample request. -/
theorem first_retry_of_sample :
    ∃ message, JsonText.codec.parse (retryBody JsonText.codec (echoMessage sampleJob) 1) =
        some (.object message) ∧
      validateRequest message = .ok () ∧ SameFields (echoMessage sampleJob) message ∧
      SameRequest (echoMessage sampleJob) message := by
  have haccepted := echoMessage_accepted JsonText.codec sampleJob
  obtain ⟨hobject, hvalid, -⟩ := intake_accepted.mp haccepted
  have hrecorded := handleMessage_recorded ⟨True, True, True, True, True⟩ () (echoWorker 3)
    haccepted (echoMessage_plain 3 sampleJob) (by decide +kernel) (by decide +kernel) .empty rfl
    sampleTime rfl
  have hsend : Republishes (echoWorker 3)
      (JsonText.codec.serialize (.object (echoMessage sampleJob)))
      (retryBody JsonText.codec (echoMessage sampleJob) 1) :=
    ⟨_, _, hrecorded.performs .here⟩
  exact retries_never_change_job (echoWorker 3) (JsonText.codec.parseObject_eq_some.mp hobject)
    hvalid (.single hsend)

end TaskForge
