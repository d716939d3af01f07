import TaskForge.DocumentContents

/-!
# The fields of the contract

Whoever reads a document may rely on five fields.  Three of them the merge writes itself.
The other two, `task_name` and `enqueued_at`, are the interface's: each status write
restores them from the message, since the document the interface wrote may be gone.  The
checks of a message require the first of the two and never look at the second.
-/

namespace TaskForge

open Json (Object)

/-- The fields that are always there. -/
def contractKeys : List Bytes := ["job_id", "task_name", "status", "enqueued_at", "updated_at"]

def HasContractFields (document : Object) : Prop :=
  ∀ key ∈ contractKeys, ∃ text, document.get key = some (.string text)

theorem hasContractFields_iff {document : Object} :
    HasContractFields document ↔
      (∃ text, document.get "job_id" = some (.string text)) ∧
      (∃ text, document.get "task_name" = some (.string text)) ∧
      (∃ text, document.get "status" = some (.string text)) ∧
      (∃ text, document.get "enqueued_at" = some (.string text)) ∧
      ∃ text, document.get "updated_at" = some (.string text) := by
  simp [HasContractFields, contractKeys]

/-- The updates that repeat the fields of the message leave all five. -/
theorem Repeats.hasContractFields {codec : JsonCodec} {seen : Option Bytes} {job : JobId}
    {status : Bytes} {updates : Object} {now : UtcTime} {taskName enqueuedAt : Bytes}
    (h : Repeats taskName enqueuedAt updates) :
    HasContractFields (mergeStatus codec seen job.bytes status updates now) := by
  refine hasContractFields_iff.mpr ⟨⟨_, get_mergeStatus_jobId h.proper⟩, ⟨taskName, ?_⟩,
    ⟨status, h.get_status⟩, ⟨enqueuedAt, ?_⟩, ⟨_, Object.get_set_self ..⟩⟩
  · exact get_mergeStatus_some h.proper (by decide) h.taskName (by simp)
  · exact get_mergeStatus_some h.proper (by decide) h.enqueuedAt (by simp)

/-- Every document the handler stores has the fields of the contract. -/
def KeepsContract (events : List Exchange) : Prop :=
  ∀ key document ttlSec saved, (⟨.redisSet key document ttlSec, saved⟩ : Exchange) ∈ events →
    HasContractFields document

section

variable {worker : Worker} {body : Bytes} {job : JobId} {message : Object}

/-- A message that carries both fields keeps the contract, whatever is stored. -/
theorem keepsContract_of_carries (haccepted : intake worker.codec body = .accepted job message)
    {taskName enqueuedAt : Bytes} (hcarries : Carries message taskName enqueuedAt)
    {events : List Exchange}
    (hends : (handleMessage worker body).Ends Effect.isException events) :
    KeepsContract events := by
  have hwithin : (handleMessage worker body).Within (fun _ _ => True)
      (fun e => ∀ key document ttlSec, e = .redisSet key document ttlSec →
        HasContractFields document) fun _ => True := by
    refine (handleMessage_follows worker body).within ?_ ?_
    · intro φ e r φ' hnext key document ttlSec heq
      subst heq
      cases hnext with
      | neutral hneutral => cases hneutral
      | write job' now saved hwrite =>
        exact (hwrite.repeats haccepted hcarries).hasContractFields
    · intro e hempty key document ttlSec heq
      subst heq
      exact (hempty.false true).elim
  intro key document ttlSec saved hmem
  exact hwithin.ends hends (fun _ _ => trivial) _ hmem key document ttlSec rfl

/-- The handling of an accepted message can begin with a write over no document. -/
theorem exists_firstWrite (worker : Worker)
    (haccepted : intake worker.codec body = .accepted job message) :
    ∃ events status updates now saved, (handleMessage worker body).Trace events () ∧
      (⟨.redisSet job.bytes (mergeStatus worker.codec none job.bytes status updates now)
        worker.configurations.redisTtlSec, saved⟩ : Exchange) ∈ events ∧
      ProperUpdates updates ∧
      updates.get "enqueued_at" = (contractFields message).get "enqueued_at" := by
  obtain ⟨request, hasks⟩ := asks_of_accepted haccepted
  have hopen : (documentStatus worker.codec none).any isTerminal = false := rfl
  cases hfind : findTask worker.configurations.taskWhitelist (Bytes.cStr request.taskName) with
  | none =>
    refine ⟨_, "failed", _, sampleTime, true, handleMessage_trace_of_processRequest haccepted hasks
      ((processRequest_trace_unregistered hfind hopen).mpr ⟨rfl, none, sampleTime, true, rfl⟩),
      .tail _ (.tail _ (.tail _ (.head _))), failureUpdates_proper message _, ?_⟩
    exact Object.get_set_ne (contractFields message) (by decide) _
  | some definition =>
    have htrace := (oneOutputRun_of request).trace job message hfind none rfl none sampleTime true
    exact ⟨_, "running", _, sampleTime, true,
      handleMessage_trace_of_processRequest haccepted hasks htrace,
      .tail _ (.tail _ (.tail _ (.head _))), contractFields_proper message, rfl⟩

/-- What is shown where nothing was stored comes from the update. -/
theorem eq_of_updatedField {update : Option (Json Bytes)} {value : Json Bytes}
    (h : updatedField none update = some value) : update = some value := by
  unfold updatedField at h
  split at h
  · cases h
  · cases h
  · exact h

/-- The `enqueued_at` of the updates is that of the message. -/
theorem contractFields_enqueuedAt {enqueuedAt : Bytes}
    (h : (contractFields message).get "enqueued_at" = some (.string enqueuedAt)) :
    message.get "enqueued_at" = some (.string enqueuedAt) := by
  unfold contractFields at h
  dsimp only at h
  split at h
  · rename_i text hget
    rw [Object.get_set_self] at h
    rw [hget, h]
  · rw [taskNameField_get message (by decide)] at h
    cases h

/-- **The fields of the contract are always there** if and only if the message has a string
    as its `enqueued_at`. -/
theorem contract_fields_iff (worker : Worker)
    (haccepted : intake worker.codec body = .accepted job message) :
    (∀ events, (handleMessage worker body).Ends Effect.isException events →
      KeepsContract events) ↔
      ∃ enqueuedAt, message.get "enqueued_at" = some (.string enqueuedAt) := by
  constructor
  · intro h
    obtain ⟨events, status, updates, now, saved, htrace, hmem, hproper, hupdates⟩ :=
      exists_firstWrite worker haccepted
    obtain ⟨-, -, -, ⟨enqueuedAt, hget⟩, -⟩ :=
      hasContractFields_iff.mp (h events htrace.ends _ _ _ _ hmem)
    -- nothing was stored, so the field of the document is the one of the updates
    rw [get_mergeStatus hproper.nodup (by decide), hupdates] at hget
    exact ⟨enqueuedAt, contractFields_enqueuedAt (eq_of_updatedField hget)⟩
  · rintro ⟨enqueuedAt, henqueued⟩ events hends
    obtain ⟨request, hasks⟩ := asks_of_accepted haccepted
    obtain ⟨task, htask, htaskAsks⟩ := hasks.task
    exact keepsContract_of_carries haccepted ⟨⟨task, htask, htaskAsks.name⟩, henqueued⟩ hends

end

/-- The sample request, with the time it was made. -/
def datedMessage : Object :=
  (echoMessage sampleJob).set "enqueued_at" (.string "2026-01-01T00:00:00Z")

theorem datedMessage_accepted :
    intake JsonText.codec (JsonText.codec.serialize (.object datedMessage)) =
      .accepted sampleJob datedMessage := by
  refine intake_serialize JsonText.codec ?_ rfl rfl
  exact formedAt_set_string utf8Text (echoMessage_readable sampleJob) "enqueued_at"
    (utf8Text.literal _)

theorem dated_documents_complete :
    ∃ body events, intake JsonText.codec body = .accepted sampleJob datedMessage ∧
      (handleMessage (echoWorker 3) body).Trace events () ∧ KeepsContract events := by
  obtain ⟨events, -, -, -, -, htrace, -⟩ :=
    exists_firstWrite (echoWorker 3) datedMessage_accepted
  exact ⟨_, events, datedMessage_accepted, htrace,
    (contract_fields_iff (echoWorker 3) datedMessage_accepted).mpr ⟨_, rfl⟩ events htrace.ends⟩

/-- The sample request was never dated: it is accepted, and so are its documents. -/
theorem undated_document_stored :
    intake JsonText.codec sampleBody = .accepted sampleJob (echoMessage sampleJob) ∧
    ∃ events key document ttlSec saved, (handleMessage (echoWorker 3) sampleBody).Trace events () ∧
      (⟨.redisSet key document ttlSec, saved⟩ : Exchange) ∈ events ∧
      document.get "enqueued_at" = none ∧ ¬ HasContractFields document := by
  obtain ⟨events, status, updates, now, saved, htrace, hmem, hproper, hupdates⟩ :=
    exists_firstWrite (echoWorker 3) sampleBody_accepted
  have hnone : (mergeStatus (echoWorker 3).codec none sampleJob.bytes status updates now).get
      "enqueued_at" = none := by
    rw [get_mergeStatus hproper.nodup (by decide), hupdates]
    rfl
  refine ⟨sampleBody_accepted, events, _, _, _, saved, htrace, hmem, hnone, fun hfields => ?_⟩
  obtain ⟨-, -, -, ⟨text, hget⟩, -⟩ := hasContractFields_iff.mp hfields
  cases hnone.symm.trans hget

end TaskForge
