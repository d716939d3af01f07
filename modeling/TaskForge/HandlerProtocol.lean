import TaskForge.HandlerText

/-!
# The protocol of a handler

What `handle_message` does to the world, as an automaton.  A handler is at one of
few stages; `StatusWrite` is the table of the status documents it stores, and
`Next` adds the retry file, the republished message and the process it starts.
Effects that touch none of these are loops.

`handleMessage_follows` ties the automaton to the code.  Every later result about
runs of workers is a case analysis on `Next`, never on the code itself.
-/

namespace TaskForge

/-! ### What a body is taken for -/

/-- What `handle_message` makes of a body. -/
inductive Intake where
  /-- no JSON object, or a rejected one without a valid job identifier -/
  | dropped
  /-- an object that violates the schema but names a job -/
  | rejected (job : JobId) (message : Json.Object) (error : Bytes)
  | accepted (job : JobId) (message : Json.Object)

/-- The valid job identifier an object names. -/
def namedJob (message : Json.Object) : Option JobId :=
  match message.get "job_id" with
  | some (.string s) => if h : isValidJobId s = true then some ⟨s, h⟩ else none
  | _ => none

/-- The job a handler writes to, if any. -/
def Intake.job : Intake → Option JobId
  | .dropped => none
  | .rejected job _ _ => some job
  | .accepted job _ => some job

def intake (codec : JsonCodec) (body : Bytes) : Intake :=
  match codec.parseObject body with
  | none => .dropped
  | some message =>
    match namedJob message with
    | none => .dropped
    | some job =>
      match validateRequest message with
      | .error error => .rejected job message error
      | .ok () => .accepted job message

theorem namedJob_eq_some {message : Json.Object} {job : JobId} :
    namedJob message = some job ↔ message.get "job_id" = some (.string job.bytes) := by
  unfold namedJob
  constructor
  · intro h
    split at h
    · rename_i s hget
      split at h
      · cases h; exact hget
      · cases h
    · cases h
  · intro h
    rw [h]
    simp [job.valid]

theorem intake_accepted {codec : JsonCodec} {body : Bytes} {job : JobId}
    {message : Json.Object} :
    intake codec body = .accepted job message ↔ codec.parseObject body = some message ∧
      validateRequest message = .ok () ∧
      message.get "job_id" = some (.string job.bytes) := by
  rw [← namedJob_eq_some]
  unfold intake
  constructor
  · intro h
    split at h
    · cases h
    split at h
    · cases h
    split at h
    · cases h
    · cases h
      exact ⟨by assumption, by assumption, by assumption⟩
  · rintro ⟨hparse, hvalid, hjob⟩
    simp only [hparse, hjob, hvalid]

theorem intake_rejected {codec : JsonCodec} {body : Bytes} {job : JobId}
    {message : Json.Object} {error : Bytes} :
    intake codec body = .rejected job message error ↔
      codec.parseObject body = some message ∧ validateRequest message = .error error ∧
        message.get "job_id" = some (.string job.bytes) := by
  rw [← namedJob_eq_some]
  unfold intake
  constructor
  · intro h
    split at h
    · cases h
    split at h
    · cases h
    split at h
    · cases h
      exact ⟨by assumption, by assumption, by assumption⟩
    · cases h
  · rintro ⟨hparse, hvalid, hjob⟩
    simp only [hparse, hjob, hvalid]

/-! ### The automaton -/

/-- Where a handler is. -/
inductive Stage where
  /-- a rejected message: `failed` is to be written -/
  | rejecting
  /-- an accepted message: the terminal check is to be made -/
  | guarding
  /-- the job is not finished: whitelist, then `running` or `failed` -/
  | dispatching
  /-- `running` is written, the process has not been started -/
  | working
  /-- the process has been started -/
  | executed
  /-- the final status is written, the retry file is to be removed -/
  | closing
  /-- the attempt failed, and is to be recorded under this count -/
  | counted (tryCount : Int32)
  /-- the failure could not be recorded -/
  | unrecorded
  /-- the failure is recorded under this count -/
  | recorded (tryCount : Int32)
  /-- the retry file is removed, `failed` is to be written -/
  | exhausted (tryCount : Int32)
  /-- the retry could not be sent -/
  | refused (tryCount : Int32)
  /-- the retry is sent, `queued` is to be written -/
  | requeueing (tryCount : Int32)
  | finished
deriving DecidableEq, Repr

/-- The handler has found the job unfinished and has not finished it. -/
def Stage.isActive : Stage → Bool
  | .rejecting | .guarding | .closing | .finished => false
  | _ => true

/-- A stage, and what the last GET of the job's document returned. -/
structure Phase where
  stage : Stage
  seen : Option Bytes

/-- The status documents a handler stores: from which stage, with which status and
    updates, to which stage. -/
inductive StatusWrite (codec : JsonCodec) (body : Bytes) :
    JobId → Stage → Bytes → Json.Object → Stage → Prop
  | reject {job message error} : intake codec body = .rejected job message error →
      StatusWrite codec body job .rejecting "failed" (failureUpdates message error) .finished
  | unregistered {job message} (reason) : intake codec body = .accepted job message →
      StatusWrite codec body job .dispatching "failed" (failureUpdates message reason) .closing
  | running {job message} : intake codec body = .accepted job message →
      StatusWrite codec body job .dispatching "running" (contractFields message) .working
  | done {job message} (result uploaded) : intake codec body = .accepted job message →
      (Json.array uploaded).FormedAt (fun _ => True) 2 → result.exitCode = 0 →
      StatusWrite codec body job .executed "done" (doneUpdates message result uploaded) .closing
  | unrecorded {job message} (reason) : intake codec body = .accepted job message →
      StatusWrite codec body job .unrecorded "failed" (failureUpdates message reason) .finished
  | exhausted {job message} (reason tryCount) : intake codec body = .accepted job message →
      StatusWrite codec body job (.exhausted tryCount) "failed"
        (retryUpdates message reason tryCount) .finished
  | queued {job message} (reason tryCount) : intake codec body = .accepted job message →
      StatusWrite codec body job (.requeueing tryCount) "queued"
        (retryUpdates message reason tryCount) .finished

/-- The documents of an accepted message are stored from an active stage, and after any
    status but `running` the handler has stored its last one. -/
theorem StatusWrite.active {codec : JsonCodec} {body : Bytes} {job job' : JobId}
    {message : Json.Object} {stage stage' : Stage} {status : Bytes} {updates : Json.Object}
    (h : StatusWrite codec body job' stage status updates stage')
    (haccepted : intake codec body = .accepted job message) :
    stage.isActive = true ∧ (stage'.isActive = true → status = "running") := by
  cases h with
  | reject hrejected => cases haccepted.symm.trans hrejected
  | running => exact ⟨rfl, fun _ => rfl⟩
  | unregistered | done | unrecorded | exhausted | queued => exact ⟨rfl, nofun⟩

/-- The message republished under a count. -/
def retryBody (codec : JsonCodec) (message : Json.Object) (tryCount : Int32) : Bytes :=
  Bytes.cStr (codec.serialize (.object (message.set "dlq_try_count" (.int64 tryCount.toInt64))))

/-- One effect of the handler of `body`. -/
inductive Next (worker : Worker) (body : Bytes) :
    Phase → (e : Effect) → Response e → Phase → Prop
  | neutral {φ e r} : e.isNeutral = true → Next worker body φ e r φ
  /-- the GET of `set_job_status` -/
  | load {stage seen} (job : JobId) (text : Option Bytes) :
      (intake worker.codec body).job = some job → stage ≠ .guarding →
      Next worker body ⟨stage, seen⟩ (.redisGet job.bytes) text ⟨stage, text⟩
  /-- the terminal check finds a finished job -/
  | skip {seen} (job : JobId) (message) (text : Option Bytes) :
      intake worker.codec body = .accepted job message →
      (documentStatus worker.codec text).any isTerminal = true →
      Next worker body ⟨.guarding, seen⟩ (.redisGet job.bytes) text ⟨.finished, text⟩
  /-- the terminal check finds an unfinished job -/
  | pass {seen} (job : JobId) (message) (text : Option Bytes) :
      intake worker.codec body = .accepted job message →
      (documentStatus worker.codec text).any isTerminal = false →
      Next worker body ⟨.guarding, seen⟩ (.redisGet job.bytes) text ⟨.dispatching, text⟩
  | write {stage seen stage' status updates} (job : JobId) (now : UtcTime) (saved : Bool) :
      StatusWrite worker.codec body job stage status updates stage' →
      Next worker body ⟨stage, seen⟩
        (.redisSet job.bytes (mergeStatus worker.codec seen job.bytes status updates now)
          worker.configurations.redisTtlSec) saved ⟨stage', seen⟩
  | start {seen} (job : JobId) (message executable arguments timeoutSec result) :
      intake worker.codec body = .accepted job message →
      Next worker body ⟨.working, seen⟩
        (.runProcess executable arguments (tempDirOf worker.tempDirectory job.bytes).stdoutLog
          timeoutSec) result ⟨.executed, seen⟩
  | close {seen} (job : JobId) (message) : intake worker.codec body = .accepted job message →
      Next worker body ⟨.closing, seen⟩
        (.dlqRemove (entryPath worker.configurations.dlqPath job.bytes)) () ⟨.finished, seen⟩
  | count {stage seen} (job : JobId) (message) (existing : Option Bytes) :
      intake worker.codec body = .accepted job message →
      (stage = .working ∨ stage = .executed) →
      Next worker body ⟨stage, seen⟩
        (.dlqRead (entryPath worker.configurations.dlqPath job.bytes)) existing
        ⟨.counted (nextTryCount worker.codec (inboundTryCount message) existing), seen⟩
  | unrecorded {seen tryCount} (job : JobId) (message entry) :
      intake worker.codec body = .accepted job message →
      Next worker body ⟨.counted tryCount, seen⟩
        (.dlqWrite (entryPath worker.configurations.dlqPath job.bytes) entry) false
        ⟨.unrecorded, seen⟩
  | record {seen tryCount} (job : JobId) (message reason) :
      intake worker.codec body = .accepted job message →
      Next worker body ⟨.counted tryCount, seen⟩
        (.dlqWrite (entryPath worker.configurations.dlqPath job.bytes)
          (failureEntry job.bytes tryCount reason body)) true ⟨.recorded tryCount, seen⟩
  | exhaust {seen tryCount} (job : JobId) (message) :
      intake worker.codec body = .accepted job message →
      canRetry worker.configurations.dlqMaxRetryCount tryCount = false →
      Next worker body ⟨.recorded tryCount, seen⟩
        (.dlqRemove (entryPath worker.configurations.dlqPath job.bytes)) ()
        ⟨.exhausted tryCount, seen⟩
  | send {seen tryCount} (job : JobId) (message group) :
      intake worker.codec body = .accepted job message →
      canRetry worker.configurations.dlqMaxRetryCount tryCount = true →
      Next worker body ⟨.recorded tryCount, seen⟩
        (.sqsSend (retryBody worker.codec message tryCount) group (retryId job.bytes tryCount))
        (.ok ()) ⟨.requeueing tryCount, seen⟩
  | refuse {seen tryCount} (job : JobId) (message group error) :
      intake worker.codec body = .accepted job message →
      canRetry worker.configurations.dlqMaxRetryCount tryCount = true →
      Next worker body ⟨.recorded tryCount, seen⟩
        (.sqsSend (retryBody worker.codec message tryCount) group (retryId job.bytes tryCount))
        (.error error) ⟨.refused tryCount, seen⟩
  | giveUp {seen tryCount} (job : JobId) (message) :
      intake worker.codec body = .accepted job message →
      Next worker body ⟨.refused tryCount, seen⟩
        (.dlqRemove (entryPath worker.configurations.dlqPath job.bytes)) ()
        ⟨.exhausted tryCount, seen⟩

/-- The phase in which the handler of a body starts. -/
def startPhase (codec : JsonCodec) (body : Bytes) : Phase :=
  match intake codec body with
  | .dropped => ⟨.finished, none⟩
  | .rejected .. => ⟨.rejecting, none⟩
  | .accepted .. => ⟨.guarding, none⟩

/-- The handler has returned. -/
def isFinished (φ : Phase) : Prop := φ.stage = .finished

section Follows

variable {worker : Worker} {body : Bytes}

/-- Neutral code stays where it is. -/
theorem follows_bind_quiet {α β : Type} {p : Handler α} {f : α → Handler β} {P : α → Prop}
    {post : β → Phase → Prop} {φ : Phase} (hp : Quiet (fun _ => True) P p)
    (hf : ∀ a, P a → (f a).Follows (Next worker body) post φ) :
    (p >>= f).Follows (Next worker body) post φ := by
  have hany : p.Within (fun _ _ => True) (fun e => e.isNeutral = true) P :=
    hp.weaken_ok fun e r _ => goodResponse_any e r
  rw [Prog.follows_bind]
  refine (hany.follows fun _ he _ => Next.neutral he).mono ?_
  rintro a φ' ⟨rfl, ha⟩
  exact hf a ha

theorem follows_bind_perform {β : Type} {e : Effect} {f : Response e → Handler β}
    {post : β → Phase → Prop} {φ : Phase} (he : e.isNeutral = true)
    (hf : ∀ r, (f r).Follows (Next worker body) post φ) :
    (perform e >>= f).Follows (Next worker body) post φ :=
  follows_bind_quiet (quiet_perform he fun _ _ => trivial) fun r _ => hf r

/-! ### The code follows the protocol -/

theorem setJobStatus_follows {job : JobId} {stage stage' : Stage} {status : Bytes}
    {updates : Json.Object} (hjob : (intake worker.codec body).job = some job)
    (hstage : stage ≠ .guarding)
    (hwrite : StatusWrite worker.codec body job stage status updates stage')
    (seen : Option Bytes) :
    (setJobStatus worker job.bytes status updates).Follows (Next worker body)
      (fun _ φ => φ.stage = stage') ⟨stage, seen⟩ := by
  intro text
  refine ⟨⟨stage, text⟩, .load job text hjob hstage, fun now => ?_⟩
  refine ⟨⟨stage, text⟩, .neutral rfl, fun saved => ?_⟩
  exact ⟨⟨stage', text⟩, .write job now saved hwrite, rfl⟩

theorem contractFields_set_tryCount (message : Json.Object) (value : Json Bytes) :
    contractFields (message.set "dlq_try_count" value) = contractFields message := by
  unfold contractFields taskNameField
  rw [Json.Object.get_set_ne message (show (Bytes.ofString "task") ≠ _ by decide),
    Json.Object.get_set_ne message (show (Bytes.ofString "enqueued_at") ≠ _ by decide)]

theorem retryUpdates_set_tryCount (message : Json.Object) (value : Json Bytes) (reason : Bytes)
    (tryCount : Int32) :
    retryUpdates (message.set "dlq_try_count" value) reason tryCount =
      retryUpdates message reason tryCount := by
  rw [retryUpdates, retryUpdates, failureUpdates, failureUpdates, contractFields_set_tryCount]

theorem zero_notMem_retryId (job : JobId) (tryCount : Int32) :
    (0 : UInt8) ∉ retryId job.bytes tryCount := by
  have hdash : (0 : UInt8) ∉ Bytes.ofString "-retry-" := by decide
  simp only [retryId, List.mem_append, not_or]
  exact ⟨⟨zero_notMem_jobId job, hdash⟩, Bytes.zero_notMem_decimalInt _⟩

section Accepted

variable {job : JobId} {message : Json.Object}
  (haccepted : intake worker.codec body = .accepted job message)

include haccepted

theorem job_of_accepted : (intake worker.codec body).job = some job := by
  rw [haccepted]
  rfl

/-- `execute` starts the process once at most, and only then returns a result. -/
theorem execute_follows (definition : TaskDefinition) (arguments : List Bytes)
    (inputsDir outputsDir : Bytes) (timeoutSec : Int32) (seen : Option Bytes) :
    (execute worker.configurations definition arguments inputsDir outputsDir
      (tempDirOf worker.tempDirectory job.bytes).stdoutLog timeoutSec).Follows
      (Next worker body)
      (fun result φ => φ = ⟨.executed, seen⟩ ∨ φ = ⟨.working, seen⟩ ∧ ∃ e, result = .error e)
      ⟨.working, seen⟩ := by
  refine follows_bind_perform rfl ?_
  rintro (_ | _)
  · exact Or.inr ⟨rfl, _, rfl⟩
  refine follows_bind_perform rfl ?_
  rintro (_ | _)
  · exact Or.inr ⟨rfl, _, rfl⟩
  rw [Prog.follows_bind]
  intro result
  refine ⟨⟨.executed, seen⟩, .start job message _ _ _ _ haccepted, ?_⟩
  rcases result with what | result
  · exact Or.inl rfl
  · refine follows_bind_quiet (readStdoutTail_quiet _ trivial) fun tail _ => ?_
    show Prog.Follows _ _ (ite _ _ _) _
    split <;> exact Or.inl rfl

/-- `runJob` ends with the final status written, or with an attempt to record. -/
theorem runJob_follows (task : Json.Object) (taskName : Bytes) (definition : TaskDefinition)
    (seen : Option Bytes) :
    (runJob worker job.bytes message task taskName definition
      (tempDirOf worker.tempDirectory job.bytes)).Follows (Next worker body)
      (fun result φ => (result = .ok () ∧ φ.stage = .finished) ∨
        ∃ reason, result = .error reason ∧ (φ.stage = .working ∨ φ.stage = .executed))
      ⟨.working, seen⟩ := by
  refine follows_bind_quiet (downloadInputs_quiet anyText _ _ (Json.strings_any _)) ?_
  rintro (reason | ⟨⟩) -
  · exact Or.inr ⟨reason, rfl, Or.inl rfl⟩
  refine follows_bind_quiet (taskArguments_quiet _) fun arguments _ => ?_
  refine follows_bind_quiet (taskTimeoutSec_quiet _) fun timeoutSec _ => ?_
  rw [Prog.follows_bind]
  refine (execute_follows haccepted _ _ _ _ _ seen).mono ?_
  rintro (reason | result) φ hφ
  · rcases hφ with rfl | ⟨rfl, -⟩
    · exact Or.inr ⟨reason, rfl, Or.inr rfl⟩
    · exact Or.inr ⟨reason, rfl, Or.inl rfl⟩
  obtain rfl : φ = ⟨.executed, seen⟩ := by
    rcases hφ with h | ⟨-, e, he⟩
    · exact h
    · cases he
  show Prog.Follows _ _ (ite _ _ _) _
  split
  · exact Or.inr ⟨_, rfl, Or.inr rfl⟩
  rename_i hexit
  refine follows_bind_quiet (within_atString (by rfl) _ _) fun outputPrefix _ => ?_
  refine follows_bind_quiet (uploadOutputs_quiet anyText _ _ _) ?_
  rintro (reason | uploaded) hresult
  · exact Or.inr ⟨reason, rfl, Or.inr rfl⟩
  show Prog.Follows _ _ (_ >>= _) _
  rw [Prog.follows_bind]
  refine (setJobStatus_follows (job_of_accepted haccepted) (by decide)
    (.done result uploaded haccepted (hresult.2 _ rfl) (not_not.mp hexit)) seen).mono ?_
  rintro ⟨⟩ ⟨stage, text⟩ rfl
  rw [Prog.follows_bind]
  intro _
  exact ⟨⟨.finished, text⟩, .close job message haccepted, Or.inl ⟨rfl, rfl⟩⟩

theorem isTerminalStatus_follows :
    (isTerminalStatus worker job.bytes).Follows (Next worker body)
      (fun terminal φ => φ.stage = if terminal then .finished else .dispatching)
      ⟨.guarding, none⟩ := by
  intro text
  cases hterminal : (documentStatus worker.codec text).any isTerminal with
  | true =>
    refine ⟨⟨.finished, text⟩, .skip job message text haccepted hterminal, ?_⟩
    exact (if_pos hterminal).symm
  | false =>
    refine ⟨⟨.dispatching, text⟩, .pass job message text haccepted hterminal, ?_⟩
    exact (if_neg (by rw [hterminal]; decide)).symm

theorem processJob_follows :
    (processJob worker message).Follows (Next worker body)
      (fun result φ => (result = .ok () ∧ φ.stage = .finished) ∨
        ∃ reason, result = .error reason ∧ (φ.stage = .working ∨ φ.stage = .executed))
      ⟨.guarding, none⟩ := by
  have hget := (intake_accepted.mp haccepted).2.2
  have hjob : atString message "job_id" = pure job.bytes := by simp only [atString, hget]
  unfold processJob Code.processJob
  simp only [hjob, liftM_handler, pure_bind, cStr_jobId]
  refine follows_bind_quiet (within_atObject (by rfl) _ _) fun task _ => ?_
  refine follows_bind_quiet (within_atString (by rfl) _ _) fun taskName _ => ?_
  rw [Prog.follows_bind]
  refine (isTerminalStatus_follows haccepted).mono ?_
  rintro (_ | _) ⟨stage, text⟩ hstage
  · subst hstage
    rw [if_neg Bool.false_ne_true]
    split
    · rw [Prog.follows_bind, failWithoutRetry, Prog.follows_bind]
      refine (setJobStatus_follows (job_of_accepted haccepted) (by decide)
        (.unregistered _ haccepted) text).mono ?_
      rintro ⟨⟩ ⟨stage, seen⟩ rfl _
      exact ⟨⟨.finished, seen⟩, .close job message haccepted, Or.inl ⟨rfl, rfl⟩⟩
    · rename_i definition _
      rw [Prog.follows_bind]
      refine (setJobStatus_follows (job_of_accepted haccepted) (by decide)
        (.running haccepted) text).mono ?_
      rintro ⟨⟩ ⟨stage, seen⟩ rfl
      refine follows_bind_perform rfl fun _ => ?_
      refine follows_bind_perform rfl fun _ => ?_
      rw [Prog.follows_bind]
      refine (runJob_follows haccepted _ _ _ seen).mono fun result φ hφ => ?_
      exact follows_bind_perform rfl fun _ => hφ
  · exact Or.inl ⟨rfl, hstage⟩

theorem recordFailure_follows (reason : Bytes) {stage : Stage} {seen : Option Bytes}
    (hstage : stage = .working ∨ stage = .executed) :
    (recordFailure worker.codec worker.configurations.dlqPath job.bytes body reason
      (inboundTryCount message)).Follows (Next worker body)
      (fun result φ => (∃ e, result = .error e ∧ φ = ⟨.unrecorded, seen⟩) ∨
        ∃ tryCount, result = .ok tryCount ∧ φ = ⟨.recorded tryCount, seen⟩)
      ⟨stage, seen⟩ := by
  intro existing
  refine ⟨_, .count job message existing haccepted hstage, ?_⟩
  rintro (_ | _)
  · exact ⟨⟨.unrecorded, seen⟩, .unrecorded job message _ haccepted, Or.inl ⟨_, rfl, rfl⟩⟩
  · exact ⟨_, .record job message reason haccepted, Or.inr ⟨_, rfl, rfl⟩⟩

theorem retryOrGiveUp_follows (reason : Bytes) (tryCount : Int32) (seen : Option Bytes) :
    (retryOrGiveUp worker job.bytes message reason tryCount).Follows (Next worker body)
      (fun _ φ => isFinished φ) ⟨.recorded tryCount, seen⟩ := by
  have hjob := job_of_accepted haccepted
  unfold retryOrGiveUp Code.retryOrGiveUp
  show Prog.Follows _ _ (ite _ _ _) _
  split
  · rename_i hretry
    dsimp only
    rw [backoff_bind, Prog.follows_bind, Bytes.cStr_eq_self (zero_notMem_retryId job tryCount)]
    rintro (error | ⟨⟩)
    · refine ⟨⟨.refused tryCount, seen⟩, .refuse job message _ error haccepted hretry, ?_⟩
      show Prog.Follows _ _ (_ >>= _) _
      rw [Prog.follows_bind, retryUpdates_set_tryCount]
      intro _
      refine ⟨⟨.exhausted tryCount, seen⟩, .giveUp job message haccepted, ?_⟩
      exact setJobStatus_follows hjob (by simp) (.exhausted _ tryCount haccepted) seen
    · refine ⟨⟨.requeueing tryCount, seen⟩, .send job message _ haccepted hretry, ?_⟩
      show Prog.Follows _ _ (setJobStatus _ _ _ _) _
      rw [retryUpdates_set_tryCount]
      exact setJobStatus_follows hjob (by simp) (.queued _ tryCount haccepted) seen
  · rename_i hretry
    rw [Prog.follows_bind]
    intro _
    refine ⟨⟨.exhausted tryCount, seen⟩, .exhaust job message haccepted (by simpa using hretry),
      ?_⟩
    exact setJobStatus_follows hjob (by simp) (.exhausted _ tryCount haccepted) seen

/-- The republished message is built from the body a second time. -/
theorem republishBase_eq : republishBase worker.codec job.bytes body = message := by
  simp only [republishBase, (intake_accepted.mp haccepted).1]

theorem handleProcessingFailure_follows (reason : Bytes) {φ : Phase}
    (hφ : φ.stage = .working ∨ φ.stage = .executed) :
    (handleProcessingFailure worker job.bytes body reason).Follows (Next worker body)
      (fun _ φ => isFinished φ) φ := by
  obtain ⟨stage, seen⟩ := φ
  unfold handleProcessingFailure Code.handleProcessingFailure
  rw [Prog.follows_bind, republishBase_eq haccepted]
  refine (recordFailure_follows haccepted reason hφ).mono ?_
  rintro _ _ (⟨e, rfl, rfl⟩ | ⟨tryCount, rfl, rfl⟩)
  · exact setJobStatus_follows (job_of_accepted haccepted) (by decide)
      (.unrecorded _ haccepted) seen
  · exact retryOrGiveUp_follows haccepted reason tryCount seen

end Accepted

/-! ### Whole handlers -/

theorem not_throws_setJobStatus {jobId status : Bytes} {updates : Json.Object}
    {events : List ((e : Effect) × Response e)} :
    ¬ (setJobStatus worker jobId status updates).Throws Effect.isException events := by
  intro h
  obtain ⟨_, _, rfl, hnow⟩ := (Prog.throws_perform_bind id).mp h
  obtain ⟨_, _, rfl, hset⟩ := (Prog.throws_perform_bind id).mp hnow
  obtain ⟨_, _, rfl, hend⟩ := (Prog.throws_perform_bind id).mp hset
  exact Prog.not_throws_pure hend

theorem handleMessage_dropped (hdropped : intake worker.codec body = .dropped) :
    handleMessage worker body = pure () := by
  unfold handleMessage Code.handleMessage
  split
  · rfl
  · rename_i message hparse
    have hobject : worker.codec.parseObject body = some message :=
      worker.codec.parseObject_eq_some.mpr hparse
    have hnamed : namedJob message = none := by
      unfold intake at hdropped
      rw [hobject] at hdropped
      cases hjob : namedJob message with
      | none => rfl
      | some job =>
        simp only [hjob] at hdropped
        split at hdropped <;> cases hdropped
    split
    · split
      · rename_i jobId hget
        rw [if_neg]
        intro hid
        simp [namedJob, hget, hid] at hnamed
      · rfl
    · rename_i hvalid
      obtain ⟨job, hget⟩ := jobId_of_validateRequest hvalid
      rw [namedJob_eq_some.mpr hget] at hnamed
      cases hnamed
  · rfl

section Named

variable {job : JobId} {message : Json.Object}

theorem handleMessage_rejected {error : Bytes}
    (hrejected : intake worker.codec body = .rejected job message error) :
    handleMessage worker body =
      setJobStatus worker job.bytes "failed" (failureUpdates message error) := by
  obtain ⟨hobject, hvalid, hget⟩ := intake_rejected.mp hrejected
  have hparse := worker.codec.parseObject_eq_some.mp hobject
  simp only [Code.handleMessage, hparse, hvalid, hget, job.valid, if_true,
    cStr_jobId, liftM_handler]

theorem handleMessage_accepted (haccepted : intake worker.codec body = .accepted job message) :
    handleMessage worker body = processJob worker message >>= fun result =>
      match result with
      | .ok () => pure ()
      | .error reason => handleProcessingFailure worker job.bytes body reason := by
  obtain ⟨hobject, hvalid, hget⟩ := intake_accepted.mp haccepted
  have hparse := worker.codec.parseObject_eq_some.mp hobject
  unfold handleMessage Code.handleMessage
  rw [hparse]
  dsimp only
  rw [hvalid]
  dsimp only
  refine congrArg (processJob worker message >>= ·) (funext fun result => ?_)
  cases result with
  | ok => rfl
  | error reason =>
    show (atString message "job_id" >>= fun jobId => handleProcessingFailure worker
      (Bytes.cStr jobId) body reason) = _
    rw [atString, hget]
    dsimp only
    rw [pure_bind, cStr_jobId]

end Named

/-- **The code follows the protocol**, for every body and every response. -/
theorem handleMessage_follows (worker : Worker) (body : Bytes) :
    (handleMessage worker body).Follows (Next worker body) (fun _ φ => isFinished φ)
      (startPhase worker.codec body) := by
  unfold startPhase
  cases hintake : intake worker.codec body with
  | dropped =>
    rw [handleMessage_dropped hintake]
    rfl
  | rejected job message error =>
    have hjob : (intake worker.codec body).job = some job := by
      rw [hintake]
      rfl
    rw [handleMessage_rejected hintake]
    exact setJobStatus_follows hjob (by decide) (.reject hintake) none
  | accepted job message =>
    rw [handleMessage_accepted hintake, Prog.follows_bind]
    refine (processJob_follows hintake).mono ?_
    rintro result φ (⟨rfl, hφ⟩ | ⟨reason, rfl, hφ⟩)
    · exact hφ
    · exact handleProcessingFailure_follows hintake reason hφ

end Follows

end TaskForge
