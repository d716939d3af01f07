import TaskForge.Handling
import TaskForge.JsonLiteral

/-!
# Attempts

Executions that exist.  `HandlerProtocol` bounds what a handler may do; here handlers
are carried out, for any worker and any message of the stated form: the rejection of
a message, an attempt whose executable is missing, and one that succeeds.
-/

namespace TaskForge

open Json (Object)

/-- The texts of a message are well-formed, because it was parsed. -/
theorem utf8_of_accepted {codec : JsonCodec} {body : Bytes} {job : JobId} {message : Object}
    (haccepted : intake codec body = .accepted job message) :
    (Json.object message).utf8 = true :=
  (codec.readable_of_parse _ _
    (codec.parseObject_eq_some.mp (intake_accepted.mp haccepted).1)).strings

section Attempts

variable {ι : Type} [DecidableEq ι] (g : Guarantees) (worker : Worker) (i : ι)

/-- The world after `set_job_status`. -/
@[simps! -fullyApplied redis dlq queue usedIds] def World.setStatus (w : World ι) (job : JobId)
    (status : Bytes) (updates : Object) (now : UtcTime) : World ι :=
  let document := mergeStatus worker.codec (w.redis job.bytes) job.bytes status updates now
  (((w.record (.worker i (.redisGet job.bytes) (w.redis job.bytes))).record
    (.worker i .utcNow now)).setRedis job.bytes (worker.codec.serialize (.object document))).record
      (.worker i (.redisSet job.bytes document worker.configurations.redisTtlSec) true)

theorem setJobStatus_runs (w : World ι) (job : JobId) (status : String) {updates : Object}
    (now : UtcTime) (hupdates : (Json.object updates).Readable) :
    Prog.Runs (World.effect g worker.codec i) w (setJobStatus worker job.bytes status updates)
      (w.setStatus worker i job status updates now) (.pure ()) := by
  refine .step (World.effect_redisGet _) (.step (World.effect_neutral rfl now) ?_)
  exact .step (World.effect_redisSet
    (parse_serialize_mergeStatus worker.codec _ job status now hupdates)) (.refl _ _)

/-! ### A request that needs little -/

/-- A request for a registered task, without inputs, arguments and timeout. -/
structure PlainRequest (message : Object) (definition : TaskDefinition) : Prop where
  task : ∃ task name, message.get "task" = some (.object task) ∧
    Object.get task "name" = some (.string name) ∧
    findTask worker.configurations.taskWhitelist (Bytes.cStr name) = some definition ∧
    taskArguments task = pure [] ∧ Object.get task "timeout_sec" = none
  downloads : message.get "download_s3" = some (.array [])
  outputs : ∃ outputPrefix, message.get "output_prefix" = some (.string outputPrefix)

/-- The world once the temporary directories of an attempt are made. -/
@[simps! -fullyApplied redis dlq queue usedIds] def World.begin (w : World ι) (job : JobId)
    (message : Object) (now : UtcTime) : World ι :=
  let dir := tempDirOf worker.tempDirectory job.bytes
  ((World.setStatus worker i (w.record (.worker i (.redisGet job.bytes) (w.redis job.bytes)))
    job "running" (contractFields message) now).record
      (.worker i (.createDirectories dir.inputs) ())).record
      (.worker i (.createDirectories dir.outputs) ())

variable {worker} {message : Object} {definition : TaskDefinition} {job : JobId}

/-- `process_job` up to its temporary directory, and the removal of that directory. -/
theorem processJob_runs (hplain : PlainRequest worker message definition)
    (hjob : message.get "job_id" = some (.string job.bytes))
    (hutf8 : (Json.object message).utf8 = true) (w : World ι)
    (hopen : (w.status worker.codec job).any isTerminal = false) (now : UtcTime)
    {w' : World ι} {result : Except Bytes Unit}
    (hrest : ∀ task taskName, taskArguments task = pure [] →
      Object.get task "timeout_sec" = none →
      Prog.Runs (World.effect g worker.codec i) (w.begin worker i job message now)
        (runJob worker job.bytes message task taskName definition
          (tempDirOf worker.tempDirectory job.bytes)) w' (.pure result)) :
    Prog.Runs (World.effect g worker.codec i) w (processJob worker message)
      (w'.record (.worker i (.removeAll (tempDirOf worker.tempDirectory job.bytes).root) ()))
      (.pure result) := by
  obtain ⟨task, name, htask, hname, hfind, harguments, htimeout⟩ := hplain.task
  have hid : atString message "job_id" = pure job.bytes := by simp only [atString, hjob]
  have htask' : atObject message "task" = pure task := by simp only [atObject, htask]
  have hname' : atString task "name" = pure name := by simp only [atString, hname]
  unfold processJob Code.processJob
  simp only [hid, htask', hname', liftM_handler, pure_bind, cStr_jobId]
  have hguard : (documentStatus worker.codec (w.redis job.bytes)).any isTerminal = false := hopen
  refine .bind (.bind (.perform (World.effect_redisGet job.bytes)) (.refl _ _)) ?_
  rw [hguard, if_neg Bool.false_ne_true]
  simp only [hfind]
  refine .bind (setJobStatus_runs g worker i _ job "running" now
    (formedAt_contractFields utf8Text hutf8)) ?_
  unfold withTempDir
  refine .bind (.perform (World.effect_neutral rfl ())) ?_
  refine .bind (.perform (World.effect_neutral rfl ())) ?_
  refine .bind (hrest task _ harguments htimeout) ?_
  exact .bind (.perform (World.effect_neutral rfl ())) (.refl _ _)

omit [DecidableEq ι] in
/-- The first lines of `runJob` find nothing to download, no arguments, no timeout. -/
theorem runJob_runs {effect : World ι → (e : Effect) → Response e → World ι → Prop}
    (hplain : PlainRequest worker message definition) {task : Object}
    (harguments : taskArguments task = pure [])
    (htimeout : Object.get task "timeout_sec" = none) {taskName : Bytes} {dir : TempDir}
    {w w' w'' : World ι} {result : Except Bytes TaskExecutionResult} {q : Handler (Except Bytes Unit)}
    (hexecute : Prog.Runs effect w
      (execute worker.configurations definition [] dir.inputs dir.outputs dir.stdoutLog 0) w'
      (.pure result))
    (hrest : Prog.Runs effect w' (finishJob worker job.bytes message taskName dir result) w'' q) :
    Prog.Runs effect w (runJob worker job.bytes message task taskName definition dir) w'' q := by
  have hdownloads : downloadInputs message dir.inputs = pure (.ok ()) := by
    simp only [Code.downloadInputs, atArray, hplain.downloads, liftM_handler,
      pure_bind, Code.downloadEntries]
  have htimeout' : taskTimeoutSec task = pure 0 := by simp only [taskTimeoutSec, htimeout]
  unfold runJob Code.runJob
  simp only [hdownloads, harguments, htimeout', liftM_handler, pure_bind]
  exact .bind hexecute hrest

/-! ### A missing executable -/

/-- The world after an attempt whose executable is missing. -/
@[simps! -fullyApplied redis dlq queue usedIds] def World.miss (w : World ι) (worker : Worker)
    (job : JobId) (message : Object) (definition : TaskDefinition) (now : UtcTime) : World ι :=
  ((w.begin worker i job message now).record (.worker i (.isRegularFile
    (resolveExecutable worker.configurations.rootPath definition.executable)) false)).record
    (.worker i (.removeAll (tempDirOf worker.tempDirectory job.bytes).root) ())

def missingReason (worker : Worker) (definition : TaskDefinition) : Bytes :=
  ("task executable not found: " : Bytes) ++
    resolveExecutable worker.configurations.rootPath definition.executable

theorem processJob_miss (hplain : PlainRequest worker message definition)
    (hjob : message.get "job_id" = some (.string job.bytes))
    (hutf8 : (Json.object message).utf8 = true) (w : World ι)
    (hopen : (w.status worker.codec job).any isTerminal = false) (now : UtcTime) :
    Prog.Runs (World.effect g worker.codec i) w (processJob worker message)
      (w.miss i worker job message definition now)
      (.pure (.error (missingReason worker definition))) := by
  refine processJob_runs g i hplain hjob hutf8 w hopen now fun task taskName hargs htimeout => ?_
  have hexecute : ∀ inputs outputs capture, Prog.Runs (World.effect g worker.codec i)
      (w.begin worker i job message now)
      (execute worker.configurations definition [] inputs outputs capture 0) _
      (.pure (.error (missingReason worker definition))) :=
    fun _ _ _ => .bind (.perform (World.effect_neutral rfl false)) (.refl _ _)
  exact runJob_runs hplain hargs htimeout (hexecute _ _ _) (.refl _ _)

/-! ### Success -/

/-- The world after a process that ended with code 0 and wrote nothing. -/
@[simps! -fullyApplied redis dlq queue usedIds] def World.ran (w : World ι) (worker : Worker)
    (definition : TaskDefinition) (dir : TempDir) : World ι :=
  let executable := resolveExecutable worker.configurations.rootPath definition.executable
  (((w.record (.worker i (.isRegularFile executable) true)).record
    (.worker i (.openCapture dir.stdoutLog) true)).record
    (.worker i (.runProcess executable [dir.inputs, dir.outputs] dir.stdoutLog
      (effectiveTimeout worker.configurations.defaultTimeoutSec 0)) (.ok ⟨0, false⟩))).record
    (.worker i (.readFile dir.stdoutLog) (some []))

/-- The world after an attempt that succeeds without output. -/
@[simps! -fullyApplied redis dlq queue usedIds] def World.complete (w : World ι)
    (worker : Worker) (job : JobId) (message : Object) (definition : TaskDefinition)
    (now : UtcTime) : World ι :=
  let dir := tempDirOf worker.tempDirectory job.bytes
  let ran := (w.begin worker i job message now).ran i worker definition dir
  let path := entryPath worker.configurations.dlqPath job.bytes
  let listed := ran.record (.worker i (.listDirectory dir.outputs) (.ok ⟨[], false⟩))
  (((listed.setStatus worker i job "done" (doneUpdates message ⟨0, []⟩ []) now).setEntry i path
    none).record (.worker i (.dlqRemove path) ())).record (.worker i (.removeAll dir.root) ())

theorem execute_runs (w : World ι) (dir : TempDir) :
    Prog.Runs (World.effect g worker.codec i) w
      (execute worker.configurations definition [] dir.inputs dir.outputs dir.stdoutLog 0)
      (w.ran i worker definition dir) (.pure (.ok ⟨0, []⟩)) := by
  refine .bind (.perform (World.effect_neutral rfl true)) ?_
  refine .bind (.perform (World.effect_neutral rfl true)) ?_
  refine .bind (.perform (World.effect_runProcess _ _ _ _ (.ok ⟨0, false⟩))) ?_
  exact .bind (.bind (.perform (World.effect_neutral rfl (some []))) (.refl _ _)) (.refl _ _)

theorem processJob_complete (hplain : PlainRequest worker message definition)
    (hjob : message.get "job_id" = some (.string job.bytes))
    (hutf8 : (Json.object message).utf8 = true) (w : World ι)
    (hopen : (w.status worker.codec job).any isTerminal = false) (now : UtcTime) :
    Prog.Runs (World.effect g worker.codec i) w (processJob worker message)
      (w.complete i worker job message definition now) (.pure (.ok ())) := by
  refine processJob_runs g i hplain hjob hutf8 w hopen now fun task taskName hargs htimeout => ?_
  refine runJob_runs hplain hargs htimeout (execute_runs g i _ _) ?_
  obtain ⟨outputPrefix, hprefix⟩ := hplain.outputs
  have hprefix' : atString message "output_prefix" = pure outputPrefix := by
    simp only [atString, hprefix]
  have hupdates : (Json.object (doneUpdates message ⟨0, []⟩ [])).Readable :=
    formedAt_doneUpdates utf8Text hutf8 Bytes.utf8_nil
      ((Json.formedAt_array_iff _ _).mpr (by simp))
  show Prog.Runs _ _ (atString message "output_prefix" >>= _) _ _
  rw [hprefix', pure_bind]
  refine .bind (.bind (.perform (World.effect_neutral rfl (Except.ok ⟨[], false⟩)))
    (.refl _ _)) ?_
  refine .bind (setJobStatus_runs g worker i _ job "done" now hupdates) ?_
  exact .bind (.perform (World.effect_dlqRemove _)) (.refl _ _)

/-- An unfinished plain request can be completed. -/
theorem handleMessage_complete (worker : Worker) {body : Bytes}
    (haccepted : intake worker.codec body = .accepted job message)
    (hplain : PlainRequest worker message definition) (w : World ι)
    (hopen : (w.status worker.codec job).any isTerminal = false) (now : UtcTime) :
    Prog.Runs (World.effect g worker.codec i) w (handleMessage worker body)
      (w.complete i worker job message definition now) (.pure ()) := by
  rw [handleMessage_accepted haccepted]
  exact .bind (processJob_complete g i hplain (intake_accepted.mp haccepted).2.2
    (utf8_of_accepted haccepted) w hopen now) (.refl _ _)

/-! ### Recording a failure, sending a retry -/

/-- The world after `record_failure`. -/
@[simps! -fullyApplied redis dlq queue usedIds] def World.note (w : World ι) (worker : Worker)
    (job : JobId) (tryCount : Int32) (reason body : Bytes) : World ι :=
  let path := entryPath worker.configurations.dlqPath job.bytes
  let entry := failureEntry job.bytes tryCount reason body
  ((w.record (.worker i (.dlqRead path) (w.dlq i path))).setEntry i path
    (some (worker.codec.serialize (.object entry)))).record (.worker i (.dlqWrite path entry) true)

omit [DecidableEq ι] in
theorem readable_failureEntry (job : JobId) (tryCount : Int32) {reason body : Bytes}
    (hreason : Bytes.Utf8 reason) (hbody : Bytes.Utf8 body) :
    (Json.object (failureEntry job.bytes tryCount reason body)).Readable := by
  refine (Json.formedAt_object_iff _ _).mpr ⟨by simp [failureEntry, Object.keys], ?_⟩
  have hstring : ∀ {s : Bytes} {n : Nat}, Bytes.Utf8 s → (Json.string s).ReadableAt n :=
    fun hs => (Json.formedAt_string_iff _ _).mpr hs
  simp only [failureEntry, List.forall_mem_cons]
  refine ⟨⟨Bytes.utf8_ofString _, hstring (utf8Text.jobId job)⟩,
    ⟨Bytes.utf8_ofString _, Json.formedAt_int64 _ _⟩, ⟨Bytes.utf8_ofString _, hstring hreason⟩,
    ⟨Bytes.utf8_ofString _, hstring hbody⟩, by simp⟩

variable {body : Bytes}

/-- A failed attempt, up to its record. -/
theorem handleMessage_recorded (worker : Worker)
    (haccepted : intake worker.codec body = .accepted job message)
    (hplain : PlainRequest worker message definition)
    (hreason : Bytes.Utf8 (missingReason worker definition)) (hbody : Bytes.Utf8 body)
    (w : World ι) (hopen : (w.status worker.codec job).any isTerminal = false) (now : UtcTime)
    {tryCount : Int32} (hcount : nextTryCount worker.codec (inboundTryCount message)
      (w.entry worker i job) = tryCount) :
    Prog.Runs (World.effect g worker.codec i) w (handleMessage worker body)
      ((w.miss i worker job message definition now).note i worker job tryCount
        (missingReason worker definition) body)
      (retryOrGiveUp worker job.bytes message (missingReason worker definition) tryCount) := by
  rw [handleMessage_accepted haccepted]
  refine .bind (processJob_miss g i hplain (intake_accepted.mp haccepted).2.2
    (utf8_of_accepted haccepted) w hopen now) ?_
  dsimp only [handleProcessingFailure, Code.handleProcessingFailure]
  rw [republishBase_eq haccepted]
  subst hcount
  refine .bind (.bind (.perform (World.effect_dlqRead _)) (.bind (.perform
    (World.effect_dlqWrite ?_)) (.refl _ _))) (.refl _ _)
  exact worker.codec.parse_serialize _ (readable_failureEntry job _ hreason hbody)

/-- The queue can always report a message as sent. -/
theorem exists_sqsSend (codec : JsonCodec) (w : World ι) (message group id : Bytes) :
    ∃ v, w.acts g codec i (.sqsSend message group id) (.ok ()) v ∧ v.dlq = w.dlq := by
  by_cases hused : id ∈ w.usedIds
  · exact ⟨w, Or.inr ⟨rfl, Or.inl hused⟩, rfl⟩
  · exact ⟨w.enqueue message id, Or.inl ⟨hused, rfl⟩, rfl⟩

/-- A retry that the queue reports as sent. -/
theorem retryOrGiveUp_runs {tryCount : Int32} {reason : Bytes}
    (hutf8 : (Json.object message).utf8 = true) (hreason : Bytes.Utf8 reason)
    (hcan : canRetry worker.configurations.dlqMaxRetryCount tryCount = true)
    {w v : World ι} (now : UtcTime)
    (hsend : w.acts g worker.codec i (.sqsSend (retryBody worker.codec message tryCount)
      (Bytes.cStr worker.configurations.sqsMessageGroupId) (retryId job.bytes tryCount))
      (.ok ()) v) :
    Prog.Runs (World.effect g worker.codec i) w
      (retryOrGiveUp worker job.bytes message reason tryCount)
      ((v.record (.worker i (.sqsSend (retryBody worker.codec message tryCount)
        (Bytes.cStr worker.configurations.sqsMessageGroupId) (retryId job.bytes tryCount))
        (.ok ()))).setStatus worker i job "queued" (retryUpdates message reason tryCount) now)
      (.pure ()) := by
  unfold retryOrGiveUp Code.retryOrGiveUp
  dsimp only
  rw [if_pos hcan, backoff_bind, Bytes.cStr_eq_self (zero_notMem_retryId job tryCount)]
  refine .bind (.perform ⟨v, hsend, rfl⟩) ?_
  show Prog.Runs _ _ (setJobStatus _ _ _ _) _ _
  rw [retryUpdates_set_tryCount]
  exact setJobStatus_runs g worker i _ job "queued" now
    (formedAt_retryUpdates utf8Text hutf8 hreason)

end Attempts

/-- What is stored for a rejected message can be read back. -/
theorem readable_rejection {codec : JsonCodec} {body : Bytes} {job : JobId} {message : Object}
    {error : Bytes} (hrejected : intake codec body = .rejected job message error) :
    (Json.object (failureUpdates message error)).Readable := by
  obtain ⟨hobject, hvalid, -⟩ := intake_rejected.mp hrejected
  have hutf8 := (codec.readable_of_parse _ _ (codec.parseObject_eq_some.mp hobject)).strings
  exact formedAt_failureUpdates utf8Text hutf8 (validateRequest_text utf8Text hutf8 error hvalid)

/-- The terminal check is the first effect of a handler, and `running` is written next. -/
theorem handleMessage_guard {worker : Worker} {body : Bytes} {job : JobId} {message : Object}
    {definition : TaskDefinition} (haccepted : intake worker.codec body = .accepted job message)
    (hplain : PlainRequest worker message definition) :
    ∃ k : Option Bytes → Handler Unit,
      handleMessage worker body = .step (.redisGet job.bytes) k ∧
      ∀ text, (documentStatus worker.codec text).any isTerminal = false →
        ∃ f, k text = setJobStatus worker job.bytes "running" (contractFields message) >>= f := by
  obtain ⟨-, -, hjob⟩ := intake_accepted.mp haccepted
  obtain ⟨task, name, htask, hname, hfind, -⟩ := hplain.task
  have hid : atString message "job_id" = pure job.bytes := by simp only [atString, hjob]
  have htask' : atObject message "task" = pure task := by simp only [atObject, htask]
  have hname' : atString task "name" = pure name := by simp only [atString, hname]
  rw [handleMessage_accepted haccepted]
  unfold processJob Code.processJob
  simp only [hid, htask', hname', liftM_handler, pure_bind, cStr_jobId]
  refine ⟨_, rfl, fun text hopen => ?_⟩
  simp only [hfind]
  show ∃ f, ((ite ((documentStatus worker.codec text).any isTerminal = true) _ _ :
    Handler (Except Bytes Unit)) >>= _ : Handler Unit) = _
  rw [hopen, if_neg Bool.false_ne_true, bind_assoc]
  exact ⟨_, rfl⟩

/-! ### Statuses -/

section Status

variable {ι : Type} (worker : Worker) (i : ι) (w : World ι) (job : JobId)

/-- The status that was set is the status that is read. -/
theorem World.status_setStatus (status : String) {updates : Object} (now : UtcTime)
    (hproper : ProperUpdates updates) (hupdates : (Json.object updates).Readable) :
    (w.setStatus worker i job status updates now).status worker.codec job =
      some (Bytes.ofString status) := by
  unfold World.status
  rw [World.setStatus_redis, Function.update_self]
  exact documentStatus_eq (parse_serialize_mergeStatus worker.codec _ job status now hupdates)
    (get_mergeStatus_status hproper.nodup hproper.status)

theorem World.status_miss [DecidableEq ι] {message : Object} (definition : TaskDefinition)
    (now : UtcTime) (hutf8 : (Json.object message).utf8 = true) :
    (w.miss i worker job message definition now).status worker.codec job =
      some ("running" : Bytes) :=
  World.status_setStatus worker i _ job "running" now (contractFields_proper message)
    (formedAt_contractFields utf8Text hutf8)

theorem World.status_complete [DecidableEq ι] {message : Object} (definition : TaskDefinition)
    (now : UtcTime) (hutf8 : (Json.object message).utf8 = true) :
    (w.complete i worker job message definition now).status worker.codec job =
      some ("done" : Bytes) := by
  have hupdates : (Json.object (doneUpdates message ⟨0, []⟩ [])).Readable :=
    formedAt_doneUpdates utf8Text hutf8 Bytes.utf8_nil
      ((Json.formedAt_array_iff _ _).mpr (by simp))
  exact World.status_setStatus worker i _ job "done" now (doneUpdates_proper _ _ _) hupdates

end Status

/-! ### Whole handlers -/

section Handled

variable (g : Guarantees) (quiet : Prop) (worker : Worker) {body : Bytes} {job : JobId}
  {message : Object} (w : World Unit)

/-- A message that violates the schema and names a job can always be handled. -/
theorem handled_rejected {error : Bytes}
    (hrejected : intake worker.codec body = .rejected job message error) :
    ∃ w', Handled g quiet worker body w w' ∧
      w'.status worker.codec job = some ("failed" : Bytes) := by
  have hupdates := readable_rejection hrejected
  refine ⟨w.setStatus worker () job "failed" (failureUpdates message error) sampleTime,
    ?_, ?_⟩
  · unfold Handled
    rw [handleMessage_rejected hrejected]
    exact Prog.Runs.exec (setJobStatus_runs g worker () w job "failed" _ hupdates)
  · exact World.status_setStatus worker () w job "failed" _ (failureUpdates_proper _ _) hupdates

/-- An unfinished plain request can be completed. -/
theorem handled_complete {definition : TaskDefinition}
    (haccepted : intake worker.codec body = .accepted job message)
    (hplain : PlainRequest worker message definition)
    (hopen : (w.status worker.codec job).any isTerminal = false) :
    ∃ w', Handled g quiet worker body w w' ∧
      w'.status worker.codec job = some ("done" : Bytes) := by
  have hruns := handleMessage_complete g () worker haccepted hplain w hopen sampleTime
  exact ⟨_, Prog.Runs.exec hruns,
    World.status_complete worker () w job definition _ (utf8_of_accepted haccepted)⟩

/-- A plain request whose executable is missing can be put back into the queue. -/
theorem handled_retried {definition : TaskDefinition}
    (haccepted : intake worker.codec body = .accepted job message)
    (hplain : PlainRequest worker message definition)
    (hopen : (w.status worker.codec job).any isTerminal = false)
    (hreason : Bytes.Utf8 (missingReason worker definition)) (hbody : Bytes.Utf8 body)
    (hcan : canRetry worker.configurations.dlqMaxRetryCount
      (nextTryCount worker.codec (inboundTryCount message) (w.entry worker () job)) = true) :
    ∃ w', Handled g quiet worker body w w' ∧
      w'.status worker.codec job = some ("queued" : Bytes) ∧ w'.entry worker () job ≠ none := by
  have hutf8 := utf8_of_accepted haccepted
  generalize hcount : nextTryCount worker.codec (inboundTryCount message)
    (w.entry worker () job) = tryCount at hcan
  have hrecorded := handleMessage_recorded g () worker haccepted hplain hreason hbody w hopen
    sampleTime hcount
  obtain ⟨v, hsend, hdlq⟩ := exists_sqsSend g () worker.codec _
    (retryBody worker.codec message tryCount)
    (Bytes.cStr worker.configurations.sqsMessageGroupId) (retryId job.bytes tryCount)
  have hsent := retryOrGiveUp_runs g () hutf8 hreason hcan sampleTime hsend
  refine ⟨_, Prog.Runs.exec (hrecorded.trans hsent), ?_, ?_⟩
  · exact World.status_setStatus worker () _ job "queued" _ (retryUpdates_proper _ _ _)
      (formedAt_retryUpdates utf8Text hutf8 hreason)
  · simp [World.entry, hdlq]

end Handled

/-! ### A worker to run -/

/-- A body is taken for the object it was written from. -/
theorem intake_serialize (codec : JsonCodec) {message : Object} {job : JobId}
    (hreadable : (Json.object message).Readable) (hvalid : validateRequest message = .ok ())
    (hjob : message.get "job_id" = some (.string job.bytes)) :
    intake codec (codec.serialize (.object message)) = .accepted job message :=
  intake_accepted.mpr
    ⟨codec.parseObject_eq_some.mpr (codec.parse_serialize _ hreadable), hvalid, hjob⟩

def echoTask : TaskDefinition := ⟨"echo", "tasks/echo", "prints its arguments"⟩

/-- A worker for one task that reads and writes JSON as the standard says. -/
def echoWorker (maxRetryCount : Int32) : Worker where
  codec := JsonText.codec
  configurations := Settings.validateConfiguration
    { Settings.default with taskWhitelist := [echoTask], dlqMaxRetryCount := maxRetryCount }
  tempDirectory := "/tmp"

/-- A request for that task. -/
def echoMessage (job : JobId) : Object :=
  [("job_id", .string job.bytes), ("mode", .string "execute"),
    ("task", .object [("name", .string "echo")]), ("download_s3", .array []),
    ("output_prefix", .string "outputs/")]

theorem echoMessage_readable (job : JobId) : (Json.object (echoMessage job)).Readable := by
  have hjob : Bytes.Utf8 job.bytes := utf8Text.jobId job
  refine ⟨?_, ?_, ?_⟩
  · simp [Json.strings, Json.stringsFields, Json.stringsList, echoMessage, hjob,
      Bytes.utf8_ofString]
  · simp [Json.canonical, Json.canonicalFields, Json.canonicalList, echoMessage]
  · simp [Json.depth, Json.depthFields, Json.depthList, echoMessage, Json.maxDepth]

theorem requireNonEmptyString_jobId {message : Object} {job : JobId} {error : Bytes}
    (hget : message.get "job_id" = some (.string job.bytes)) :
    requireNonEmptyString message "job_id" error = .ok () := by
  have hne : job.bytes.isEmpty = false := by
    have := job.valid
    simp only [isValidJobId, Bool.and_eq_true, Bool.not_eq_true', Bool.or_eq_false_iff] at this
    exact this.1.1
  simp [requireNonEmptyString, hget, hne]

theorem checkJobId_eq_ok {message : Object} {job : JobId}
    (hget : message.get "job_id" = some (.string job.bytes)) : checkJobId message = .ok () := by
  simp [checkJobId, hget, job.valid]

theorem echoMessage_valid (job : JobId) : validateRequest (echoMessage job) = .ok () := by
  have hget : (echoMessage job).get "job_id" = some (.string job.bytes) := rfl
  unfold validateRequest
  rw [requireNonEmptyString_jobId hget, checkJobId_eq_ok hget]
  rfl

theorem echoMessage_accepted (codec : JsonCodec) (job : JobId) :
    intake codec (codec.serialize (.object (echoMessage job))) =
      .accepted job (echoMessage job) :=
  intake_serialize codec (echoMessage_readable job) (echoMessage_valid job) rfl

def sampleJob : JobId := ⟨"j", by decide⟩

def otherJob : JobId := ⟨"k", by decide⟩

/-- The body of the sample request. -/
def sampleBody : Bytes := JsonText.codec.serialize (.object (echoMessage sampleJob))

theorem sampleBody_accepted :
    intake JsonText.codec sampleBody = .accepted sampleJob (echoMessage sampleJob) :=
  echoMessage_accepted JsonText.codec sampleJob

/-- A message that names its job and nothing else. -/
def bareMessage (job : JobId) : Object := [("job_id", .string job.bytes)]

theorem bareMessage_rejected (codec : JsonCodec) (job : JobId) :
    intake codec (codec.serialize (.object (bareMessage job))) =
      .rejected job (bareMessage job) "mode is required and must be a string" := by
  have hget : (bareMessage job).get "job_id" = some (.string job.bytes) := rfl
  have hreadable : (Json.object (bareMessage job)).Readable :=
    formedAt_set_string utf8Text (o := []) ⟨rfl, rfl, by decide⟩ "job_id" (utf8Text.jobId job)
  have hparse := codec.parseObject_eq_some.mpr (codec.parse_serialize _ hreadable)
  refine intake_rejected.mpr ⟨hparse, ?_, hget⟩
  unfold validateRequest
  rw [requireNonEmptyString_jobId hget, checkJobId_eq_ok hget]
  rfl

theorem echoMessage_plain (maxRetryCount : Int32) (job : JobId) :
    PlainRequest (echoWorker maxRetryCount) (echoMessage job) echoTask where
  task := ⟨[("name", .string "echo")], "echo", rfl, rfl, rfl, rfl, rfl⟩
  downloads := rfl
  outputs := ⟨"outputs/", rfl⟩

end TaskForge
