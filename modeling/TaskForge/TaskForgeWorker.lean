import TaskForge.MessageValidation
import TaskForge.TaskDLQ
import TaskForge.TaskExecutor

/-!
# The message handler

`TaskForgeWorker::handle_message` and everything it calls, in the order of the
source.  Early returns become branches; the scope guard of the temporary directory
becomes `withTempDir`.

Some of this code sleeps.  What sleeps, and what calls it, is written once, over any monad
that has the effects and the pauses, and has its names in `Code`.  `Waiting` reads it with
the pauses.  Everything else reads it without them, under the names at the end, since nothing
the handler does depends on how long it slept (`handleMessage_erases`).
-/

namespace TaskForge

/-- What the handlers of one worker share. -/
structure Worker where
  codec : JsonCodec
  configurations : Configurations
  /-- `std::filesystem::temp_directory_path()` -/
  tempDirectory : Bytes

/-- `s3_download_attempts`. -/
def s3DownloadAttempts : Nat := 3

def retryBaseDelayMs : Int32 := 1000
def retryMaxDelayMs : Int32 := 8000
def downloadBaseDelayMs : Int32 := 500
def downloadMaxDelayMs : Int32 := 4000

/-- A monad of code that may wait. -/
class Pauses (m : Type → Type) where
  /-- `std::this_thread::sleep_for(backoff_with_jitter(…))` -/
  backoff (attempt baseDelayMs maxDelayMs : Int32) : m Unit

/-- Handlers without their pauses. -/
instance : Pauses (Prog Effect Response) := ⟨fun _ _ _ => pure ()⟩

@[simp]
theorem liftM_handler {α : Type} (code : Handler α) :
    (liftM code : Prog Effect Response α) = code := rfl

@[simp]
theorem backoff_bind {α : Type} (attempt baseDelayMs maxDelayMs : Int32)
    (f : Unit → Handler α) :
    (Pauses.backoff attempt baseDelayMs maxDelayMs >>= f : Prog Effect Response α) = f () := rfl

section Code

variable {m : Type → Type} [Monad m] [MonadLiftT (Prog Effect Response) m]

/-- The first half of `contract_fields`. -/
def taskNameField (message : Json.Object) : Json.Object :=
  match message.get "task" with
  | some (.object task) =>
    match Json.Object.get task "name" with
    | some (.string name) => Json.Object.set [] "task_name" (.string name)
    | _ => []
  | _ => []

/-- `contract_fields`. -/
def contractFields (message : Json.Object) : Json.Object :=
  let fields := taskNameField message
  match message.get "enqueued_at" with
  | some (.string enqueuedAt) => fields.set "enqueued_at" (.string enqueuedAt)
  | _ => fields

/-- `%m`, `%d`, `%H`, `%M`, `%S`: two digits. -/
def twoDigits (n : Nat) : Bytes := if n < 10 then 48 :: Bytes.decimal n else Bytes.decimal n

/-- `strftime("%Y-%m-%dT%H:%M:%SZ")`. -/
def formatTimestamp (t : UtcTime) : Bytes :=
  Bytes.decimal t.year ++ 45 :: twoDigits t.month ++ 45 :: twoDigits t.day ++
    84 :: twoDigits t.hour ++ 58 :: twoDigits t.minute ++ 58 :: twoDigits t.second ++ [90]

/-- `key_filename`: what follows the last slash. -/
def keyFilename (objectKey : Bytes) : Bytes :=
  (objectKey.reverse.takeWhile (· != 47)).reverse

/-! ### Temporary directories -/

/-- `TempDirGuard`: the directories of a job. -/
structure TempDir where
  root : Bytes

def tempDirOf (tempDirectory jobId : Bytes) : TempDir :=
  ⟨joinPath (joinPath tempDirectory "taskforge") jobId⟩

def TempDir.inputs (dir : TempDir) : Bytes := joinPath dir.root "inputs"
def TempDir.outputs (dir : TempDir) : Bytes := joinPath dir.root "outputs"
def TempDir.stdoutLog (dir : TempDir) : Bytes := joinPath dir.root "stdout.log"

/-- Run a scope under the guard: directories are made before and removed after. -/
def withTempDir {α : Type} (dir : TempDir) (scope : m α) : m α := do
  perform (.createDirectories dir.inputs)
  perform (.createDirectories dir.outputs)
  let result ← scope
  perform (.removeAll dir.root)
  pure result

/-! ### Status documents -/

/-- One field of `updates`: null removes, anything else overwrites. -/
def applyUpdate (document : Json.Object) (update : Bytes × Json Bytes) : Json.Object :=
  match update.2 with
  | .null => document.erase update.1
  | value => document.set update.1 value

/-- The document `set_job_status` stores over `existing`. -/
def mergeStatus (codec : JsonCodec) (existing : Option Bytes) (jobId status : Bytes)
    (updates : Json.Object) (now : UtcTime) : Json.Object :=
  let document := (existing.bind codec.parseObject).getD []
  let document := (document.set "job_id" (.string jobId)).set "status" (.string status)
  Json.Object.set (updates.foldl applyUpdate document) "updated_at"
    (.string (formatTimestamp now))

/-- `TaskForgeWorker::set_job_status`. -/
def setJobStatus (worker : Worker) (jobId status : Bytes) (updates : Json.Object) :
    Handler Unit := do
  let existing ← perform (.redisGet jobId)
  let now ← perform .utcNow
  let _saved ← perform (.redisSet jobId (mergeStatus worker.codec existing jobId status updates now)
    worker.configurations.redisTtlSec)
  pure ()

/-- The status a stored text shows, if it is a document with a string status. -/
def documentStatus (codec : JsonCodec) (text : Option Bytes) : Option Bytes :=
  match (text.bind codec.parseObject).bind (·.get "status") with
  | some (.string status) => some status
  | _ => none

/-- `done` and `failed`. -/
def isTerminal (status : Bytes) : Bool := status == "done" || status == "failed"

/-- `TaskForgeWorker::is_terminal_status`. -/
def isTerminalStatus (worker : Worker) (jobId : Bytes) : Handler Bool := do
  let existing ← perform (.redisGet jobId)
  pure ((documentStatus worker.codec existing).any isTerminal)

/-! ### Inputs and outputs -/

variable [Pauses m]

/-- The attempts to download one object: the last error if all fail. -/
def Code.downloadAttempts (bucket objectKey localPath : Bytes) :
    (attempts : Nat) → (lastError : Bytes) → m (Except Bytes Unit)
  | 0, lastError => pure (.error lastError)
  | attempts + 1, _ => do
    match ← perform (.s3Download (Bytes.cStr bucket) (Bytes.cStr objectKey)
        (Bytes.cStr localPath)) with
    | .ok () => pure (.ok ())
    | .error error => do
      -- of three attempts, this is the one after which `attempts` are left
      Pauses.backoff (Int32.ofNat (s3DownloadAttempts - attempts)) downloadBaseDelayMs
        downloadMaxDelayMs
      Code.downloadAttempts bucket objectKey localPath attempts error

/-- The loop of `download_inputs`. -/
def Code.downloadEntries (inputsDir : Bytes) : List (Json Bytes) → m (Except Bytes Unit)
  | [] => pure (.ok ())
  | entry :: rest => do
    let entryObject ← asObject entry
    let bucket ← atString entryObject "bucket"
    let objectKey ← atString entryObject "key"
    let bucket := Bytes.cStr bucket
    let objectKey := Bytes.cStr objectKey
    let localPath := joinPath inputsDir (keyFilename objectKey)
    match ← Code.downloadAttempts bucket objectKey localPath s3DownloadAttempts [] with
    | .ok () => Code.downloadEntries inputsDir rest
    | .error lastError =>
      pure (.error (("cannot download s3 object [" : Bytes) ++ objectKey ++
        ("]: " : Bytes) ++ lastError))

/-- `TaskForgeWorker::download_inputs`. -/
def Code.downloadInputs (message : Json.Object) (inputsDir : Bytes) :
    m (Except Bytes Unit) := do
  let entries ← atArray message "download_s3"
  Code.downloadEntries inputsDir entries

/-- The loop of `upload_outputs`, over the entries of the directory.  After them it ends, or
    throws. -/
def uploadEntries (worker : Worker) (outputPrefix outputsDir : Bytes) (throws : Bool) :
    List DirectoryEntry → (results : List (Json Bytes)) →
      Handler (Except Bytes (List (Json Bytes)))
  | [], results => if throws then throwFilesystemError else pure (.ok results)
  | entry :: rest, results =>
    if entry.isRegularFile then do
      let bucket := Bytes.cStr worker.configurations.s3Bucket
      let objectKey := outputPrefix ++ entry.filename
      match ← perform (.s3Upload bucket (Bytes.cStr objectKey)
          (Bytes.cStr (joinPath outputsDir entry.filename))) with
      | .error error =>
        pure (.error (("cannot upload output [" : Bytes) ++ entry.filename ++
          ("]: " : Bytes) ++ error))
      | .ok () =>
        match ← perform (.s3Presign bucket (Bytes.cStr objectKey)
            worker.configurations.presignTtlSec) with
        | .error error =>
          pure (.error (("cannot presign output [" : Bytes) ++ entry.filename ++
            ("]: " : Bytes) ++ error))
        | .ok url =>
          uploadEntries worker outputPrefix outputsDir throws rest
            (results ++ [.object [("filename", .string entry.filename),
              ("download_url", .string url), ("method", .string "GET")]])
    else uploadEntries worker outputPrefix outputsDir throws rest results

/-- `TaskForgeWorker::upload_outputs`. -/
def uploadOutputs (worker : Worker) (outputPrefix outputsDir : Bytes) :
    Handler (Except Bytes (List (Json Bytes))) := do
  match ← perform (.listDirectory outputsDir) with
  | .error message =>
    pure (.error (("cannot iterate outputs directory: " : Bytes) ++ message))
  | .ok listing =>
    uploadEntries worker outputPrefix outputsDir listing.throws listing.entries []

/-! ### Processing -/

/-- `contract_fields` with a failure reason added. -/
def failureUpdates (message : Json.Object) (reason : Bytes) : Json.Object :=
  (contractFields message).set "failure_reason" (.string reason)

/-- `failureUpdates` with the retry count added. -/
def retryUpdates (message : Json.Object) (reason : Bytes) (tryCount : Int32) : Json.Object :=
  (failureUpdates message reason).set "retry_count" (.int64 tryCount.toInt64)

/-- The updates of a finished job. -/
def doneUpdates (message : Json.Object) (result : TaskExecutionResult)
    (uploaded : List (Json Bytes)) : Json.Object :=
  ((((contractFields message).set "exit_code" (.int64 result.exitCode.toInt64)).set
    "stdout_tail" (.string result.stdoutTail)).set
    "result_download_url" (.array uploaded)).set "failure_reason" .null

/-- `TaskForgeWorker::fail_without_retry`. -/
def failWithoutRetry (worker : Worker) (jobId : Bytes) (message : Json.Object)
    (reason : Bytes) : Handler Unit := do
  setJobStatus worker jobId "failed" (failureUpdates message reason)
  removeEntry worker.configurations.dlqPath jobId

/-- The argument strings of the task. -/
def argumentStrings : List (Json Bytes) → Handler (List Bytes)
  | [] => pure []
  | argument :: rest => do
    let s ← asString argument
    let strings ← argumentStrings rest
    pure (Bytes.cStr s :: strings)

def taskArguments (task : Json.Object) : Handler (List Bytes) :=
  match task.get "arguments" with
  | none => pure []
  | some _ => do
    let values ← atArray task "arguments"
    argumentStrings values

def taskTimeoutSec (task : Json.Object) : Handler Int32 :=
  match task.get "timeout_sec" with
  | none => pure 0
  | some _ => do
    let timeout ← atInt64 task "timeout_sec"
    pure timeout.toInt32

/-- `process_job` from the result of the execution on. -/
def finishJob (worker : Worker) (jobId : Bytes) (message : Json.Object) (taskName : Bytes)
    (dir : TempDir) : Except Bytes TaskExecutionResult → Handler (Except Bytes Unit)
  | .error reason => pure (.error reason)
  | .ok result =>
    if result.exitCode ≠ 0 then
      pure (.error (("task [" : Bytes) ++ taskName ++ ("] exited with code " : Bytes) ++
        Bytes.decimalInt result.exitCode.toInt ++ (": " : Bytes) ++ result.stdoutTail))
    else do
      let outputPrefix ← atString message "output_prefix"
      match ← uploadOutputs worker (Bytes.cStr outputPrefix) dir.outputs with
      | .error reason => pure (.error reason)
      | .ok uploaded =>
        setJobStatus worker jobId "done" (doneUpdates message result uploaded)
        removeEntry worker.configurations.dlqPath jobId
        pure (.ok ())

/-- `process_job` from the temporary directory on. -/
def Code.runJob (worker : Worker) (jobId : Bytes) (message task : Json.Object)
    (taskName : Bytes) (definition : TaskDefinition) (dir : TempDir) :
    m (Except Bytes Unit) := do
  match ← Code.downloadInputs message dir.inputs with
  | .error reason => pure (.error reason)
  | .ok () =>
    let arguments ← taskArguments task
    let timeoutSec ← taskTimeoutSec task
    let result ← execute worker.configurations definition arguments dir.inputs dir.outputs
      dir.stdoutLog timeoutSec
    finishJob worker jobId message taskName dir result

/-- `TaskForgeWorker::process_job`. -/
def Code.processJob (worker : Worker) (message : Json.Object) : m (Except Bytes Unit) := do
  let jobId ← atString message "job_id"
  let jobId := Bytes.cStr jobId
  let task ← atObject message "task"
  let taskName ← atString task "name"
  let taskName := Bytes.cStr taskName
  -- a redelivered message of a finished job is skipped
  let terminal ← isTerminalStatus worker jobId
  if terminal then pure (.ok ())
  else
    match findTask worker.configurations.taskWhitelist taskName with
    | none => do
      failWithoutRetry worker jobId message
        (("task [" : Bytes) ++ taskName ++ ("] is not registered in the whitelist" : Bytes))
      pure (.ok ())
    | some definition => do
      setJobStatus worker jobId "running" (contractFields message)
      let dir := tempDirOf worker.tempDirectory jobId
      withTempDir dir (Code.runJob worker jobId message task taskName definition dir)

/-- The deduplication id of a retry. -/
def retryId (jobId : Bytes) (tryCount : Int32) : Bytes :=
  jobId ++ ("-retry-" : Bytes) ++ Bytes.decimalInt tryCount.toInt

/-- The object `handle_processing_failure` starts its republished message from. -/
def republishBase (codec : JsonCodec) (jobId messageBody : Bytes) : Json.Object :=
  match codec.parseObject messageBody with
  | some message => message
  | none => [("job_id", .string jobId)]

/-- `dlq_try_count` of a message, zero if it has none. -/
def inboundTryCount (message : Json.Object) : Int32 :=
  match message.get "dlq_try_count" with
  | some (.int64 n) => n.toInt32
  | _ => 0

/-- `handle_processing_failure` once the failure is recorded. -/
def Code.retryOrGiveUp (worker : Worker) (jobId : Bytes) (republish : Json.Object)
    (reason : Bytes) (tryCount : Int32) : m Unit :=
  let dlqPath := worker.configurations.dlqPath
  if canRetry worker.configurations.dlqMaxRetryCount tryCount then do
    let republish := republish.set "dlq_try_count" (.int64 tryCount.toInt64)
    Pauses.backoff tryCount retryBaseDelayMs retryMaxDelayMs
    match ← perform (.sqsSend (Bytes.cStr (worker.codec.serialize (.object republish)))
        (Bytes.cStr worker.configurations.sqsMessageGroupId)
        (Bytes.cStr (retryId jobId tryCount))) with
    | .error error => do
      removeEntry dlqPath jobId
      setJobStatus worker jobId "failed" (retryUpdates republish
        (reason ++ (" (republish failed: " : Bytes) ++ error ++ (")" : Bytes)) tryCount)
    | .ok () => setJobStatus worker jobId "queued" (retryUpdates republish reason tryCount)
  else do
    removeEntry dlqPath jobId
    setJobStatus worker jobId "failed" (retryUpdates republish reason tryCount)

/-- `TaskForgeWorker::handle_processing_failure`. -/
def Code.handleProcessingFailure (worker : Worker) (jobId messageBody reason : Bytes) :
    m Unit := do
  let republish := republishBase worker.codec jobId messageBody
  match ← recordFailure worker.codec worker.configurations.dlqPath jobId messageBody reason
      (inboundTryCount republish) with
  | .error _ => setJobStatus worker jobId "failed" (failureUpdates republish reason)
  | .ok tryCount => Code.retryOrGiveUp worker jobId republish reason tryCount

/-- `TaskForgeWorker::handle_message`. -/
def Code.handleMessage (worker : Worker) (messageBody : Bytes) : m Unit :=
  match worker.codec.parse messageBody with
  -- a message that does not parse cannot succeed later either
  | none => pure ()
  | some (.object message) =>
    match validateRequest message with
    | .error error =>
      match Json.Object.get message "job_id" with
      | some (.string jobId) =>
        if isValidJobId jobId then
          setJobStatus worker (Bytes.cStr jobId) "failed" (failureUpdates message error)
        else pure ()
      | _ => pure ()
    | .ok () => do
      match ← Code.processJob worker message with
      | .ok () => pure ()
      | .error reason => do
        let jobId ← atString message "job_id"
        Code.handleProcessingFailure worker (Bytes.cStr jobId) messageBody reason
  | some _ => pure ()

end Code

/-! ### Without the pauses -/

abbrev downloadAttempts (bucket objectKey localPath : Bytes) (attempts : Nat)
    (lastError : Bytes) : Handler (Except Bytes Unit) :=
  Code.downloadAttempts bucket objectKey localPath attempts lastError

abbrev downloadEntries (inputsDir : Bytes) (entries : List (Json Bytes)) :
    Handler (Except Bytes Unit) :=
  Code.downloadEntries inputsDir entries

abbrev downloadInputs (message : Json.Object) (inputsDir : Bytes) : Handler (Except Bytes Unit) :=
  Code.downloadInputs message inputsDir

abbrev runJob (worker : Worker) (jobId : Bytes) (message task : Json.Object) (taskName : Bytes)
    (definition : TaskDefinition) (dir : TempDir) : Handler (Except Bytes Unit) :=
  Code.runJob worker jobId message task taskName definition dir

abbrev processJob (worker : Worker) (message : Json.Object) : Handler (Except Bytes Unit) :=
  Code.processJob worker message

abbrev retryOrGiveUp (worker : Worker) (jobId : Bytes) (republish : Json.Object) (reason : Bytes)
    (tryCount : Int32) : Handler Unit :=
  Code.retryOrGiveUp worker jobId republish reason tryCount

abbrev handleProcessingFailure (worker : Worker) (jobId messageBody reason : Bytes) :
    Handler Unit :=
  Code.handleProcessingFailure worker jobId messageBody reason

abbrev handleMessage (worker : Worker) (messageBody : Bytes) : Handler Unit :=
  Code.handleMessage worker messageBody

end TaskForge
