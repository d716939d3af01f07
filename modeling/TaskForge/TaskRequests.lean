import TaskForge.Attempts

/-!
# What an accepted message asks for

The accessors of `boost::json` throw, and no handler catches.  The checks of
`validate_request` are what makes every access of the later code succeed.

`TaskRequest` is a message with its fields taken out, and `Asks` says that a message
holds them.  Every accepted message asks for something (`asks_of_validateRequest`), and
for a message that does, `processJob` is code without accesses (`processJob_eq`).
Where the source guards an access by `contains` and a test of the kind, the guards and
the accesses behind them are written out here once more, as the source has them.
-/

namespace TaskForge

open Json (Object)

/-! ### Guarded accesses -/

/-- `o.contains(key)` -/
def containsKey (o : Object) (key : Bytes) : Bool := (o.get key).isSome

/-- `o.at(key)` -/
def atValue (o : Object) (key : Bytes) : Handler (Json Bytes) :=
  match o.get key with
  | some value => pure value
  | none => throwUncaught

def isString : Json Bytes → Bool
  | .string _ => true
  | _ => false

def isObject : Json Bytes → Bool
  | .object _ => true
  | _ => false

def isInt64 : Json Bytes → Bool
  | .int64 _ => true
  | _ => false

/-- `o.contains(key) && o.at(key).is_kind()` -/
def containsKind (isKind : Json Bytes → Bool) (o : Object) (key : Bytes) : Handler Bool :=
  if containsKey o key then do
    let value ← atValue o key
    pure (isKind value)
  else pure false

/-- The first half of `contract_fields`, access by access. -/
def taskNameAccesses (message : Object) : Handler Object := do
  if ← containsKind isObject message "task" then
    let task ← atObject message "task"
    if ← containsKind isString task "name" then
      let name ← atValue task "name"
      pure (Object.set [] "task_name" name)
    else pure []
  else pure []

/-- `contract_fields`, access by access. -/
def contractFieldsAccesses (message : Object) : Handler Object := do
  let fields ← taskNameAccesses message
  if ← containsKind isString message "enqueued_at" then
    let enqueuedAt ← atValue message "enqueued_at"
    pure (fields.set "enqueued_at" enqueuedAt)
  else pure fields

/-- The read of `dlq_try_count` in `handle_processing_failure`, access by access. -/
def inboundTryCountAccesses (republish : Object) : Handler Int32 := do
  if ← containsKind isInt64 republish "dlq_try_count" then
    let count ← atInt64 republish "dlq_try_count"
    pure count.toInt32
  else pure 0

/-- The branch of `handle_message` for a message that violates the schema. -/
def rejectMessage (worker : Worker) (message : Object) (error : Bytes) : Handler Unit := do
  if ← containsKind isString message "job_id" then
    let jobId ← atString message "job_id"
    if isValidJobId jobId then
      let fields ← contractFieldsAccesses message
      setJobStatus worker (Bytes.cStr jobId) "failed"
        (fields.set "failure_reason" (.string error))
    else pure ()
  else pure ()

/-- The branch of `handle_message` for a job that could not be processed. -/
def failMessage (worker : Worker) (message : Object) (messageBody reason : Bytes) :
    Handler Unit := do
  let jobId ← atString message "job_id"
  handleProcessingFailure worker (Bytes.cStr jobId) messageBody reason

section Guarded

variable {o : Object} {key : Bytes} {isKind : Json Bytes → Bool}

theorem containsKind_some {value : Json Bytes} (h : o.get key = some value) :
    containsKind isKind o key = pure (isKind value) := by
  simp only [containsKind, containsKey, atValue, h, Option.isSome_some, if_true]
  exact pure_bind _ _

theorem containsKind_none (h : o.get key = none) : containsKind isKind o key = pure false := by
  simp only [containsKind, containsKey, h, Option.isSome_none, Bool.false_eq_true, if_false]

theorem atValue_some {value : Json Bytes} (h : o.get key = some value) :
    atValue o key = pure value := by
  simp only [atValue, h]

theorem atString_some {s : Bytes} (h : o.get key = some (.string s)) :
    atString o key = pure s := by
  simp only [atString, h]

theorem atObject_some {o' : Object} (h : o.get key = some (.object o')) :
    atObject o key = pure o' := by
  simp only [atObject, h]

theorem atArray_some {values : List (Json Bytes)} (h : o.get key = some (.array values)) :
    atArray o key = pure values := by
  simp only [atArray, h]

theorem atInt64_some {n : Int64} (h : o.get key = some (.int64 n)) :
    atInt64 o key = pure n := by
  simp only [atInt64, h]

end Guarded

/-- A guard lets only values through whose access succeeds. -/
theorem taskNameAccesses_eq (message : Object) :
    taskNameAccesses message = pure (taskNameField message) := by
  unfold taskNameAccesses taskNameField
  cases htask : message.get "task" with
  | none => rw [containsKind_none htask]; rfl
  | some value =>
    rw [containsKind_some htask]
    cases value with
    | object task =>
      rw [atObject_some htask]
      simp only [isObject, pure_bind, if_true]
      cases hname : Object.get task "name" with
      | none => rw [containsKind_none hname]; rfl
      | some name =>
        rw [containsKind_some hname, atValue_some hname]
        cases name <;> rfl
    | _ => rfl

theorem contractFieldsAccesses_eq (message : Object) :
    contractFieldsAccesses message = pure (contractFields message) := by
  unfold contractFieldsAccesses contractFields
  rw [taskNameAccesses_eq, pure_bind]
  cases hget : message.get "enqueued_at" with
  | none => rw [containsKind_none hget]; rfl
  | some value =>
    rw [containsKind_some hget, atValue_some hget]
    cases value <;> rfl

theorem inboundTryCountAccesses_eq (republish : Object) :
    inboundTryCountAccesses republish = pure (inboundTryCount republish) := by
  unfold inboundTryCountAccesses inboundTryCount
  cases hget : republish.get "dlq_try_count" with
  | none => rw [containsKind_none hget]; rfl
  | some value =>
    rw [containsKind_some hget]
    cases value with
    | int64 n => rw [atInt64_some hget]; rfl
    | _ => rfl

theorem rejectMessage_eq (worker : Worker) (message : Object) (error : Bytes) :
    rejectMessage worker message error =
      match message.get "job_id" with
      | some (.string jobId) =>
        if isValidJobId jobId then
          setJobStatus worker (Bytes.cStr jobId) "failed" (failureUpdates message error)
        else pure ()
      | _ => pure () := by
  unfold rejectMessage
  cases hget : message.get "job_id" with
  | none => rw [containsKind_none hget]; rfl
  | some value =>
    rw [containsKind_some hget]
    cases value with
    | string jobId =>
      rw [atString_some hget, contractFieldsAccesses_eq]
      rfl
    | _ => rfl

/-! ### Requests -/

/-- An entry of `download_s3`, as far as the worker reads it. -/
structure Download where
  bucket : Bytes
  key : Bytes
deriving DecidableEq, Repr

/-- What a message asks the worker to do. -/
structure TaskRequest where
  taskName : Bytes
  arguments : List Bytes
  timeoutSec : Option Int64
  downloads : List Download
  outputPrefix : Bytes
deriving DecidableEq

/-- The entry of an array `download_s3` that names this object. -/
def Download.Names (download : Download) (entry : Json Bytes) : Prop :=
  ∃ fields : Object, entry = .object fields ∧
    fields.get "bucket" = some (.string download.bucket) ∧
    fields.get "key" = some (.string download.key)

/-- The task object asks for this. -/
structure TaskAsks (task : Object) (request : TaskRequest) : Prop where
  name : task.get "name" = some (.string request.taskName)
  arguments : task.get "arguments" = none ∧ request.arguments = [] ∨
    task.get "arguments" = some (.array (request.arguments.map .string))
  timeoutSec : task.get "timeout_sec" = request.timeoutSec.map .int64

/-- The message asks for this, for this job. -/
structure Asks (message : Object) (job : JobId) (request : TaskRequest) : Prop where
  job : message.get "job_id" = some (.string job.bytes)
  task : ∃ task, message.get "task" = some (.object task) ∧ TaskAsks task request
  downloads : ∃ entries, message.get "download_s3" = some (.array entries) ∧
    List.Forall₂ Download.Names request.downloads entries
  outputPrefix : message.get "output_prefix" = some (.string request.outputPrefix)

/-! ### The checks cover the accesses -/

theorem checkArgumentList_ok {values : List (Json Bytes)}
    (h : checkArgumentList values = .ok ()) :
    ∃ arguments : List Bytes, values = arguments.map .string := by
  induction values with
  | nil => exact ⟨[], rfl⟩
  | cons value rest ih =>
    cases value with
    | string s =>
      obtain ⟨arguments, rfl⟩ := ih h
      exact ⟨s :: arguments, rfl⟩
    | _ => cases h

theorem checkArguments_ok {task : Object} (h : checkArguments task = .ok ()) :
    ∃ arguments : List Bytes, task.get "arguments" = none ∧ arguments = [] ∨
      task.get "arguments" = some (.array (arguments.map .string)) := by
  unfold checkArguments at h
  split at h
  · rename_i hget
    exact ⟨[], Or.inl ⟨hget, rfl⟩⟩
  · rename_i values hget
    obtain ⟨arguments, rfl⟩ := checkArgumentList_ok h
    exact ⟨arguments, Or.inr hget⟩
  · cases h

theorem checkTimeout_ok {task : Object} (h : checkTimeout task = .ok ()) :
    ∃ timeoutSec : Option Int64, task.get "timeout_sec" = timeoutSec.map .int64 := by
  unfold checkTimeout at h
  split at h
  · rename_i hget
    exact ⟨none, hget⟩
  · rename_i n hget
    exact ⟨some n, hget⟩
  · cases h

theorem checkTask_ok {message : Object} (h : checkTask message = .ok ()) :
    ∃ task name arguments timeoutSec, message.get "task" = some (.object task) ∧
      ∀ downloads outputPrefix,
        TaskAsks task ⟨name, arguments, timeoutSec, downloads, outputPrefix⟩ := by
  unfold checkTask at h
  split at h
  · rename_i task hget
    obtain ⟨_, hname, h⟩ := bind_ok h
    obtain ⟨_, harguments, htimeout⟩ := bind_ok h
    obtain ⟨name, hname, -⟩ := requireNonEmptyString_ok hname
    obtain ⟨arguments, harguments⟩ := checkArguments_ok harguments
    obtain ⟨timeoutSec, htimeout⟩ := checkTimeout_ok htimeout
    exact ⟨task, name, arguments, timeoutSec, hget, fun _ _ => ⟨hname, harguments, htimeout⟩⟩
  · cases h

theorem checkDownload_ok {entry : Json Bytes} (h : checkDownload entry = .ok ()) :
    ∃ download : Download, download.Names entry := by
  unfold checkDownload at h
  split at h
  · obtain ⟨_, hbucket, h⟩ := bind_ok h
    obtain ⟨_, hkey, -⟩ := bind_ok h
    obtain ⟨bucket, hbucket, -⟩ := requireNonEmptyString_ok hbucket
    obtain ⟨key, hkey, -⟩ := requireNonEmptyString_ok hkey
    exact ⟨⟨bucket, key⟩, _, rfl, hbucket, hkey⟩
  · cases h

theorem checkDownloadList_ok {entries : List (Json Bytes)}
    (h : checkDownloadList entries = .ok ()) :
    ∃ downloads : List Download, List.Forall₂ Download.Names downloads entries := by
  induction entries with
  | nil => exact ⟨[], .nil⟩
  | cons entry rest ih =>
    obtain ⟨_, hentry, hrest⟩ := bind_ok h
    obtain ⟨download, hnames⟩ := checkDownload_ok hentry
    obtain ⟨downloads, hall⟩ := ih hrest
    exact ⟨download :: downloads, .cons hnames hall⟩

theorem checkDownloads_ok {message : Object} (h : checkDownloads message = .ok ()) :
    ∃ entries downloads, message.get "download_s3" = some (.array entries) ∧
      List.Forall₂ Download.Names downloads entries := by
  unfold checkDownloads at h
  split at h
  · rename_i entries hget
    obtain ⟨downloads, hall⟩ := checkDownloadList_ok h
    exact ⟨entries, downloads, hget, hall⟩
  · cases h

/-- Every accepted message asks for something. -/
theorem asks_of_validateRequest {message : Object} (h : validateRequest message = .ok ()) :
    ∃ job request, Asks message job request := by
  obtain ⟨job, hjob⟩ := jobId_of_validateRequest h
  obtain ⟨_, -, h⟩ := bind_ok h
  obtain ⟨_, -, h⟩ := bind_ok h
  obtain ⟨_, -, h⟩ := bind_ok h
  obtain ⟨_, htask, h⟩ := bind_ok h
  obtain ⟨_, hdownloads, hprefix⟩ := bind_ok h
  obtain ⟨task, name, arguments, timeoutSec, htask, hasks⟩ := checkTask_ok htask
  obtain ⟨entries, downloads, hdownloads, hnames⟩ := checkDownloads_ok hdownloads
  obtain ⟨outputPrefix, hprefix, -⟩ := requireNonEmptyString_ok hprefix
  exact ⟨job, ⟨name, arguments, timeoutSec, downloads, outputPrefix⟩, hjob,
    ⟨task, htask, hasks _ _⟩, ⟨entries, hdownloads, hnames⟩, hprefix⟩

theorem Download.Names.unique {d d' : Download} {entry : Json Bytes} (h : d.Names entry)
    (h' : d'.Names entry) : d = d' := by
  obtain ⟨fields, rfl, hbucket, hkey⟩ := h
  obtain ⟨fields', heq, hbucket', hkey'⟩ := h'
  cases heq
  cases d
  cases d'
  simp only [hbucket, hkey, Option.some.injEq, Json.string.injEq] at hbucket' hkey'
  rw [hbucket', hkey']

theorem TaskAsks.unique {task : Object} {request request' : TaskRequest}
    (h : TaskAsks task request) (h' : TaskAsks task request') :
    request.taskName = request'.taskName ∧ request.arguments = request'.arguments ∧
      request.timeoutSec = request'.timeoutSec := by
  refine ⟨?_, ?_, ?_⟩
  · have hname := h.name.symm.trans h'.name
    simpa using hname
  · rcases h.arguments with ⟨hget, hnil⟩ | hget <;> rcases h'.arguments with ⟨hget', hnil'⟩ | hget'
    · rw [hnil, hnil']
    · cases hget.symm.trans hget'
    · cases hget.symm.trans hget'
    · have hvalues := hget.symm.trans hget'
      simp only [Option.some.injEq, Json.array.injEq] at hvalues
      exact List.map_injective_iff.mpr (fun _ _ heq => Json.string.inj heq) hvalues
  · have htimeout := h.timeoutSec.symm.trans h'.timeoutSec
    exact Option.map_injective (fun _ _ heq => Json.int64.inj heq) htimeout

theorem asks_of_accepted {codec : JsonCodec} {body : Bytes} {job : JobId} {message : Object}
    (h : intake codec body = .accepted job message) : ∃ request, Asks message job request := by
  obtain ⟨-, hvalid, hjob⟩ := intake_accepted.mp h
  obtain ⟨job', request, hasks⟩ := asks_of_validateRequest hvalid
  obtain rfl : job = job' :=
    JobId.ext (Json.string.inj (Option.some.inj (hjob.symm.trans hasks.job)))
  exact ⟨request, hasks⟩

/-- A message asks for one thing only. -/
theorem Asks.unique {message : Object} {job job' : JobId} {request request' : TaskRequest}
    (h : Asks message job request) (h' : Asks message job' request') :
    job' = job ∧ request' = request := by
  have hjob := h'.job.symm.trans h.job
  obtain ⟨task, hget, htask⟩ := h.task
  obtain ⟨task', hget', htask'⟩ := h'.task
  cases hget.symm.trans hget'
  obtain ⟨hname, harguments, htimeout⟩ := htask'.unique htask
  obtain ⟨entries, hentries, hnames⟩ := h.downloads
  obtain ⟨entries', hentries', hnames'⟩ := h'.downloads
  cases hentries.symm.trans hentries'
  have hdownloads : request'.downloads = request.downloads :=
    List.left_unique_forall₂' (fun _ _ _ hnames hnames' => hnames.unique hnames') hnames' hnames
  have hprefix := h'.outputPrefix.symm.trans h.outputPrefix
  simp only [Option.some.injEq, Json.string.injEq] at hjob hprefix
  refine ⟨JobId.ext hjob, ?_⟩
  cases request
  cases request'
  simp_all

/-! ### The code without its accesses -/

/-- `download_inputs` for the downloads of a request. -/
def fetchDownloads (inputsDir : Bytes) : List Download → Handler (Except Bytes Unit)
  | [] => pure (.ok ())
  | download :: rest => do
    let bucket := Bytes.cStr download.bucket
    let objectKey := Bytes.cStr download.key
    let localPath := joinPath inputsDir (keyFilename objectKey)
    match ← downloadAttempts bucket objectKey localPath s3DownloadAttempts [] with
    | .ok () => fetchDownloads inputsDir rest
    | .error lastError =>
      pure (.error (("cannot download s3 object [" : Bytes) ++ objectKey ++
        ("]: " : Bytes) ++ lastError))

/-- The timeout handed to the executor: zero without one. -/
def TaskRequest.timeout (request : TaskRequest) : Int32 :=
  match request.timeoutSec with
  | none => 0
  | some timeout => timeout.toInt32

/-- The execution and the uploads of `process_job`, for a request. -/
def executeAndUpload (worker : Worker) (request : TaskRequest) (definition : TaskDefinition)
    (dir : TempDir) : Handler (Except Bytes (TaskExecutionResult × List (Json Bytes))) := do
  match ← execute worker.configurations definition (request.arguments.map Bytes.cStr)
      dir.inputs dir.outputs dir.stdoutLog request.timeout with
  | .error reason => pure (.error reason)
  | .ok result =>
    if result.exitCode ≠ 0 then
      pure (.error (("task [" : Bytes) ++ Bytes.cStr request.taskName ++
        ("] exited with code " : Bytes) ++ Bytes.decimalInt result.exitCode.toInt ++
        (": " : Bytes) ++ result.stdoutTail))
    else
      match ← uploadOutputs worker (Bytes.cStr request.outputPrefix) dir.outputs with
      | .error reason => pure (.error reason)
      | .ok uploaded => pure (.ok (result, uploaded))

/-- The attempt of `process_job` at a request: the downloads, then the rest. -/
def attemptRequest (worker : Worker) (request : TaskRequest) (definition : TaskDefinition)
    (dir : TempDir) : Handler (Except Bytes (TaskExecutionResult × List (Json Bytes))) := do
  match ← fetchDownloads dir.inputs request.downloads with
  | .error reason => pure (.error reason)
  | .ok () => executeAndUpload worker request definition dir

/-- What `process_job` does after the attempt: a successful one is stored. -/
def closeRequest (worker : Worker) (jobId : Bytes) (message : Object) :
    Except Bytes (TaskExecutionResult × List (Json Bytes)) → Handler (Except Bytes Unit)
  | .error reason => pure (.error reason)
  | .ok (result, uploaded) => do
    setJobStatus worker jobId "done" (doneUpdates message result uploaded)
    removeEntry worker.configurations.dlqPath jobId
    pure (.ok ())

/-- `process_job` from the temporary directory on, for a request. -/
def runRequest (worker : Worker) (jobId : Bytes) (message : Object) (request : TaskRequest)
    (definition : TaskDefinition) (dir : TempDir) : Handler (Except Bytes Unit) := do
  let outcome ← attemptRequest worker request definition dir
  closeRequest worker jobId message outcome

/-- `process_job` for a request. -/
def processRequest (worker : Worker) (job : JobId) (message : Object) (request : TaskRequest) :
    Handler (Except Bytes Unit) := do
  let terminal ← isTerminalStatus worker job.bytes
  if terminal then pure (.ok ())
  else
    match findTask worker.configurations.taskWhitelist (Bytes.cStr request.taskName) with
    | none => do
      failWithoutRetry worker job.bytes message
        (("task [" : Bytes) ++ Bytes.cStr request.taskName ++
          ("] is not registered in the whitelist" : Bytes))
      pure (.ok ())
    | some definition => do
      setJobStatus worker job.bytes "running" (contractFields message)
      let dir := tempDirOf worker.tempDirectory job.bytes
      withTempDir dir (runRequest worker job.bytes message request definition dir)

theorem downloadEntries_eq {downloads : List Download} {entries : List (Json Bytes)}
    (h : List.Forall₂ Download.Names downloads entries) (inputsDir : Bytes) :
    downloadEntries inputsDir entries = fetchDownloads inputsDir downloads := by
  induction h with
  | nil => rfl
  | cons hnames _ ih =>
    obtain ⟨fields, rfl, hbucket, hkey⟩ := hnames
    simp only [Code.downloadEntries, asObject, atString_some hbucket, atString_some hkey,
      liftM_handler, pure_bind, ih]
    rfl

theorem argumentStrings_eq (arguments : List Bytes) :
    argumentStrings (arguments.map .string) = pure (arguments.map Bytes.cStr) := by
  induction arguments with
  | nil => rfl
  | cons argument rest ih =>
    simp only [List.map_cons, argumentStrings, asString, pure_bind, ih]

section Asks

variable {message : Object} {job : JobId} {request : TaskRequest}

theorem TaskAsks.taskArguments_eq {task : Object} (h : TaskAsks task request) :
    taskArguments task = pure (request.arguments.map Bytes.cStr) := by
  unfold taskArguments
  rcases h.arguments with ⟨hget, hnil⟩ | hget
  · rw [hget, hnil]
    rfl
  · rw [hget, atArray_some hget]
    exact argumentStrings_eq request.arguments

theorem TaskAsks.taskTimeoutSec_eq {task : Object} (h : TaskAsks task request) :
    taskTimeoutSec task = pure request.timeout := by
  have hget := h.timeoutSec
  unfold taskTimeoutSec TaskRequest.timeout
  cases htimeout : request.timeoutSec with
  | none =>
    rw [htimeout] at hget
    rw [hget]
    rfl
  | some timeout =>
    rw [htimeout] at hget
    rw [hget, atInt64_some hget]
    rfl

theorem Asks.downloadInputs_eq (h : Asks message job request) (inputsDir : Bytes) :
    downloadInputs message inputsDir = fetchDownloads inputsDir request.downloads := by
  obtain ⟨entries, hget, hnames⟩ := h.downloads
  rw [downloadInputs, Code.downloadInputs, atArray_some hget, liftM_handler, pure_bind]
  exact downloadEntries_eq hnames inputsDir

theorem Asks.runJob_eq (h : Asks message job request) {task : Object}
    (htask : TaskAsks task request) (worker : Worker) (jobId : Bytes)
    (definition : TaskDefinition) (dir : TempDir) :
    runJob worker jobId message task (Bytes.cStr request.taskName) definition dir =
      runRequest worker jobId message request definition dir := by
  simp only [Code.runJob, runRequest, attemptRequest, h.downloadInputs_eq, liftM_handler,
    bind_assoc]
  refine congrArg (_ >>= ·) (funext fun fetched => ?_)
  rcases fetched with reason | ⟨⟩
  · rfl
  simp only [executeAndUpload, htask.taskArguments_eq, htask.taskTimeoutSec_eq, pure_bind,
    bind_assoc]
  refine congrArg (_ >>= ·) (funext fun executed => ?_)
  rcases executed with reason | result
  · rfl
  dsimp only [finishJob]
  by_cases hexit : result.exitCode ≠ 0
  · rw [if_pos hexit, if_pos hexit]
    rfl
  · rw [if_neg hexit, if_neg hexit, atString_some h.outputPrefix, pure_bind, bind_assoc]
    refine congrArg (_ >>= ·) (funext fun uploaded => ?_)
    cases uploaded <;> rfl

/-- **Processing an accepted message is code without accesses.** -/
theorem Asks.processJob_eq (h : Asks message job request) (worker : Worker) :
    processJob worker message = processRequest worker job message request := by
  obtain ⟨task, hget, htask⟩ := h.task
  simp only [Code.processJob, atString_some h.job, atObject_some hget, atString_some htask.name,
    liftM_handler, pure_bind, cStr_jobId]
  refine congrArg (isTerminalStatus worker job.bytes >>= ·) (funext fun terminal => ?_)
  cases terminal with
  | true => rfl
  | false =>
    cases findTask worker.configurations.taskWhitelist (Bytes.cStr request.taskName) with
    | none => rfl
    | some definition =>
      exact congrArg (fun scope => do
        setJobStatus worker job.bytes "running" (contractFields message)
        withTempDir (tempDirOf worker.tempDirectory job.bytes) scope) (h.runJob_eq htask ..)

end Asks

/-! ### The effects of an attempt -/

/-- The code performs these effects only, whatever the responses. -/
abbrev Confined (F : Effect → Prop) {α : Type} (code : Handler α) : Prop :=
  code.Within (fun _ _ => True) F (fun _ => True)

section Confined

variable {F : Effect → Prop} {α β : Type}

theorem Confined.bind {p : Handler α} {f : α → Handler β} (hp : Confined F p)
    (hf : ∀ a, Confined F (f a)) : Confined F (p >>= f) :=
  Prog.Within.bind hp fun a _ => hf a

theorem confined_pure (a : α) : Confined F (pure a) := trivial

theorem confined_perform_bind {e : Effect} {f : Response e → Handler β} (he : F e)
    (hf : ∀ r, Confined F (f r)) : Confined F (perform e >>= f) :=
  ⟨he, fun r _ => hf r⟩

end Confined

/-- What `download_inputs` does for these downloads. -/
def FetchEffect (inputsDir : Bytes) (downloads : List Download) : Effect → Prop
  | .s3Download bucket key path => ∃ download ∈ downloads,
      bucket = Bytes.cStr download.bucket ∧ key = Bytes.cStr download.key ∧
      path = Bytes.cStr (joinPath inputsDir (keyFilename (Bytes.cStr download.key)))
  | _ => False

/-- What the execution and the uploads of a request do. -/
def ExecutionEffect (worker : Worker) (request : TaskRequest) (definition : TaskDefinition)
    (dir : TempDir) : Effect → Prop
  | .isRegularFile path =>
      path = resolveExecutable worker.configurations.rootPath definition.executable
  | .openCapture path => path = dir.stdoutLog
  | .runProcess executable arguments capture timeoutSec =>
      executable = resolveExecutable worker.configurations.rootPath definition.executable ∧
      arguments = dir.inputs :: dir.outputs :: request.arguments.map Bytes.cStr ∧
      capture = dir.stdoutLog ∧
      timeoutSec = effectiveTimeout worker.configurations.defaultTimeoutSec request.timeout
  | .readFile path => path = dir.stdoutLog
  | .listDirectory path => path = dir.outputs
  | .filesystemError => True
  | .s3Upload bucket key path => ∃ filename,
      bucket = Bytes.cStr worker.configurations.s3Bucket ∧
      key = Bytes.cStr (Bytes.cStr request.outputPrefix ++ filename) ∧
      path = Bytes.cStr (joinPath dir.outputs filename)
  | .s3Presign bucket key ttlSec => ∃ filename,
      bucket = Bytes.cStr worker.configurations.s3Bucket ∧
      key = Bytes.cStr (Bytes.cStr request.outputPrefix ++ filename) ∧
      ttlSec = worker.configurations.presignTtlSec
  | _ => False

/-- What an attempt at a request does. -/
def AttemptEffect (worker : Worker) (request : TaskRequest) (definition : TaskDefinition)
    (dir : TempDir) (e : Effect) : Prop :=
  FetchEffect dir.inputs request.downloads e ∨ ExecutionEffect worker request definition dir e

/-- Neither Redis nor the retry files nor the queue is among it. -/
def Effect.isAttempt : Effect → Bool
  | .s3Download .. | .s3Upload .. | .s3Presign .. | .listDirectory _ | .isRegularFile _
  | .openCapture _ | .runProcess .. | .readFile _ | .filesystemError => true
  | _ => false

theorem FetchEffect.isAttempt {inputsDir : Bytes} {downloads : List Download} {e : Effect}
    (h : FetchEffect inputsDir downloads e) : e.isAttempt = true := by
  cases e <;> first | rfl | exact h.elim

theorem AttemptEffect.isAttempt {worker : Worker} {request : TaskRequest}
    {definition : TaskDefinition} {dir : TempDir} {e : Effect}
    (h : AttemptEffect worker request definition dir e) : e.isAttempt = true := by
  rcases h with h | h
  · exact h.isAttempt
  · cases e <;> first | rfl | exact h.elim

theorem downloadAttempts_footprint {inputsDir : Bytes} {download : Download}
    {downloads : List Download} (hmem : download ∈ downloads) (attempts : Nat) :
    ∀ lastError, Confined (FetchEffect inputsDir downloads)
      (downloadAttempts (Bytes.cStr download.bucket) (Bytes.cStr download.key)
        (joinPath inputsDir (keyFilename (Bytes.cStr download.key))) attempts lastError) := by
  induction attempts with
  | zero => exact fun lastError => confined_pure _
  | succ attempts ih =>
    intro lastError
    apply confined_perform_bind
    · exact ⟨download, hmem, Bytes.cStr_cStr _, Bytes.cStr_cStr _, rfl⟩
    rintro (error | ⟨⟩)
    · exact ih error
    · exact confined_pure _

theorem fetchDownloads_footprint (inputsDir : Bytes) {downloads fetched : List Download}
    (h : downloads ⊆ fetched) :
    Confined (FetchEffect inputsDir fetched) (fetchDownloads inputsDir downloads) := by
  induction downloads with
  | nil => exact confined_pure _
  | cons download rest ih =>
    rw [List.cons_subset] at h
    refine (downloadAttempts_footprint h.1 _ _).bind ?_
    rintro (error | ⟨⟩)
    · exact confined_pure _
    · exact ih h.2

section Execution

variable (worker : Worker) (request : TaskRequest) (definition : TaskDefinition) (dir : TempDir)

theorem execute_footprint :
    Confined (fun e => ExecutionEffect worker request definition dir e ∧ ¬ e.isException)
      (execute worker.configurations definition (request.arguments.map Bytes.cStr) dir.inputs
        dir.outputs dir.stdoutLog request.timeout) := by
  refine confined_perform_bind ⟨rfl, id⟩ ?_
  rintro (_ | _)
  · exact confined_pure _
  refine confined_perform_bind ⟨rfl, id⟩ ?_
  rintro (_ | _)
  · exact confined_pure _
  refine confined_perform_bind ⟨⟨rfl, rfl, rfl, rfl⟩, id⟩ ?_
  rintro (what | result)
  · exact confined_pure _
  refine Confined.bind ?_ fun tail => ?_
  · refine confined_perform_bind ⟨rfl, id⟩ ?_
    rintro (_ | content) <;> exact confined_pure _
  · show Confined _ (ite _ _ _)
    split <;> exact confined_pure _

theorem uploadEntries_footprint (throws : Bool) (entries : List DirectoryEntry) :
    ∀ results, Confined (ExecutionEffect worker request definition dir)
      (uploadEntries worker (Bytes.cStr request.outputPrefix) dir.outputs throws entries
        results) := by
  induction entries with
  | nil =>
    intro results
    unfold uploadEntries
    split
    · exact within_throwFilesystemError trivial
    · exact confined_pure _
  | cons entry rest ih =>
    intro results
    unfold uploadEntries
    split
    · refine confined_perform_bind ⟨entry.filename, rfl, rfl, rfl⟩ ?_
      rintro (error | ⟨⟩)
      · exact confined_pure _
      refine confined_perform_bind ⟨entry.filename, rfl, rfl, rfl⟩ ?_
      rintro (error | url)
      · exact confined_pure _
      · exact ih _
    · exact ih results

theorem executeAndUpload_footprint :
    Confined (ExecutionEffect worker request definition dir)
      (executeAndUpload worker request definition dir) := by
  refine Confined.bind ((execute_footprint worker request definition dir).mono (fun _ h => h.1)
    fun _ h => h) ?_
  rintro (reason | result)
  · exact confined_pure _
  show Confined _ (ite _ _ _)
  split
  · exact confined_pure _
  refine Confined.bind ?_ ?_
  · refine confined_perform_bind rfl ?_
    rintro (error | listing)
    · exact confined_pure _
    · exact uploadEntries_footprint worker request definition dir listing.throws listing.entries []
  rintro (reason | uploaded) <;> exact confined_pure _

/-- **The footprint of an attempt**: every effect with all its arguments. -/
theorem attemptRequest_footprint :
    Confined (AttemptEffect worker request definition dir)
      (attemptRequest worker request definition dir) := by
  have hfetch := fetchDownloads_footprint dir.inputs (List.Subset.refl request.downloads)
  refine Confined.bind (hfetch.mono (fun _ => Or.inl) fun _ h => h) ?_
  rintro (reason | ⟨⟩)
  · exact confined_pure _
  · exact (executeAndUpload_footprint worker request definition dir).mono (fun _ => Or.inr)
      fun _ h => h

theorem attemptRequest_confined :
    Confined (·.isAttempt = true) (attemptRequest worker request definition dir) :=
  (attemptRequest_footprint worker request definition dir).mono
    (fun _ => AttemptEffect.isAttempt) fun _ h => h

end Execution

/-! ### What the parts of a handler have in common -/

/-- Effects that neither access Redis nor the clock, other than a failed access to JSON. -/
def Effect.isPlain : Effect → Bool
  | .redisGet _ | .redisSet .. | .utcNow | .uncaught => false
  | _ => true

theorem Effect.isPlain_of_isAttempt {e : Effect} (he : e.isAttempt = true) : e.isPlain = true := by
  cases e <;> first | rfl | cases he

/-- **What the handler of a request does**, apart from its accesses to the document of the
    job and to the clock. -/
def HandlerEffect (worker : Worker) (job : JobId) (request : TaskRequest) : Effect → Prop
  | .createDirectories path =>
      path = (tempDirOf worker.tempDirectory job.bytes).inputs ∨
        path = (tempDirOf worker.tempDirectory job.bytes).outputs
  | .removeAll path => path = (tempDirOf worker.tempDirectory job.bytes).root
  | .dlqRead path | .dlqRemove path | .dlqWrite path _ =>
      path = entryPath worker.configurations.dlqPath job.bytes
  | .sqsSend .. => True
  | e => ∃ definition,
      AttemptEffect worker request definition (tempDirOf worker.tempDirectory job.bytes) e

theorem HandlerEffect.isPlain {worker : Worker} {job : JobId} {request : TaskRequest} {e : Effect}
    (h : HandlerEffect worker job request e) : e.isPlain = true := by
  cases e <;> first
    | rfl
    | exact Effect.isPlain_of_isAttempt (Exists.elim h fun _ hattempt => hattempt.isAttempt)

theorem AttemptEffect.handler {worker : Worker} {job : JobId} {request : TaskRequest}
    {definition : TaskDefinition} {e : Effect}
    (h : AttemptEffect worker request definition (tempDirOf worker.tempDirectory job.bytes) e) :
    HandlerEffect worker job request e := by
  cases e <;> first
    | exact ⟨definition, h⟩
    | cases h.isAttempt

section Closed

variable {F : Effect → Prop} {P : (α : Type) → Handler α → Prop} (hP : Prog.Closed F P)
  {worker : Worker} {job : JobId} {request : TaskRequest}
  (hF : ∀ e, HandlerEffect worker job request e → F e)
  (hstatus : ∀ jobId status updates, P Unit (setJobStatus worker jobId status updates))
  (hterminal : ∀ jobId, P Bool (isTerminalStatus worker jobId))

include hP hF

theorem removeEntry_closed : P Unit (removeEntry worker.configurations.dlqPath job.bytes) :=
  hP.perform (hF (.dlqRemove _) rfl)

include hstatus

theorem closeRequest_closed (message : Object)
    (outcome : Except Bytes (TaskExecutionResult × List (Json Bytes))) :
    P _ (closeRequest worker job.bytes message outcome) := by
  rcases outcome with reason | ⟨result, uploaded⟩
  · exact hP.pure _
  refine hP.bind (hstatus _ _ _) fun _ => ?_
  exact hP.bind (removeEntry_closed hP hF) fun _ => hP.pure _

theorem handleProcessingFailure_closed (messageBody reason : Bytes) :
    P _ (handleProcessingFailure worker job.bytes messageBody reason) := by
  refine hP.bind ?_ ?_
  · refine hP.perform_bind (hF (.dlqRead _) rfl) fun existing => ?_
    refine hP.perform_bind (hF (.dlqWrite _ _) rfl) ?_
    rintro (_ | _) <;> exact hP.pure _
  rintro (error | tryCount)
  · exact hstatus _ _ _
  show P _ (ite _ _ _)
  split
  · refine hP.perform_bind (hF (.sqsSend _ _ _) trivial) ?_
    rintro (error | ⟨⟩)
    · exact hP.bind (removeEntry_closed hP hF) fun _ => hstatus _ _ _
    · exact hstatus _ _ _
  · exact hP.bind (removeEntry_closed hP hF) fun _ => hstatus _ _ _

include hterminal

theorem processRequest_closed (message : Object) :
    P _ (processRequest worker job message request) := by
  have hattempt : ∀ definition, P _ (attemptRequest worker request definition
      (tempDirOf worker.tempDirectory job.bytes)) := fun definition =>
    hP.of_within ((attemptRequest_footprint worker request definition _).mono
      (fun e h => hF e h.handler) fun _ h => h)
  refine hP.bind (hterminal _) ?_
  rintro (_ | _)
  · rw [if_neg Bool.false_ne_true]
    split
    · refine hP.bind ?_ fun _ => hP.pure _
      exact hP.bind (hstatus _ _ _) fun _ => removeEntry_closed hP hF
    · refine hP.bind (hstatus _ _ _) fun _ => ?_
      refine hP.perform_bind (hF (.createDirectories _) (Or.inl rfl)) fun _ => ?_
      refine hP.perform_bind (hF (.createDirectories _) (Or.inr rfl)) fun _ => ?_
      refine hP.bind ?_ fun result => ?_
      · exact hP.bind (hattempt _) (closeRequest_closed hP hF hstatus _)
      · exact hP.perform_bind (hF (.removeAll _) rfl) fun _ => hP.pure _
  · exact hP.pure _

omit hF in
/-- **A property of code that sequences keep holds of the handler** as soon as it holds of
    the two accesses to the document of a job and of what else the handler does. -/
theorem handleMessage_closed {body : Bytes}
    (hF : ∀ job request, (∃ message, intake worker.codec body = .accepted job message ∧
      Asks message job request) → ∀ e, HandlerEffect worker job request e → F e) :
    P _ (handleMessage worker body) := by
  cases hintake : intake worker.codec body with
  | dropped =>
    rw [handleMessage_dropped hintake]
    exact hP.pure _
  | rejected job message error =>
    rw [handleMessage_rejected hintake]
    exact hstatus _ _ _
  | accepted job message =>
    obtain ⟨request, hasks⟩ := asks_of_accepted hintake
    have heffects := hF job request ⟨message, hintake, hasks⟩
    rw [handleMessage_accepted hintake, hasks.processJob_eq]
    refine hP.bind (processRequest_closed hP heffects hstatus hterminal _) ?_
    rintro (reason | ⟨⟩)
    · exact handleProcessingFailure_closed hP heffects hstatus _ _
    · exact hP.pure _

end Closed

/-! ### No access fails -/

/-- No access of the code fails, whatever the responses. -/
abbrev CannotThrow {α : Type} (code : Handler α) : Prop := Confined (· ≠ .uncaught) code

theorem cannotThrow_of_isAttempt {α : Type} {code : Handler α}
    (h : Confined (·.isAttempt = true) code) : CannotThrow code :=
  h.mono (fun e he => by rintro rfl; cases he) fun _ h => h

theorem cannotThrow_closed :
    Prog.Closed (·.isPlain = true) fun _ (code : Handler _) => CannotThrow code where
  pure := confined_pure
  bind := Confined.bind
  perform he := ⟨(fun heq => by rw [heq] at he; cases he), fun _ _ => trivial⟩

theorem setJobStatus_cannotThrow (worker : Worker) (jobId status : Bytes) (updates : Object) :
    CannotThrow (setJobStatus worker jobId status updates) := by
  refine confined_perform_bind nofun fun existing => ?_
  refine confined_perform_bind nofun fun now => ?_
  exact confined_perform_bind nofun fun saved => confined_pure ()

theorem isTerminalStatus_cannotThrow (worker : Worker) (jobId : Bytes) :
    CannotThrow (isTerminalStatus worker jobId) :=
  confined_perform_bind nofun fun _ => confined_pure _

theorem rejectMessage_cannotThrow (worker : Worker) (message : Object) (error : Bytes) :
    CannotThrow (rejectMessage worker message error) := by
  rw [rejectMessage_eq]
  split
  · split
    · exact setJobStatus_cannotThrow _ _ _ _
    · exact confined_pure _
  · exact confined_pure _

/-- `handle_message` is its three branches. -/
theorem handleMessage_branches (worker : Worker) {body : Bytes} {message : Object}
    (hparse : worker.codec.parse body = some (.object message)) :
    handleMessage worker body =
      match validateRequest message with
      | .error error => rejectMessage worker message error
      | .ok () => processJob worker message >>= fun result =>
        match result with
        | .ok () => pure ()
        | .error reason => failMessage worker message body reason := by
  rw [handleMessage, Code.handleMessage, hparse]
  dsimp only
  cases validateRequest message with
  | error error => exact (rejectMessage_eq worker message error).symm
  | ok => rfl

/-- **The validator covers every access.**  For an accepted message no access of
    `contract_fields`, `process_job`, `download_inputs`, the failure branch of
    `handle_message` and `handle_processing_failure` fails, and for a rejected one no
    access of the rejection branch does; these are all the branches that
    `handle_message` has for an object. -/
theorem validated_accesses_succeed (worker : Worker) (message : Object) :
    (validateRequest message = .ok () →
      CannotThrow (contractFieldsAccesses message) ∧
      CannotThrow (processJob worker message) ∧
      (∀ inputsDir, CannotThrow (downloadInputs message inputsDir)) ∧
      (∀ body reason, CannotThrow (failMessage worker message body reason)) ∧
      CannotThrow (inboundTryCountAccesses message)) ∧
    (∀ error, validateRequest message = .error error →
      CannotThrow (rejectMessage worker message error)) ∧
    (∀ body, worker.codec.parse body = some (.object message) →
      CannotThrow (handleMessage worker body)) := by
  have haccepted : validateRequest message = .ok () →
      CannotThrow (processJob worker message) ∧
      (∀ inputsDir, CannotThrow (downloadInputs message inputsDir)) ∧
      ∀ body reason, CannotThrow (failMessage worker message body reason) := by
    intro hvalid
    obtain ⟨job, request, hasks⟩ := asks_of_validateRequest hvalid
    refine ⟨?_, fun inputsDir => ?_, fun body reason => ?_⟩
    · rw [hasks.processJob_eq]
      exact processRequest_closed cannotThrow_closed (fun _ => HandlerEffect.isPlain)
        (setJobStatus_cannotThrow worker) (isTerminalStatus_cannotThrow worker) _
    · rw [hasks.downloadInputs_eq]
      exact cannotThrow_of_isAttempt ((fetchDownloads_footprint _ (List.Subset.refl _)).mono
        (fun _ => FetchEffect.isAttempt) fun _ h => h)
    · rw [failMessage, atString_some hasks.job, pure_bind, cStr_jobId]
      have hplain : ∀ e, HandlerEffect worker job request e → e.isPlain = true :=
        fun _ => HandlerEffect.isPlain
      exact handleProcessingFailure_closed cannotThrow_closed hplain
        (setJobStatus_cannotThrow worker) _ _
  refine ⟨fun hvalid => ?_, fun error _ => rejectMessage_cannotThrow _ _ _,
    fun body hparse => ?_⟩
  · obtain ⟨hprocess, hdownload, hfail⟩ := haccepted hvalid
    refine ⟨?_, hprocess, hdownload, hfail, ?_⟩
    · rw [contractFieldsAccesses_eq]
      exact confined_pure _
    · rw [inboundTryCountAccesses_eq]
      exact confined_pure _
  · rw [handleMessage_branches worker hparse]
    cases hvalid : validateRequest message with
    | error error => exact rejectMessage_cannotThrow _ _ _
    | ok =>
      obtain ⟨hprocess, -, hfail⟩ := haccepted hvalid
      refine hprocess.bind ?_
      rintro (reason | ⟨⟩)
      · exact hfail body reason
      · exact confined_pure _

/-! ### A message for a request -/

/-- An entry of `download_s3`. -/
def Download.entry (download : Download) : Json Bytes :=
  .object [("bucket", .string download.bucket), ("key", .string download.key),
    ("method", .string "GET")]

/-- A message that asks for this and nothing else. -/
def TaskRequest.message (request : TaskRequest) (job : JobId) : Object :=
  [("job_id", .string job.bytes), ("mode", .string "execute"),
    ("task", .object (("name", .string request.taskName) ::
      ("arguments", .array (request.arguments.map .string)) ::
      (request.timeoutSec.map fun timeout =>
        ((("timeout_sec" : Bytes), Json.int64 timeout))).toList)),
    ("download_s3", .array (request.downloads.map Download.entry)),
    ("output_prefix", .string request.outputPrefix)]

/-- No string of the request that must not be empty is. -/
structure TaskRequest.Filled (request : TaskRequest) : Prop where
  taskName : request.taskName ≠ []
  downloads : ∀ download ∈ request.downloads, download.bucket ≠ [] ∧ download.key ≠ []
  outputPrefix : request.outputPrefix ≠ []

theorem checkDownloadList_entries {downloads : List Download}
    (h : ∀ download ∈ downloads, download.bucket ≠ [] ∧ download.key ≠ []) :
    checkDownloadList (downloads.map Download.entry) = .ok () := by
  induction downloads with
  | nil => rfl
  | cons download rest ih =>
    obtain ⟨hbucket, hkey⟩ := h download (List.mem_cons_self ..)
    have hentry : checkDownload download.entry = .ok () := by
      rw [Download.entry, checkDownload, requireNonEmptyString_of_get rfl hbucket,
        requireNonEmptyString_of_get rfl hkey]
      rfl
    rw [List.map_cons, checkDownloadList, hentry]
    exact ih fun d hd => h d (List.mem_cons_of_mem _ hd)

theorem TaskRequest.Filled.valid {request : TaskRequest} (h : request.Filled) (job : JobId) :
    validateRequest (request.message job) = .ok () := by
  have htask : checkTask (request.message job) = .ok () := by
    show (do
      requireNonEmptyString _ _ _
      checkArguments _
      checkTimeout _ : Except Bytes Unit) = _
    rw [requireNonEmptyString_of_get rfl h.taskName]
    show (do
      checkArgumentList (request.arguments.map .string)
      checkTimeout _ : Except Bytes Unit) = _
    rw [checkArgumentList_strings]
    cases htimeout : request.timeoutSec <;> rfl
  have hdownloads : checkDownloads (request.message job) = .ok () :=
    checkDownloadList_entries h.downloads
  rw [validateRequest, requireNonEmptyString_of_get rfl (jobId_ne_nil job),
    checkJobId_eq_ok rfl, htask, hdownloads, requireNonEmptyString_of_get rfl h.outputPrefix]
  rfl

theorem TaskRequest.message_asks (request : TaskRequest) (job : JobId) :
    Asks (request.message job) job request where
  job := rfl
  task := by
    refine ⟨_, rfl, rfl, Or.inr rfl, ?_⟩
    cases htimeout : request.timeoutSec <;> rfl
  downloads := by
    refine ⟨_, rfl, List.forall₂_map_right_iff.mpr ?_⟩
    exact List.forall₂_same.mpr fun download _ => ⟨_, rfl, rfl, rfl⟩
  outputPrefix := rfl

/-- A request with an argument, a timeout and an input. -/
def copyRequest : TaskRequest :=
  ⟨"echo", ["a b"], some 60, [⟨"jobs", "inputs/j/in.txt"⟩], "outputs/j/"⟩

theorem copyRequest_filled : copyRequest.Filled :=
  ⟨by decide, List.forall_mem_singleton.mpr (by decide), by decide⟩

/-- What the sample message asks for. -/
def echoRequest : TaskRequest := ⟨"echo", [], none, [], "outputs/"⟩

theorem echoMessage_asks (job : JobId) : Asks (echoMessage job) job echoRequest where
  job := rfl
  task := ⟨[("name", .string "echo")], rfl, rfl, Or.inl ⟨rfl, rfl⟩, rfl⟩
  downloads := ⟨[], rfl, .nil⟩
  outputPrefix := rfl

theorem copy_accesses_succeed :
    CannotThrow (processJob (echoWorker 3) (copyRequest.message sampleJob)) ∧
    CannotThrow (rejectMessage (echoWorker 3) []
      "job_id is required and must be a non-empty string") ∧
    CannotThrow (handleMessage (echoWorker 3) sampleBody) := by
  refine ⟨?_, ?_, ?_⟩
  · exact ((validated_accesses_succeed _ _).1 (copyRequest_filled.valid sampleJob)).2.1
  · exact (validated_accesses_succeed _ []).2.1 _ rfl
  · exact (validated_accesses_succeed _ _).2.2 _
      (JsonText.codec.parseObject_eq_some.mp (intake_accepted.mp sampleBody_accepted).1)

end TaskForge
